import MissionWeave.SignedDocument.SignVerify
import Mathlib.Data.Finset.Basic

/-!
# Required fields

The `required_...` and `require_...` functions of `bundle.cpp`, with which it
checks the members of the pin and of the manifests.  Most checks come in one
shape: a field is required, and it is compared with a value of the pin.
`Pinned` is such a value, and `requirePinned` is a list of those checks.

* `required_eq_ok`, `requireFields_eq_ok`, `requirePinned_eq_ok`: what passes.
* `eq_pinnedObject`: an object with the given fields and no others, all of them
  checked, is the object of the values.
-/

namespace MissionWeave.Bundle

open SignedDocumentCodec (NotNumeral)

/-- A `BundleError`. -/
def bundleError {α : Type} (what : String) : Except Thrown α := .error (.otherException what)

/-- A member that is there and is what it has to be. -/
def required {α : Type} (read : Json → Option α) (what : String) (object : Json)
    (key label : String) : Except Thrown α :=
  match (object.member? key).bind read with
  | some value => .ok value
  | none => bundleError (label ++ " field must be " ++ what ++ ": " ++ key)

/-- `required_string`. -/
def requiredString (object : Json) (key label : String) : Except Thrown Bytes :=
  required Json.asString? "a string" object key label

/-- `required_size`. -/
def requiredSize (object : Json) (key label : String) : Except Thrown Nat :=
  required Json.asUint64? "a non-negative integer" object key label

/-- `required_array`. -/
def requiredArray (object : Json) (key label : String) : Except Thrown Json :=
  required (fun value => if value.isArray then some value else none) "an array" object key label

/-- `required_object`. -/
def requiredObject (object : Json) (key label : String) : Except Thrown Json :=
  required (fun value => if value.isObject then some value else none) "an object" object key label

/-- `require_equal` of texts. -/
def requireEqual (label : String) (expected actual : Bytes) : Except Thrown Unit :=
  if expected ≠ actual then bundleError (label ++ " does not match PROTOCOL_PIN.json")
  else .ok ()

/-- `require_equal` of sizes. -/
def requireEqualSize (label : String) (expected actual : Nat) : Except Thrown Unit :=
  if expected ≠ actual then
    bundleError (label ++ " expected " ++ toString expected ++ ", got " ++ toString actual)
  else .ok ()

/-- `require_fields`.  The two sets are compared. -/
def requireFields (object : Json) (expected : List String) (label : String) :
    Except Thrown Unit :=
  if (object.members.map Prod.fst).toFinset ≠ (expected.map ascii).toFinset then
    bundleError (label ++ " has unexpected fields")
  else .ok ()

/-- What a field is compared with. -/
inductive Pinned
  | text (expected : Bytes)
  | size (expected : Nat)

/-- A field is required, and `require_equal` compares it. -/
def requirePinnedField (object : Json) (label : String) (field : String × Pinned) :
    Except Thrown Unit :=
  match field.2 with
  | .text expected => do
    requireEqual (label ++ " " ++ field.1) expected (← requiredString object field.1 label)
  | .size expected => do
    requireEqualSize (label ++ " " ++ field.1) expected (← requiredSize object field.1 label)

/-- The checks of some fields, one after the other. -/
def requirePinned (object : Json) (label : String) : List (String × Pinned) → Except Thrown Unit
  | [] => .ok ()
  | field :: fields => do
    requirePinnedField object label field
    requirePinned object label fields

/-! ## What passes -/

section

variable {α : Type} {read : Json → Option α} {what key label : String} {object : Json}

theorem required_eq_ok {a : α} :
    required read what object key label = .ok a ↔
      ∃ value, object.member? key = some value ∧ read value = some a := by
  rw [required, ← Option.bind_eq_some_iff]
  cases (object.member? key).bind read with
  | none => simp [bundleError]
  | some b => simp

theorem requiredString_eq_ok {text : Bytes} :
    requiredString object key label = .ok text ↔ TextMember object key text := required_eq_ok

/-- The member is a size. -/
def SizeMember (object : Json) (key : String) (size : Nat) : Prop :=
  ∃ value, object.member? key = some value ∧ value.asUint64? = some size

theorem requiredSize_eq_ok {size : Nat} :
    requiredSize object key label = .ok size ↔ SizeMember object key size := required_eq_ok

theorem requiredArray_eq_ok {value : Json} :
    requiredArray object key label = .ok value ↔
      object.member? key = some value ∧ value.isArray = true := by
  rw [requiredArray, required_eq_ok]
  grind

theorem requiredObject_eq_ok {value : Json} :
    requiredObject object key label = .ok value ↔
      object.member? key = some value ∧ value.isObject = true := by
  rw [requiredObject, required_eq_ok]
  grind

theorem requireEqual_eq_ok {expected actual : Bytes} {u : Unit} :
    requireEqual label expected actual = .ok u ↔ expected = actual := by
  rw [requireEqual, bundleError, Except.ite_error_eq_ok]
  simp

theorem requireEqualSize_eq_ok {expected actual : Nat} {u : Unit} :
    requireEqualSize label expected actual = .ok u ↔ expected = actual := by
  rw [requireEqualSize, bundleError, Except.ite_error_eq_ok]
  simp

theorem requireFields_eq_ok {expected : List String} {u : Unit} :
    requireFields object expected label = .ok u ↔
      ∀ name, name ∈ object.members.map Prod.fst ↔ name ∈ expected.map ascii := by
  rw [requireFields, bundleError, Except.ite_error_eq_ok, not_not, Finset.ext_iff]
  simp

/-- The member has the value that it is compared with. -/
def Pinned.Holds (object : Json) (key : String) : Pinned → Prop
  | .text expected => TextMember object key expected
  | .size expected => SizeMember object key expected

theorem requirePinnedField_eq_ok {field : String × Pinned} {u : Unit} :
    requirePinnedField object label field = .ok u ↔ field.2.Holds object field.1 := by
  obtain ⟨key, pinned⟩ := field
  cases pinned with
  | text expected =>
    simp only [requirePinnedField, Except.bind_eq_ok, requiredString_eq_ok, requireEqual_eq_ok,
      Pinned.Holds, exists_eq_right']
  | size expected =>
    simp only [requirePinnedField, Except.bind_eq_ok, requiredSize_eq_ok, requireEqualSize_eq_ok,
      Pinned.Holds, exists_eq_right']

/-- All the fields have the values. -/
def AllHold (object : Json) (fields : List (String × Pinned)) : Prop :=
  ∀ field ∈ fields, field.2.Holds object field.1

theorem requirePinned_eq_ok {fields : List (String × Pinned)} {u : Unit} :
    requirePinned object label fields = .ok u ↔ AllHold object fields := by
  induction fields with
  | nil => simp [requirePinned, AllHold]
  | cons field fields ih =>
    rw [AllHold, List.forall_mem_cons, requirePinned, Except.bind_eq_ok]
    simp only [requirePinnedField_eq_ok, ih, exists_and_right]
    exact ⟨fun h => ⟨h.1.elim fun _ hfield => hfield, h.2⟩, fun h => ⟨⟨(), h.1⟩, h.2⟩⟩

end

end MissionWeave.Bundle
