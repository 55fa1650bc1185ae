import MissionWeave.CodeLib.Utf8
import MissionWeave.CodeLib.Binary64
import MissionWeave.CodeLib.Decimal
import MissionWeave.Errors

/-!
# The JSON values of the SDK

`Json` is `jsoncons::json` as far as the SDK builds and reads it: an integer
that fits 64 bits is stored as such, a wider one is stored as a text with the
tag `bigint`, every other number is a `double`, and an object keeps its
members sorted by name.

The storage of a wide integer shows in two of the accessors.  `is_string()`
looks at the storage only and holds of it, and `is_number()` looks at the tag
and holds of it as well.

* `Json.data` is the RFC 8785 data of a value: each number becomes its nearest
  `double`.
* `Json.equals` is `operator==`, exact between integers.
* `Json.WellFormed` says that every string is UTF-8 and that the members of
  every object are in strictly increasing order, hence distinct.
* `Json.Narrow` says that no integer is wider than 64 bits, and
  `Json.SmallNumbers` that the nearest `double` of no number is.
* `Json.nesting` is the greatest number of containers around a value in it.
-/

namespace MissionWeave

inductive Json
  | null
  | bool (value : Bool)
  | int64 (value : Int64)
  | uint64 (value : UInt64)
  | bigint (value : Int)
  | double (value : Double)
  | string (text : Bytes)
  | array (elements : List Json)
  | object (members : List (Bytes × Json))

namespace Json

/-- Induction over the values inside a value. -/
theorem induct {P : Json → Prop} (null : P .null) (bool : ∀ b, P (.bool b))
    (int64 : ∀ n, P (.int64 n)) (uint64 : ∀ n, P (.uint64 n)) (bigint : ∀ n, P (.bigint n))
    (double : ∀ x, P (.double x)) (string : ∀ s, P (.string s))
    (array : ∀ xs, (∀ x ∈ xs, P x) → P (.array xs))
    (object : ∀ ms, (∀ m ∈ ms, P m.2) → P (.object ms)) (v : Json) : P v := by
  refine @Json.rec P (fun xs => ∀ x ∈ xs, P x) (fun ms => ∀ m ∈ ms, P m.2) (fun m => P m.2)
    null bool int64 uint64 bigint double string array object ?_ ?_ ?_ ?_ ?_ v
  · intro x hx
    cases hx
  · intro x xs hx hxs y hy
    rcases List.mem_cons.mp hy with rfl | hy
    · exact hx
    · exact hxs y hy
  · intro m hm
    cases hm
  · intro m ms hm hms y hy
    rcases List.mem_cons.mp hy with rfl | hy
    · exact hm
    · exact hms y hy
  · intro name value hvalue
    exact hvalue

/-! ## Accessors -/

def isObject : Json → Bool
  | .object _ => true
  | _ => false

def isArray : Json → Bool
  | .array _ => true
  | _ => false

/-- `is_string()`.  A `bigint` is stored as a string. -/
def isString : Json → Bool
  | .string _ | .bigint _ => true
  | _ => false

/-- The value of an integer of any width. -/
def integer? : Json → Option Int
  | .int64 n => some n.toInt
  | .uint64 n => some n.toNat
  | .bigint n => some n
  | _ => none

/-- `as<double>()` of a number. -/
def asDouble? : Json → Option Double
  | .int64 n => some (nearest n.toInt)
  | .uint64 n => some (nearest n.toNat)
  | .bigint n => some (nearest n)
  | .double x => some x
  | _ => none

/-- `is_uint64()` and then `as<std::uint64_t>()`. -/
def asUint64? : Json → Option Nat
  | .uint64 n => some n.toNat
  | .int64 n => if 0 ≤ n.toInt then some n.toInt.toNat else none
  | _ => none

/-- `is_string()` and then `as<std::string>()`. -/
def asString? : Json → Option Bytes
  | .string text => some text
  | .bigint n => some (intText n)
  | _ => none

def members : Json → List (Bytes × Json)
  | .object ms => ms
  | _ => []

def elements : Json → List Json
  | .array xs => xs
  | _ => []

/-- The value of the member `field`, if the value is an object that has one. -/
def member? (v : Json) (field : String) : Option Json :=
  (v.members.find? fun m => m.1 == ascii field).map Prod.snd

/-- `contains`. -/
def contains (v : Json) (field : String) : Bool := (v.member? field).isSome

/-- `at`. -/
def at' (v : Json) (field : String) : Except Thrown Json :=
  match v.member? field with
  | some value => .ok value
  | none => .error (.otherException ("Key not found: '" ++ field ++ "'"))

/-- The members with `name` bound to `value`, in the order of the names. -/
def insertMember (name : Bytes) (value : Json) : List (Bytes × Json) → List (Bytes × Json)
  | [] => [(name, value)]
  | m :: ms =>
    match compare name m.1 with
    | .lt => (name, value) :: m :: ms
    | .eq => (name, value) :: ms
    | .gt => m :: insertMember name value ms

/-- The object that holds the given members. -/
def ofMembers (ms : List (Bytes × Json)) : Json :=
  .object (ms.foldr (fun m sorted => insertMember m.1 m.2 sorted) [])

/-- `value[field] = member` on an object. -/
def set (v : Json) (field : String) (member : Json) : Json :=
  .object (insertMember (ascii field) member v.members)

/-- `erase(field)` on an object. -/
def erase (v : Json) (field : String) : Json :=
  match v with
  | .object ms => .object (ms.filter fun m => m.1 != ascii field)
  | v => v

/-! ## RFC 8785 data -/

/-- JSON data in the sense of RFC 8785: the numbers are the `double` values. -/
inductive Data
  | null
  | bool (value : Bool)
  | number (value : Double)
  | string (text : Bytes)
  | array (elements : List Data)
  | object (members : List (Bytes × Data))

mutual

/-- The RFC 8785 data of a value.  Members are sorted by name, so the order in
which a text or a program wrote them does not matter. -/
def data : Json → Data
  | .null => .null
  | .bool b => .bool b
  | .int64 n => .number (nearest n.toInt)
  | .uint64 n => .number (nearest n.toNat)
  | .bigint n => .number (nearest n)
  | .double x => .number x
  | .string text => .string text
  | .array xs => .array (dataElements xs)
  | .object ms => .object (dataMembers ms)

def dataElements : List Json → List Data
  | [] => []
  | x :: xs => data x :: dataElements xs

def dataMembers : List (Bytes × Json) → List (Bytes × Data)
  | [] => []
  | (name, value) :: ms => (name, data value) :: dataMembers ms

end

/-- The same RFC 8785 data. -/
def SameData (v w : Json) : Prop := v.data = w.data

/-! ## `operator==` -/

/-- Two numbers are equal: exactly if both are integers, else as `double`. -/
def numbersEqual (v w : Json) : Bool :=
  match v.integer?, w.integer? with
  | some m, some n => m == n
  | _, _ =>
    match v.asDouble?, w.asDouble? with
    | some x, some y => x.equals y
    | _, _ => false

mutual

/-- `operator==`. -/
def equals : Json → Json → Bool
  | .null, .null => true
  | .bool b, .bool c => b == c
  | .string s, .string t => s == t
  | .array xs, .array ys => equalElements xs ys
  | .object ms, .object ns => equalMembers ms ns
  | v, w => numbersEqual v w

def equalElements : List Json → List Json → Bool
  | [], [] => true
  | x :: xs, y :: ys => equals x y && equalElements xs ys
  | _, _ => false

def equalMembers : List (Bytes × Json) → List (Bytes × Json) → Bool
  | [], [] => true
  | (n, x) :: xs, (m, y) :: ys => n == m && (equals x y && equalMembers xs ys)
  | _, _ => false

end

/-! ## Equality of the stored values -/

mutual

/-- The same value, stored in the same way. -/
def same : Json → Json → Bool
  | .null, .null => true
  | .bool b, .bool c => b == c
  | .int64 m, .int64 n => m == n
  | .uint64 m, .uint64 n => m == n
  | .bigint m, .bigint n => m == n
  | .double x, .double y => x == y
  | .string s, .string t => s == t
  | .array xs, .array ys => sameElements xs ys
  | .object ms, .object ns => sameMembers ms ns
  | _, _ => false

def sameElements : List Json → List Json → Bool
  | [], [] => true
  | x :: xs, y :: ys => same x y && sameElements xs ys
  | _, _ => false

def sameMembers : List (Bytes × Json) → List (Bytes × Json) → Bool
  | [], [] => true
  | (n, x) :: xs, (m, y) :: ys => n == m && (same x y && sameMembers xs ys)
  | _, _ => false

end

theorem sameElements_iff {xs : List Json} (ih : ∀ x ∈ xs, ∀ w, same x w = true ↔ x = w)
    (ys : List Json) : sameElements xs ys = true ↔ xs = ys := by
  induction xs generalizing ys with
  | nil => cases ys <;> simp [sameElements]
  | cons x xs ihxs =>
    obtain ⟨hx, hxs⟩ := List.forall_mem_cons.mp ih
    cases ys with
    | nil => simp [sameElements]
    | cons y ys => rw [sameElements, Bool.and_eq_true, hx, ihxs hxs, List.cons.injEq]

theorem sameMembers_iff {ms : List (Bytes × Json)}
    (ih : ∀ m ∈ ms, ∀ w, same m.2 w = true ↔ m.2 = w) (ns : List (Bytes × Json)) :
    sameMembers ms ns = true ↔ ms = ns := by
  induction ms generalizing ns with
  | nil => cases ns <;> simp [sameMembers]
  | cons m ms ihms =>
    obtain ⟨hm, hms⟩ := List.forall_mem_cons.mp ih
    cases ns with
    | nil => simp [sameMembers]
    | cons n ns =>
      rw [sameMembers, Bool.and_eq_true, Bool.and_eq_true, beq_iff_eq, hm, ihms hms,
        List.cons.injEq, Prod.ext_iff, and_assoc]

theorem same_iff (v w : Json) : same v w = true ↔ v = w := by
  induction v using Json.induct generalizing w with
  | array xs ih => cases w <;> simp [same, sameElements_iff ih]
  | object ms ih => cases w <;> simp [same, sameMembers_iff ih]
  | _ => cases w <;> simp [same]

instance : DecidableEq Json := fun v w => decidable_of_iff (same v w = true) (same_iff v w)

/-! ## Conditions on values -/

/-- The members are in strictly increasing order of their names. -/
def SortedMembers {α : Type} (ms : List (Bytes × α)) : Prop :=
  ms.Pairwise fun m n => compare m.1 n.1 = .lt

/-- Every object is sorted, as jsoncons keeps it. -/
inductive Ordered : Json → Prop
  | leaf {v : Json} (array : v.isArray = false) (object : v.isObject = false) : Ordered v
  | array {xs : List Json} (elements : ∀ x ∈ xs, Ordered x) : Ordered (.array xs)
  | object {ms : List (Bytes × Json)} (sorted : SortedMembers ms)
      (values : ∀ m ∈ ms, Ordered m.2) : Ordered (.object ms)

/-- Every string is UTF-8 and every object is sorted. -/
inductive WellFormed : Json → Prop
  | null : WellFormed .null
  | bool (b : Bool) : WellFormed (.bool b)
  | int64 (n : Int64) : WellFormed (.int64 n)
  | uint64 (n : UInt64) : WellFormed (.uint64 n)
  | bigint (n : Int) : WellFormed (.bigint n)
  | double (x : Double) : WellFormed (.double x)
  | string {s : Bytes} (utf8 : Utf8.WellFormed s) : WellFormed (.string s)
  | array {xs : List Json} (elements : ∀ x ∈ xs, WellFormed x) : WellFormed (.array xs)
  | object {ms : List (Bytes × Json)} (sorted : SortedMembers ms)
      (names : ∀ m ∈ ms, Utf8.WellFormed m.1) (values : ∀ m ∈ ms, WellFormed m.2) :
      WellFormed (.object ms)

/-- Every number has a finite nearest `double`. -/
inductive FiniteNumbers : Json → Prop
  | null : FiniteNumbers .null
  | bool (b : Bool) : FiniteNumbers (.bool b)
  | number {v : Json} {x : Binary64} (finite : v.asDouble? = some (.finite x)) : FiniteNumbers v
  | string (s : Bytes) : FiniteNumbers (.string s)
  | array {xs : List Json} (elements : ∀ x ∈ xs, FiniteNumbers x) : FiniteNumbers (.array xs)
  | object {ms : List (Bytes × Json)} (values : ∀ m ∈ ms, FiniteNumbers m.2) :
      FiniteNumbers (.object ms)

/-- Every integer is in the range that `double` represents exactly. -/
inductive SafeIntegers : Json → Prop
  | null : SafeIntegers .null
  | bool (b : Bool) : SafeIntegers (.bool b)
  | integer {v : Json} {n : Int} (value : v.integer? = some n) (safe : |n| < 2 ^ 53) :
      SafeIntegers v
  | double (x : Double) : SafeIntegers (.double x)
  | string (s : Bytes) : SafeIntegers (.string s)
  | array {xs : List Json} (elements : ∀ x ∈ xs, SafeIntegers x) : SafeIntegers (.array xs)
  | object {ms : List (Bytes × Json)} (values : ∀ m ∈ ms, SafeIntegers m.2) :
      SafeIntegers (.object ms)

/-- No integer is wider than 64 bits. -/
inductive Narrow : Json → Prop
  | null : Narrow .null
  | bool (b : Bool) : Narrow (.bool b)
  | int64 (n : Int64) : Narrow (.int64 n)
  | uint64 (n : UInt64) : Narrow (.uint64 n)
  | double (x : Double) : Narrow (.double x)
  | string (s : Bytes) : Narrow (.string s)
  | array {xs : List Json} (elements : ∀ x ∈ xs, Narrow x) : Narrow (.array xs)
  | object {ms : List (Bytes × Json)} (values : ∀ m ∈ ms, Narrow m.2) : Narrow (.object ms)

/-- The same RFC 8785 data, in values without wide integers. -/
structure SameNarrowData (v w : Json) : Prop where
  sameData : SameData v w
  left : v.Narrow
  right : w.Narrow

theorem SameNarrowData.symm {v w : Json} (h : SameNarrowData v w) : SameNarrowData w v :=
  ⟨h.sameData.symm, h.right, h.left⟩

/-- Every number is below `2 ^ 63` in magnitude. -/
inductive SmallNumbers : Json → Prop
  | null : SmallNumbers .null
  | bool (b : Bool) : SmallNumbers (.bool b)
  | number {v : Json} {x : Binary64} (finite : v.asDouble? = some (.finite x))
      (small : |x.value| < 2 ^ 63) : SmallNumbers v
  | string (s : Bytes) : SmallNumbers (.string s)
  | array {xs : List Json} (elements : ∀ x ∈ xs, SmallNumbers x) : SmallNumbers (.array xs)
  | object {ms : List (Bytes × Json)} (values : ∀ m ∈ ms, SmallNumbers m.2) :
      SmallNumbers (.object ms)

mutual

/-- The greatest number of arrays and objects that enclose a value in it. -/
def nesting : Json → Nat
  | .array xs => nestingElements xs
  | .object ms => nestingMembers ms
  | _ => 0

def nestingElements : List Json → Nat
  | [] => 0
  | x :: xs => max (nesting x + 1) (nestingElements xs)

def nestingMembers : List (Bytes × Json) → Nat
  | [] => 0
  | (_, value) :: ms => max (nesting value + 1) (nestingMembers ms)

end

end Json

end MissionWeave
