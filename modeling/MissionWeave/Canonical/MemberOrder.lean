import MissionWeave.Canonical.StringSpec
import MissionWeave.CodeLib.Utf16

/-!
# The order of object members

The members of an object are written in the order of the UTF-16 code units of
their names, whatever order they are stored in.

* `utf16Units_eq`: `utf16_units` is the UTF-16 encoding form, hence injective
  on UTF-8.
* `less_iff`: on members with UTF-8 names the comparison is that of the code
  units, the names themselves are never compared.
* `serialize_object_ordered`: each member is written once, in strict order.
-/

namespace MissionWeave.Canonical

/-! ## `utf16_units` -/

theorem codePointUnits_eq (c : Char) : codePointUnits c.toNat = Utf16.encode c := by
  unfold codePointUnits Utf16.encode
  by_cases hbasic : c.toNat < 0x10000
  · rw [if_pos (by omega), if_pos hbasic]
  · rw [if_neg (by omega), if_neg hbasic]
    dsimp only
    rw [Nat.shiftRight_eq_div_pow, show (0x3FF : Nat) = 2 ^ 10 - 1 from rfl,
      Nat.and_two_pow_sub_one_eq_mod]

/-- The code units of a UTF-8 string are the UTF-16 encoding of its
characters. -/
theorem utf16Units_eq (cs : List Char) :
    utf16Units (Utf8.encodeAll cs) = .ok (Utf16.encodeAll cs) := by
  rw [utf16Units_encode]
  simp only [codePointUnits_eq]
  rfl

/-- The code units of a name, with none for what is not UTF-8. -/
def unitsOf (name : Bytes) : List UInt16 := (utf16Units name).toOption.getD []

theorem utf16Units_eq_unitsOf {name : Bytes} (h : Utf8.WellFormed name) :
    utf16Units name = .ok (unitsOf name) := by
  obtain ⟨cs, rfl⟩ := h
  rw [unitsOf, utf16Units_eq]
  rfl

theorem unitsOf_encode (cs : List Char) : unitsOf (Utf8.encodeAll cs) = Utf16.encodeAll cs := by
  rw [unitsOf, utf16Units_eq]
  rfl

theorem unitsOf_inj {name name' : Bytes} (h : Utf8.WellFormed name) (h' : Utf8.WellFormed name') :
    unitsOf name = unitsOf name' ↔ name = name' := by
  constructor
  · intro heq
    obtain ⟨cs, rfl⟩ := h
    obtain ⟨ds, rfl⟩ := h'
    rw [unitsOf_encode, unitsOf_encode] at heq
    rw [Utf16.encodeAll_injective heq]
  · intro heq
    rw [heq]

/-! ## The comparison -/

theorem compare_eq_lt {xs ys : List UInt16} : compare xs ys = .lt ↔ xs < ys := by
  induction xs generalizing ys with
  | nil =>
    cases ys with
    | nil => simp
    | cons y ys => simp [List.compare_nil_cons]
  | cons x xs ih =>
    cases ys with
    | nil => simp [List.compare_cons_nil]
    | cons y ys =>
      rw [List.compare_cons_cons, List.cons_lt_cons_iff, ← ih, ← Std.compare_eq_lt]
      cases hcompare : compare x y with
      | lt => simp
      | eq => simp [Std.LawfulEqCmp.eq_of_compare hcompare]
      | gt =>
        have hne : x ≠ y := by
          intro heq
          rw [heq, Std.compare_self] at hcompare
          cases hcompare
        simp [hne]

theorem lt_trichotomous (xs ys : List UInt16) : xs < ys ∨ xs = ys ∨ ys < xs := by
  cases hcompare : compare xs ys with
  | lt => exact .inl (compare_eq_lt.mp hcompare)
  | eq => exact .inr (.inl (Std.LawfulEqCmp.eq_of_compare hcompare))
  | gt => exact .inr (.inr (compare_eq_lt.mp (Std.OrientedCmp.lt_of_gt hcompare)))

/-- A member as `serialize` enters it, with a UTF-8 name. -/
structure Entered (member : ObjectMember) : Prop where
  wellFormed : Utf8.WellFormed member.key
  order : member.order = unitsOf member.key

variable {left right third : ObjectMember}

/-- Equal code units belong to equal names. -/
theorem Entered.order_eq_iff (hl : Entered left) (hr : Entered right) :
    left.order = right.order ↔ left.key = right.key := by
  rw [hl.order, hr.order, unitsOf_inj hl.wellFormed hr.wellFormed]

/-- The comparison is that of the code units. -/
theorem Entered.less_iff (hl : Entered left) (hr : Entered right) :
    left.less right = true ↔ left.order < right.order := by
  unfold ObjectMember.less
  by_cases horder : left.order = right.order
  · rw [if_pos horder, (hl.order_eq_iff hr).mp horder, Std.compare_self, horder]
    simp [List.lt_irrefl]
  · rw [if_neg horder, beq_iff_eq, compare_eq_lt]

/-! ## Sorting -/

/-- The comparison of any two members: by the code units, then by the names. -/
def memberCompare : ObjectMember → ObjectMember → Ordering :=
  compareLex (compareOn ObjectMember.order) (compareOn ObjectMember.key)

private instance : Std.TransCmp memberCompare :=
  inferInstanceAs (Std.TransCmp (compareLex (compareOn ObjectMember.order)
    (compareOn ObjectMember.key)))

theorem memberCompare_swap (left right : ObjectMember) :
    memberCompare right left = (memberCompare left right).swap := Std.OrientedCmp.eq_swap

theorem less_eq (left right : ObjectMember) :
    left.less right = (memberCompare left right == .lt) := by
  unfold ObjectMember.less memberCompare compareLex compareOn
  by_cases horder : left.order = right.order
  · rw [if_pos horder, horder, Std.compare_self]
    rfl
  · rw [if_neg horder]
    cases hcompare : compare left.order right.order with
    | lt => rfl
    | eq => exact absurd (Std.LawfulEqCmp.eq_of_compare hcompare) horder
    | gt => rfl

theorem not_less_iff {left right : ObjectMember} :
    (!right.less left) = true ↔ (memberCompare left right).isLE = true := by
  rw [less_eq, memberCompare_swap]
  cases memberCompare left right <;> simp

private instance : Std.Total fun left right : ObjectMember => (!right.less left) = true where
  total left right := by
    rw [not_less_iff, not_less_iff, memberCompare_swap left right]
    cases memberCompare left right <;> simp

private instance : IsTrans ObjectMember fun left right => (!right.less left) = true where
  trans left middle right := by
    rw [not_less_iff, not_less_iff, not_less_iff]
    exact Std.TransCmp.isLE_trans

theorem perm_sortMembers (members : List ObjectMember) : (sortMembers members).Perm members :=
  List.perm_insertionSort _ members

/-- Members with different UTF-8 names are sorted strictly by code units. -/
theorem pairwise_sortMembers {members : List ObjectMember}
    (hentered : ∀ member ∈ members, Entered member)
    (hnodup : (members.map ObjectMember.key).Nodup) :
    (sortMembers members).Pairwise fun left right => left.order < right.order := by
  have hperm := perm_sortMembers members
  have hle : (sortMembers members).Pairwise fun left right => (!right.less left) = true :=
    List.pairwise_insertionSort _ members
  have hne : (sortMembers members).Pairwise fun left right => left.key ≠ right.key :=
    List.pairwise_map.mp ((hperm.map ObjectMember.key).nodup_iff.mpr hnodup)
  refine (hle.and hne).imp_of_mem fun {left right} hleft hright h => ?_
  have hl := hentered left (hperm.mem_iff.mp hleft)
  have hr := hentered right (hperm.mem_iff.mp hright)
  have hnot : ¬right.order < left.order := by
    rw [← hr.less_iff hl, Bool.not_eq_true, ← Bool.not_eq_true']
    exact h.1
  rcases lt_trichotomous left.order right.order with hlt | heq | hgt
  · exact hlt
  · exact absurd ((hl.order_eq_iff hr).mp heq) h.2
  · exact absurd hgt hnot

/-! ## The members that are written -/

/-- The entry of a member of an object. -/
def memberOf (m : Bytes × Json) : ObjectMember := ⟨m.1, unitsOf m.1, serialize m.2⟩

theorem entered_memberOf {m : Bytes × Json} (h : Utf8.WellFormed m.1) : Entered (memberOf m) :=
  ⟨h, rfl⟩

theorem objectMembers_eq {ms : List (Bytes × Json)} (h : ∀ m ∈ ms, Utf8.WellFormed m.1) :
    objectMembers (serializeMembers ms) = .ok (ms.map memberOf) := by
  induction ms with
  | nil => rfl
  | cons m ms ih =>
    rw [List.forall_mem_cons] at h
    rw [serializeMembers, objectMembers, utf16Units_eq_unitsOf h.1, Except.ok_bind, ih h.2]
    rfl

/-- The text of a member. -/
def memberText (m : Bytes × Json) : Except Thrown Bytes := do
  let key ← escapedString m.1
  let text ← serialize m.2
  .ok (key ++ Ascii.colon :: text)

/-- The text of an object that has its members written in the given order: the
texts of the members with commas between them, in braces. -/
def writeMembers (ms : List (Bytes × Json)) : Except Thrown Bytes := do
  let texts ← ms.mapM memberText
  .ok (Ascii.leftBrace :: ([Ascii.comma].intercalate texts ++ [Ascii.rightBrace]))

/-- The items of the serializer are joined with commas, unless one throws. -/
theorem separated_eq (items : List (Except Thrown Bytes)) :
    separated items = items.mapM id >>= fun texts => .ok ([Ascii.comma].intercalate texts) := by
  induction items with
  | nil => rfl
  | cons item items ih =>
    cases item with
    | error thrown => cases items <;> rfl
    | ok text =>
      cases items with
      | nil =>
        rw [separated, List.mapM_cons, List.mapM_nil, id, Except.ok_bind, pure_bind, pure_bind,
          List.intercalate_singleton]
      | cons next items =>
        rw [separated, ih]
        simp [bind_assoc, List.intercalate_cons_cons]

/-- The serializer writes the members of a sorted list. -/
theorem separated_output (ms : List (Bytes × Json)) :
    (do
      let output ← separated ((ms.map memberOf).map ObjectMember.output)
      .ok (Ascii.leftBrace :: (output ++ [Ascii.rightBrace]))) = writeMembers ms := by
  have htexts : (ms.map memberOf).map ObjectMember.output = ms.map memberText := by
    rw [List.map_map]
    rfl
  rw [htexts, separated_eq, List.mapM_map, bind_assoc]
  rfl

/-- In strict order of the code units of the names. -/
def InOrder (ms : List (Bytes × Json)) : Prop :=
  ms.Pairwise fun m n => unitsOf m.1 < unitsOf n.1

/-- There is one order of the members of an object. -/
theorem InOrder.eq_of_perm {ms ns : List (Bytes × Json)} (hms : InOrder ms) (hns : InOrder ns)
    (hperm : ms.Perm ns) : ms = ns :=
  hperm.eq_of_pairwise (fun _ _ _ _ hlt hgt => absurd hgt (List.lt_asymm hlt)) hms hns

/-- An object is written with its members in order. -/
theorem exists_inOrder {ms : List (Bytes × Json)} (hutf8 : ∀ m ∈ ms, Utf8.WellFormed m.1)
    (hnodup : (ms.map Prod.fst).Nodup) :
    ∃ ordered, ordered.Perm ms ∧ InOrder ordered ∧
      serialize (.object ms) = writeMembers ordered := by
  have hsorted : (ms.insertionSort fun m n => !(memberOf n).less (memberOf m)).map memberOf =
      sortMembers (ms.map memberOf) :=
    List.map_insertionSort _ _ memberOf ms fun _ _ _ _ => Iff.rfl
  have hstrict : (sortMembers (ms.map memberOf)).Pairwise
      fun left right => left.order < right.order := by
    apply pairwise_sortMembers
    · intro member hmember
      obtain ⟨m, hm, rfl⟩ := List.mem_map.mp hmember
      exact entered_memberOf (hutf8 m hm)
    · rw [List.map_map]
      exact hnodup
  refine ⟨ms.insertionSort fun m n => !(memberOf n).less (memberOf m),
    List.perm_insertionSort _ ms, ?_, ?_⟩
  · rw [← hsorted, List.pairwise_map] at hstrict
    exact hstrict
  · rw [serialize, objectMembers_eq hutf8, Except.ok_bind, ← hsorted]
    exact separated_output _

/-- The order in which the members are stored does not matter. -/
theorem serialize_object_perm {ms ms' : List (Bytes × Json)}
    (hutf8 : ∀ m ∈ ms, Utf8.WellFormed m.1) (hnodup : (ms.map Prod.fst).Nodup)
    (hperm : ms'.Perm ms) : serialize (.object ms') = serialize (.object ms) := by
  obtain ⟨ordered, hordered, hin, hwrite⟩ := exists_inOrder hutf8 hnodup
  obtain ⟨ordered', hordered', hin', hwrite'⟩ := exists_inOrder
    (fun m hm => hutf8 m (hperm.mem_iff.mp hm)) ((hperm.map Prod.fst).nodup_iff.mpr hnodup)
  have hsame : ordered' = ordered :=
    hin'.eq_of_perm hin (hordered'.trans (hperm.trans hordered.symm))
  rw [hwrite, hwrite', hsame]

theorem utf16Units_injective {name name' : Bytes} (h : Utf8.WellFormed name)
    (h' : Utf8.WellFormed name') (heq : utf16Units name = utf16Units name') : name = name' := by
  rw [utf16Units_eq_unitsOf h, utf16Units_eq_unitsOf h'] at heq
  exact (unitsOf_inj h h').mp (Except.ok.inj heq)

theorem less_irrefl (member : ObjectMember) : member.less member = false := by
  have hself : memberCompare member member = .eq := Std.ReflCmp.compare_self
  rw [less_eq, hself]
  rfl

theorem less_trans {left middle right : ObjectMember} (h : left.less middle = true)
    (h' : middle.less right = true) : left.less right = true := by
  rw [less_eq, beq_iff_eq] at h h' ⊢
  exact Std.TransCmp.lt_trans h h'

theorem Entered.less_total (hl : Entered left) (hr : Entered right) :
    left.less right = true ∨ left.key = right.key ∨ right.less left = true := by
  rw [hl.less_iff hr, hr.less_iff hl, ← hl.order_eq_iff hr]
  exact lt_trichotomous _ _

/-- The members of an object with different UTF-8 names are written once each,
in strict order of the UTF-16 code units of their names, whatever order they
are stored in.  `utf16_units` is the UTF-16 encoding form and injective on
UTF-8, so the comparison is a strict total order that never compares the names
themselves. -/
theorem serialize_object_ordered :
    (∀ ms : List (Bytes × Json), (∀ m ∈ ms, Utf8.WellFormed m.1) → (ms.map Prod.fst).Nodup →
      (∃ ordered, ordered.Perm ms ∧ InOrder ordered ∧
        serialize (.object ms) = writeMembers ordered) ∧
      ∀ ms', ms'.Perm ms → serialize (.object ms') = serialize (.object ms)) ∧
    (∀ cs, utf16Units (Utf8.encodeAll cs) = .ok (Utf16.encodeAll cs)) ∧
    (∀ name name', Utf8.WellFormed name → Utf8.WellFormed name' →
      utf16Units name = utf16Units name' → name = name') ∧
    (∀ left right, Entered left → Entered right →
      (left.order = right.order ↔ left.key = right.key) ∧
      (left.less right = true ↔ left.order < right.order) ∧
      (left.less right = true ∨ left.key = right.key ∨ right.less left = true)) ∧
    (∀ member : ObjectMember, member.less member = false) ∧
    ∀ left middle right : ObjectMember, left.less middle = true → middle.less right = true →
      left.less right = true := by
  refine ⟨?_, utf16Units_eq, ?_, ?_, less_irrefl, ?_⟩
  · intro ms hutf8 hnodup
    exact ⟨exists_inOrder hutf8 hnodup, fun ms' hperm => serialize_object_perm hutf8 hnodup hperm⟩
  · intro name name' h h' heq
    exact utf16Units_injective h h' heq
  · intro left right hl hr
    exact ⟨hl.order_eq_iff hr, hl.less_iff hr, hl.less_total hr⟩
  · intro left middle right h h'
    exact less_trans h h'

example : canonicalJson (.object [(ascii "b", .array [.null]), (ascii "a", .uint64 1)]) =
    .ok (ascii "\x7b\"a\":1,\"b\":[null]\x7d") := by decide +kernel

end MissionWeave.Canonical
