import MissionWeave.Json.Value
import Mathlib.Data.List.Nodup
import Mathlib.Data.List.Sort

/-!
# Sorted members

`insertMember` and `ofMembers` keep the members of an object in the order of
their names.

* `sorted_ofMembers`: an object built from members is sorted.
* `perm_ofMembers`: from distinct names it holds exactly the given members.
* `nesting_ofMembers_le`: its nesting is a bound on that of the values.
-/

namespace MissionWeave.Json

variable {α : Type}

theorem SortedMembers.nodup {ms : List (Bytes × α)} (h : SortedMembers ms) :
    (ms.map Prod.fst).Nodup := by
  rw [List.Nodup, List.pairwise_map]
  refine h.imp fun {m n} hlt heq => ?_
  have hself : compare n.1 n.1 = .eq := Std.ReflCmp.compare_self
  rw [heq, hself] at hlt
  cases hlt

theorem SortedMembers.of_names {ms : List (Bytes × α)}
    (h : (ms.map Prod.fst).Pairwise fun m n => compare m n = .lt) : SortedMembers ms :=
  List.pairwise_map.mp h

theorem SortedMembers.tail {m : Bytes × α} {ms : List (Bytes × α)}
    (h : SortedMembers (m :: ms)) : SortedMembers ms := (List.pairwise_cons.mp h).2

/-! ## `insertMember` -/

theorem mem_insertMember {name : Bytes} {value : Json} {ms : List (Bytes × Json)}
    {m : Bytes × Json} (h : m ∈ insertMember name value ms) : m = (name, value) ∨ m ∈ ms := by
  induction ms with
  | nil => exact Or.inl (List.mem_singleton.mp h)
  | cons n ns ih =>
    rw [insertMember] at h
    split at h
    · exact List.mem_cons.mp h
    · rcases List.mem_cons.mp h with h | h
      · exact Or.inl h
      · exact Or.inr (List.mem_cons_of_mem _ h)
    · rcases List.mem_cons.mp h with h | h
      · exact Or.inr (h ▸ List.mem_cons_self)
      · exact (ih h).imp_right (List.mem_cons_of_mem _)

theorem sorted_insertMember {name : Bytes} {value : Json} {ms : List (Bytes × Json)}
    (h : SortedMembers ms) : SortedMembers (insertMember name value ms) := by
  induction ms with
  | nil => exact List.pairwise_singleton _ _
  | cons n ns ih =>
    obtain ⟨hhead, htail⟩ := List.pairwise_cons.mp h
    rw [insertMember]
    split
    · rename_i hlt
      refine List.pairwise_cons.mpr ⟨fun m hm => ?_, h⟩
      rcases List.mem_cons.mp hm with rfl | hm
      · exact hlt
      · exact Std.TransCmp.lt_trans hlt (hhead m hm)
    · rename_i heq
      rw [Std.LawfulEqCmp.eq_of_compare heq]
      exact List.pairwise_cons.mpr ⟨hhead, htail⟩
    · rename_i hgt
      refine List.pairwise_cons.mpr ⟨fun m hm => ?_, ih htail⟩
      rcases mem_insertMember hm with rfl | hm
      · exact Std.OrientedCmp.lt_of_gt hgt
      · exact hhead m hm

theorem perm_insertMember {name : Bytes} {value : Json} {ms : List (Bytes × Json)}
    (h : name ∉ ms.map Prod.fst) : (insertMember name value ms).Perm ((name, value) :: ms) := by
  induction ms with
  | nil => exact List.Perm.refl _
  | cons n ns ih =>
    rw [List.map_cons, List.mem_cons, not_or] at h
    rw [insertMember]
    split
    · exact List.Perm.refl _
    · rename_i heq
      exact absurd (Std.LawfulEqCmp.eq_of_compare heq) h.1
    · exact ((ih h.2).cons n).trans (List.Perm.swap _ _ _)

/-! ## `ofMembers` -/

theorem members_ofMembers (ms : List (Bytes × Json)) :
    (ofMembers ms).members = ms.foldr (fun m sorted => insertMember m.1 m.2 sorted) [] := rfl

theorem sorted_ofMembers (ms : List (Bytes × Json)) : SortedMembers (ofMembers ms).members := by
  rw [members_ofMembers]
  induction ms with
  | nil => exact List.Pairwise.nil
  | cons m ms ih => exact sorted_insertMember ih

theorem mem_ofMembers {ms : List (Bytes × Json)} {m : Bytes × Json}
    (h : m ∈ (ofMembers ms).members) : m ∈ ms := by
  rw [members_ofMembers] at h
  induction ms with
  | nil => exact h
  | cons n ns ih =>
    rcases mem_insertMember h with rfl | h
    · exact List.mem_cons_self
    · exact List.mem_cons_of_mem _ (ih h)

theorem perm_ofMembers {ms : List (Bytes × Json)} (h : (ms.map Prod.fst).Nodup) :
    (ofMembers ms).members.Perm ms := by
  rw [members_ofMembers]
  induction ms with
  | nil => exact List.Perm.refl _
  | cons m ms ih =>
    obtain ⟨hnot, hnodup⟩ := List.nodup_cons.mp h
    have hperm := ih hnodup
    refine (perm_insertMember fun hmem => hnot ?_).trans (hperm.cons m)
    exact (hperm.map Prod.fst).mem_iff.mp hmem

theorem ofMembers_eq (ms : List (Bytes × Json)) :
    ofMembers ms = .object (ofMembers ms).members := rfl

/-- Two sorted lists with the same members are the same list. -/
theorem SortedMembers.eq_of_perm {ms ns : List (Bytes × α)} (hms : SortedMembers ms)
    (hns : SortedMembers ns) (h : ms.Perm ns) : ms = ns := by
  refine List.Perm.eq_of_pairwise ?_ hms hns h
  intro m n _ _ hmn hnm
  have hgt : compare m.1 n.1 = .gt := Std.OrientedCmp.gt_of_lt hnm
  rw [hgt] at hmn
  cases hmn

/-! ## Nesting -/

theorem nestingElements_le {xs : List Json} {n : Nat} :
    nestingElements xs ≤ n ↔ ∀ x ∈ xs, x.nesting + 1 ≤ n := by
  induction xs with
  | nil => simp [nestingElements]
  | cons x xs ih => rw [nestingElements, max_le_iff, ih, List.forall_mem_cons]

theorem nestingMembers_le {ms : List (Bytes × Json)} {n : Nat} :
    nestingMembers ms ≤ n ↔ ∀ m ∈ ms, m.2.nesting + 1 ≤ n := by
  induction ms with
  | nil => simp [nestingMembers]
  | cons m ms ih => rw [nestingMembers, max_le_iff, ih, List.forall_mem_cons]

theorem nesting_ofMembers_le {ms : List (Bytes × Json)} {n : Nat}
    (h : ∀ m ∈ ms, m.2.nesting + 1 ≤ n) : (ofMembers ms).nesting ≤ n := by
  rw [ofMembers_eq, nesting, nestingMembers_le]
  exact fun m hm => h m (mem_ofMembers hm)

theorem le_nesting_ofMembers {ms : List (Bytes × Json)} (hnodup : (ms.map Prod.fst).Nodup)
    {m : Bytes × Json} (hm : m ∈ ms) : m.2.nesting + 1 ≤ (ofMembers ms).nesting := by
  have hle : (ofMembers ms).nesting ≤ (ofMembers ms).nesting := le_refl _
  rw [ofMembers_eq ms, nesting, nestingMembers_le] at hle
  exact hle m ((perm_ofMembers hnodup).mem_iff.mpr hm)

end MissionWeave.Json
