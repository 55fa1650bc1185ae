import Mathlib.Data.List.Basic
import Mathlib.Data.List.Count

/-!
# Terminated fields

A list of fields written one behind the other, each followed by one terminator.
The terminator is not escaped, so the text of a list determines it only as far
as the fields are free of the terminator.

* `free_of_joined_eq`: of two lists of one length with the same text, both are
  free of the terminator when one is.
* `joined_injective`: they are then the same list.
-/

namespace Terminated

variable {α : Type} {terminator : α}

/-- The fields, each with the terminator behind it. -/
def joined (terminator : α) (fields : List (List α)) : List α :=
  fields.flatMap (· ++ [terminator])

@[simp] theorem joined_nil : joined terminator [] = [] := rfl

@[simp] theorem joined_cons (field : List α) (fields : List (List α)) :
    joined terminator (field :: fields) = field ++ terminator :: joined terminator fields := by
  simp [joined]

/-- No field has a terminator of its own. -/
def Free (terminator : α) (fields : List (List α)) : Prop := ∀ field ∈ fields, terminator ∉ field

theorem free_cons {field : List α} {fields : List (List α)} :
    Free terminator (field :: fields) ↔ terminator ∉ field ∧ Free terminator fields :=
  List.forall_mem_cons

/-- The first terminator ends the first field. -/
theorem first_field {field field' rest rest' : List α} (hfree : terminator ∉ field)
    (hfree' : terminator ∉ field')
    (h : field ++ terminator :: rest = field' ++ terminator :: rest') :
    field = field' ∧ rest = rest' := by
  induction field generalizing field' with
  | nil =>
    cases field' with
    | nil =>
      rw [List.nil_append, List.nil_append, List.cons.injEq] at h
      exact ⟨rfl, h.2⟩
    | cons a field' =>
      rw [List.nil_append, List.cons_append, List.cons.injEq] at h
      exact absurd (List.mem_cons.mpr (.inl h.1)) hfree'
  | cons a field ih =>
    cases field' with
    | nil =>
      rw [List.nil_append, List.cons_append, List.cons.injEq] at h
      exact absurd (List.mem_cons.mpr (.inl h.1.symm)) hfree
    | cons a' field' =>
      rw [List.cons_append, List.cons_append, List.cons.injEq] at h
      obtain ⟨hfield, hrest⟩ := ih (fun hmem => hfree (List.mem_cons_of_mem _ hmem))
        (fun hmem => hfree' (List.mem_cons_of_mem _ hmem)) h.2
      exact ⟨by rw [h.1, hfield], hrest⟩

variable [DecidableEq α]

/-- The text has a terminator for each field, besides those in the fields. -/
theorem length_le_count (fields : List (List α)) :
    fields.length ≤ (joined terminator fields).count terminator := by
  induction fields with
  | nil => exact Nat.zero_le _
  | cons field fields ih =>
    rw [joined_cons, List.count_append, List.count_cons_self, List.length_cons]
    omega

theorem free_iff_count {fields : List (List α)} :
    Free terminator fields ↔ (joined terminator fields).count terminator = fields.length := by
  induction fields with
  | nil => simp [Free]
  | cons field fields ih =>
    have hle : fields.length ≤ (joined terminator fields).count terminator :=
      length_le_count fields
    rw [free_cons, ih, joined_cons, List.count_append, List.count_cons_self, List.length_cons,
      ← List.count_eq_zero]
    omega

variable {fields fields' : List (List α)}

theorem free_of_joined_eq (hlength : fields.length = fields'.length)
    (h : joined terminator fields = joined terminator fields') (hfree : Free terminator fields) :
    Free terminator fields' := by
  rw [free_iff_count] at hfree ⊢
  rw [← h, hfree, hlength]

/-- The text of fields without terminators determines them. -/
theorem joined_injective (hlength : fields.length = fields'.length)
    (h : joined terminator fields = joined terminator fields') (hfree : Free terminator fields) :
    fields = fields' := by
  have hfree' := free_of_joined_eq hlength h hfree
  induction fields generalizing fields' with
  | nil => exact (List.eq_nil_of_length_eq_zero hlength.symm).symm
  | cons field fields ih =>
    cases fields' with
    | nil => cases hlength
    | cons field' fields' =>
      rw [free_cons] at hfree hfree'
      rw [joined_cons, joined_cons] at h
      obtain ⟨hfield, hrest⟩ := first_field hfree.1 hfree'.1 h
      rw [hfield, ih (Nat.succ.inj hlength) hrest hfree.2 hfree'.2]

end Terminated
