import Std.Data.TreeMap
import Mathlib.Tactic.SplitIfs
import Mathlib.Logic.Basic
import MissionWeave.CodeLib.Except

/-!
# Loops over maps

A loop that enters key-value pairs into a map with `try_emplace` keeps the
first value of each key.  Where it also compares every later value with the
stored one, it accepts exactly the lists in which any two values of a key
agree, provided that agreement is an equivalence.

* `first` is what the map is to hold: the first value of a key.
* `Holds` ties a map to the list of the pairs entered so far.
* `agree_concat`: comparing with the first value is enough.

A second loop visits every entry of a map and replaces its value.

* `rewrite_spec`, `exists_rewrite`: what that loop makes of a map.
-/

namespace MapLoop

/-! ## Entering pairs -/

section

variable {κ β : Type} [DecidableEq κ]

/-- The first value of a key. -/
def first (entries : List (κ × β)) (key : κ) : Option β :=
  (entries.find? fun e => e.1 == key).map Prod.snd

/-- Any two values of one key agree. -/
def Agree (agrees : β → β → Bool) (entries : List (κ × β)) : Prop :=
  ∀ e ∈ entries, ∀ e' ∈ entries, e.1 = e'.1 → agrees e.2 e'.2 = true

@[simp] theorem first_nil (key : κ) : first ([] : List (κ × β)) key = none := rfl

theorem first_append (xs ys : List (κ × β)) (key : κ) :
    first (xs ++ ys) key = (first xs key).or (first ys key) := by
  rw [first, first, first, List.find?_append]
  cases xs.find? fun e => e.1 == key <;> rfl

theorem first_singleton (key : κ) (value : β) (k : κ) :
    first [(key, value)] k = if key = k then some value else none := by
  rw [first, List.find?_singleton]
  split_ifs with h h' h'
  · rfl
  · exact absurd (beq_iff_eq.mp h) h'
  · exact absurd (beq_iff_eq.mpr h') h
  · rfl

theorem mem_of_first {entries : List (κ × β)} {key : κ} {value : β}
    (h : first entries key = some value) : (key, value) ∈ entries := by
  obtain ⟨e, he, rfl⟩ := Option.map_eq_some_iff.mp h
  have hkey := List.find?_some he
  rw [← eq_of_beq hkey]
  exact List.mem_of_find?_eq_some he

theorem first_eq_none {entries : List (κ × β)} {key : κ} :
    first entries key = none ↔ ∀ e ∈ entries, e.1 ≠ key := by
  rw [first, Option.map_eq_none_iff, List.find?_eq_none]
  simp only [beq_iff_eq, ne_eq]

theorem exists_first {entries : List (κ × β)} {e : κ × β} (h : e ∈ entries) :
    ∃ value, first entries e.1 = some value := by
  cases hfirst : first entries e.1 with
  | none => exact absurd rfl (first_eq_none.mp hfirst e h)
  | some value => exact ⟨value, rfl⟩

section

variable {agrees : β → β → Bool}

/-- In a list that agrees, comparing a further value with the first one is
enough. -/
theorem agree_concat (hequiv : Equivalence fun x y => agrees x y = true)
    {entries : List (κ × β)} (h : Agree agrees entries) (key : κ) (value : β) :
    Agree agrees (entries ++ [(key, value)]) ↔
      (first entries key).all (agrees · value) = true := by
  constructor
  · intro hagree
    rw [Option.all_eq_true _ _]
    intro existing hexisting
    exact hagree _ (List.mem_append_left _ (mem_of_first hexisting)) (key, value)
      (List.mem_append_right _ List.mem_cons_self) rfl
  · intro hall
    have hnew (e : κ × β) (he : e ∈ entries) (hkey : e.1 = key) : agrees e.2 value = true := by
      obtain ⟨existing, hexisting⟩ := exists_first he
      have hvalue := (Option.all_eq_true _ _).mp hall existing (by rw [← hkey]; exact hexisting)
      exact hequiv.trans (h e he _ (mem_of_first hexisting) rfl) hvalue
    intro e he e' he' hkey
    rcases List.mem_append.mp he with he | he <;> rcases List.mem_append.mp he' with he' | he'
    · exact h e he e' he' hkey
    · rw [List.mem_singleton.mp he'] at hkey ⊢
      exact hnew e he hkey
    · rw [List.mem_singleton.mp he] at hkey ⊢
      exact hequiv.symm (hnew e' he' hkey.symm)
    · rw [List.mem_singleton.mp he, List.mem_singleton.mp he']
      exact hequiv.refl value

end

section

variable [Ord κ] [Std.TransOrd κ]

/-- The map holds the first value of each key. -/
def Holds (map : Std.TreeMap κ β) (entries : List (κ × β)) : Prop :=
  ∀ key : κ, map[key]? = first entries key

theorem holds_empty : Holds (∅ : Std.TreeMap κ β) [] := fun _ => Std.TreeMap.getElem?_emptyc

variable [Std.LawfulEqOrd κ]

/-- `try_emplace` enters a further pair. -/
theorem Holds.insertIfNew {map : Std.TreeMap κ β} {entries : List (κ × β)}
    (h : Holds map entries) (key : κ) (value : β) :
    Holds (map.insertIfNew key value) (entries ++ [(key, value)]) := by
  intro k
  rw [Std.TreeMap.getElem?_insertIfNew, first_append, first_singleton, ← h k]
  by_cases hk : key = k
  · subst hk
    rw [Std.compare_self, if_pos rfl]
    by_cases hmem : key ∈ map
    · rw [if_neg fun hnot => hnot.2 hmem]
      rw [Std.TreeMap.mem_iff_isSome_getElem?, Option.isSome_iff_exists] at hmem
      obtain ⟨existing, hexisting⟩ := hmem
      rw [hexisting, Option.some_or]
    · rw [if_pos ⟨rfl, hmem⟩, Std.TreeMap.getElem?_eq_none hmem, Option.none_or]
  · have hne : ¬(compare key k = .eq ∧ key ∉ map) := fun hnot =>
      hk (Std.LawfulEqOrd.eq_of_compare hnot.1)
    rw [if_neg hne, if_neg hk, Option.or_none]

/-- A pair with a new key is entered. -/
theorem Holds.insert {map : Std.TreeMap κ β} {entries : List (κ × β)} (h : Holds map entries)
    {key : κ} (hnew : key ∉ map) (value : β) :
    Holds (map.insert key value) (entries ++ [(key, value)]) := by
  have hinsert := h.insertIfNew key value
  intro k
  rw [← hinsert k, Std.TreeMap.getElem?_insert, Std.TreeMap.getElem?_insertIfNew]
  by_cases hk : compare key k = .eq
  · rw [if_pos hk, if_pos ⟨hk, hnew⟩]
  · rw [if_neg hk, if_neg fun hnot => hk hnot.1]

/-- What a loop of `try_emplace` has entered. -/
theorem holds_foldl (entries : List (κ × β)) :
    Holds (entries.foldl (fun map entry => map.insertIfNew entry.1 entry.2)
      (∅ : Std.TreeMap κ β)) entries := by
  induction entries using List.reverseRecOn with
  | nil => exact holds_empty
  | append_singleton entries entry ih =>
    rw [List.foldl_append]
    exact ih.insertIfNew entry.1 entry.2

end

end

/-! ## Replacing every value -/

section

variable {κ β ε : Type} [Ord κ] {f : β → Except ε β}

/-- The loop over the entries of a map that replaces each value. -/
def rewrite (f : β → Except ε β) (entries : List (κ × β)) (map : Std.TreeMap κ β) :
    Except ε (Std.TreeMap κ β) :=
  entries.foldlM (fun rewritten e => do
    let value ← f e.2
    .ok (rewritten.insert e.1 value)) map

/-- The loop returns if every value can be replaced. -/
theorem exists_rewrite {entries : List (κ × β)} {map : Std.TreeMap κ β}
    (h : ∀ e ∈ entries, ∃ value, f e.2 = .ok value) :
    ∃ map', rewrite f entries map = .ok map' := by
  induction entries generalizing map with
  | nil => exact ⟨map, rfl⟩
  | cons e entries ih =>
    obtain ⟨⟨value, hvalue⟩, h⟩ := List.forall_mem_cons.mp h
    obtain ⟨map', hmap'⟩ : ∃ map', rewrite f entries (map.insert e.1 value) = .ok map' := ih h
    exact ⟨map', by rw [rewrite, List.foldlM_cons, hvalue]; exact hmap'⟩

variable [Std.TransOrd κ] [Std.LawfulEqOrd κ]

theorem rewrite_other {entries : List (κ × β)} {map map' : Std.TreeMap κ β}
    (h : rewrite f entries map = .ok map') {key : κ} (hkey : ∀ e ∈ entries, e.1 ≠ key) :
    map'[key]? = map[key]? := by
  induction entries generalizing map with
  | nil => rw [Except.ok.inj h]
  | cons e entries ih =>
    rw [rewrite, List.foldlM_cons] at h
    obtain ⟨inserted, hstep, h⟩ := Except.bind_eq_ok.mp h
    obtain ⟨value, _, hstep⟩ := Except.bind_eq_ok.mp hstep
    obtain ⟨hne, hkey⟩ := List.forall_mem_cons.mp hkey
    rw [ih h hkey, ← Except.ok.inj hstep, Std.TreeMap.getElem?_insert,
      if_neg fun heq => hne (Std.LawfulEqOrd.eq_of_compare heq)]

theorem rewrite_entry {entries : List (κ × β)} {map map' : Std.TreeMap κ β}
    (h : rewrite f entries map = .ok map') (hdistinct : entries.Pairwise fun e e' => e.1 ≠ e'.1) :
    ∀ e ∈ entries, ∃ value, f e.2 = .ok value ∧ map'[e.1]? = some value := by
  induction entries generalizing map with
  | nil => exact fun e he => absurd he List.not_mem_nil
  | cons e entries ih =>
    rw [rewrite, List.foldlM_cons] at h
    obtain ⟨inserted, hstep, h⟩ := Except.bind_eq_ok.mp h
    obtain ⟨value, hvalue, hstep⟩ := Except.bind_eq_ok.mp hstep
    obtain ⟨hfirst, hrest⟩ := List.pairwise_cons.mp hdistinct
    refine List.forall_mem_cons.mpr ⟨⟨value, hvalue, ?_⟩, ih h hrest⟩
    rw [rewrite_other h fun e' he' => (hfirst e' he').symm, ← Except.ok.inj hstep,
      Std.TreeMap.getElem?_insert_self]

theorem distinct_toList (map : Std.TreeMap κ β) :
    map.toList.Pairwise fun e e' => e.1 ≠ e'.1 :=
  Std.TreeMap.distinct_keys_toList.imp fun hne heq => hne (by rw [heq, Std.compare_self])

/-- The loop replaces the value of every key of the map. -/
theorem rewrite_spec {map map' : Std.TreeMap κ β} (h : rewrite f map.toList map = .ok map') :
    (∀ (key : κ) (value : β), map[key]? = some value → ∃ value', f value = .ok value' ∧
      map'[key]? = some value') ∧
    ∀ key : κ, map[key]? = none → map'[key]? = none := by
  constructor
  · intro key value hvalue
    exact rewrite_entry h (distinct_toList map) (key, value)
      (Std.TreeMap.mem_toList_iff_getElem?_eq_some.mpr hvalue)
  · intro key hnone
    rw [rewrite_other h fun e he heq => ?_, hnone]
    rw [← heq, Std.TreeMap.mem_toList_iff_getElem?_eq_some.mp he] at hnone
    cases hnone

end

end MapLoop
