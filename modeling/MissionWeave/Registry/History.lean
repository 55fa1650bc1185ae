import MissionWeave.Registry.Resolve
import MissionWeave.CodeLib.AppendOnly
import Mathlib.Data.List.Chain

/-!
# Folding a validity history

`fold_history` visits the statuses of a key in the order of their sequence
numbers and keeps the boundaries in force.

* `FoldGood` is what a list of statuses satisfies that the loop accepts.
* `foldStatus_step` and `foldHistory_eq_ok`: one step and the whole loop.
* `InOrder` is the same condition on the recorded statuses as a relation, and
  `foldGood_iff_inOrder` connects the two.
-/

namespace MissionWeave.Registry

open AppendOnly

/-- The place of a boundary in the order of time. -/
noncomputable def ParsedBoundary.key (limit : ParsedBoundary) : ℤ ×ₗ Lex (ℕ → ℕ) :=
  limit.instant.key

/-! ## One boundary -/

/-- A boundary is applied unless it is later than the one in force. -/
theorem applyBoundary_eq_ok {name : String} {candidate effective result : Option ParsedBoundary} :
    applyBoundary name candidate effective = .ok result ↔
      (∀ c ∈ effective, ∀ b ∈ candidate, b.key ≤ c.key) ∧
        result = earlier ParsedBoundary.key effective candidate := by
  cases candidate with
  | none => simp [applyBoundary, earlier, eq_comm]
  | some b =>
    cases effective with
    | none => simp [applyBoundary, earlier, eq_comm]
    | some c =>
      rw [applyBoundary, earlier]
      simp only [Option.mem_def, Option.some.injEq, forall_eq']
      rcases ExactInstant.order_spec b.instant c.instant with ⟨h, hkey⟩ | ⟨h, hkey⟩ | ⟨h, hkey⟩
      · have hlt : b.key < c.key := hkey
        simp [h, hlt, hlt.le, eq_comm]
      · have heq : b.key = c.key := hkey
        simp [h, heq, eq_comm]
      · have hlt : c.key < b.key := hkey
        simp [h, hlt]

/-! ## The loop -/

abbrev Entry := Nat × ValidityStatus

/-- What the statuses satisfy that the loop has accepted so far. -/
structure FoldGood (entries : List Entry) : Prop where
  contiguous : entries.map Prod.fst = List.range' 1 entries.length
  ordered : (entries.map fun e => e.2.recordedAt.key).IsChain (· ≤ ·)
  validUntil : NonIncreasing ParsedBoundary.key (fun e => e.2.validUntil) entries
  revokedAt : NonIncreasing ParsedBoundary.key (fun e => e.2.revokedAt) entries

/-- The state of the loop after some statuses. -/
structure FoldInv (entries : List Entry) (state : FoldState) : Prop where
  expected : state.expectedSequence = entries.length + 1
  previous : state.previousRecordedAt = entries.getLast?.map fun e => e.2.recordedAt
  validUntil : Earliest ParsedBoundary.key (fun e => e.2.validUntil) (· ∈ entries)
    state.effectiveValidUntil
  revokedAt : Earliest ParsedBoundary.key (fun e => e.2.revokedAt) (· ∈ entries)
    state.effectiveRevokedAt

/-- What the loop compares a status with. -/
structure Follows (state : FoldState) (entry : Entry) : Prop where
  sequence : entry.1 = state.expectedSequence
  recordedAt : ∀ p ∈ state.previousRecordedAt, p.key ≤ entry.2.recordedAt.key
  validUntil : ∀ c ∈ state.effectiveValidUntil, ∀ b ∈ entry.2.validUntil, b.key ≤ c.key
  revokedAt : ∀ c ∈ state.effectiveRevokedAt, ∀ b ∈ entry.2.revokedAt, b.key ≤ c.key

/-- The state after a status. -/
def FoldState.Next (state : FoldState) (status : ValidityStatus) (s' : FoldState) : Prop :=
  s'.expectedSequence = state.expectedSequence + 1 ∧
    s'.previousRecordedAt = some status.recordedAt ∧
    s'.effectiveValidUntil = earlier ParsedBoundary.key state.effectiveValidUntil
      status.validUntil ∧
    s'.effectiveRevokedAt = earlier ParsedBoundary.key state.effectiveRevokedAt status.revokedAt

theorem foldStatus_eq_ok {state s' : FoldState} {entry : Entry} :
    foldStatus state entry = .ok s' ↔ Follows state entry ∧ state.Next entry.2 s' := by
  rw [foldStatus]
  have hrecorded : (state.previousRecordedAt.map entry.2.recordedAt.lt).getD false = true ↔
      ¬∀ p ∈ state.previousRecordedAt, p.key ≤ entry.2.recordedAt.key := by
    cases state.previousRecordedAt with
    | none => simp
    | some p => simp [ExactInstant.lt_iff]
  constructor
  · intro h
    split_ifs at h with hsequence hordered
    obtain ⟨validUntil, hvalidUntil, h⟩ := Except.bind_eq_ok.mp h
    obtain ⟨revokedAt, hrevokedAt, h⟩ := Except.bind_eq_ok.mp h
    rw [applyBoundary_eq_ok] at hvalidUntil hrevokedAt
    rw [hrecorded, not_not] at hordered
    rw [← Except.ok.inj h]
    exact ⟨⟨not_not.mp hsequence, hordered, hvalidUntil.1, hrevokedAt.1⟩, rfl, rfl, hvalidUntil.2,
      hrevokedAt.2⟩
  · rintro ⟨⟨hsequence, hordered, hvalidUntil, hrevokedAt⟩, hexpected, hprevious, hvu, hra⟩
    rw [if_neg (not_not.mpr hsequence), if_neg (fun h => hrecorded.mp h hordered),
      applyBoundary_eq_ok.mpr ⟨hvalidUntil, rfl⟩, Except.ok_bind,
      applyBoundary_eq_ok.mpr ⟨hrevokedAt, rfl⟩, Except.ok_bind, ← hvu, ← hra, ← hexpected,
      ← hprevious]

/-- A status keeps the list good exactly when it follows the state. -/
theorem foldGood_concat {entries : List Entry} {state : FoldState} (hinv : FoldInv entries state)
    (hgood : FoldGood entries) (entry : Entry) :
    FoldGood (entries ++ [entry]) ↔ Follows state entry := by
  have hchain : ((entries ++ [entry]).map fun e => e.2.recordedAt.key).IsChain (· ≤ ·) ↔
      ∀ p ∈ state.previousRecordedAt, p.key ≤ entry.2.recordedAt.key := by
    rw [List.map_append, List.map_singleton, List.isChain_append, hinv.previous,
      List.getLast?_map]
    simp only [hgood.ordered, List.isChain_singleton, true_and, Option.mem_def,
      Option.map_eq_some_iff, List.head?_cons, Option.some.injEq, forall_eq',
      forall_exists_index, and_imp, forall_apply_eq_imp_iff₂]
  have hcontiguous : (entries ++ [entry]).map Prod.fst =
      List.range' 1 (entries ++ [entry]).length ↔ entry.1 = state.expectedSequence := by
    rw [List.map_append, List.length_append, List.length_singleton, List.range'_1_concat,
      hgood.contiguous, List.map_singleton, List.append_right_inj, List.singleton_inj,
      hinv.expected, Nat.add_comm]
  constructor
  · rintro ⟨hsequence, hordered, hvalidUntil, hrevokedAt⟩
    exact ⟨hcontiguous.mp hsequence, hchain.mp hordered,
      (nonIncreasing_concat hinv.validUntil hgood.validUntil entry).mp hvalidUntil,
      (nonIncreasing_concat hinv.revokedAt hgood.revokedAt entry).mp hrevokedAt⟩
  · rintro ⟨hsequence, hordered, hvalidUntil, hrevokedAt⟩
    exact ⟨hcontiguous.mpr hsequence, hchain.mpr hordered,
      (nonIncreasing_concat hinv.validUntil hgood.validUntil entry).mpr hvalidUntil,
      (nonIncreasing_concat hinv.revokedAt hgood.revokedAt entry).mpr hrevokedAt⟩

/-- A list without its last status. -/
theorem FoldGood.shorter {entries : List Entry} {entry : Entry}
    (h : FoldGood (entries ++ [entry])) : FoldGood entries := by
  obtain ⟨hcontiguous, hordered, hvalidUntil, hrevokedAt⟩ := h
  rw [List.map_append] at hcontiguous hordered
  refine ⟨?_, (List.isChain_append.mp hordered).1, (List.pairwise_append.mp hvalidUntil).1,
    (List.pairwise_append.mp hrevokedAt).1⟩
  rw [List.length_append, List.length_singleton, List.range'_1_concat] at hcontiguous
  exact (List.append_inj hcontiguous (by rw [List.length_map, List.length_range'])).1

/-- The loop accepts the statuses that keep the list good. -/
theorem foldStatus_step : Except.LoopStep foldStatus FoldInv FoldGood where
  shorter _ _ h := h.shorter
  accepts entries state entry hinv hgood :=
    ⟨⟨_, _, _, _⟩, foldStatus_eq_ok.mpr
      ⟨(foldGood_concat hinv hgood.shorter entry).mp hgood, rfl, rfl, rfl, rfl⟩⟩
  keeps entries state entry s' hinv hgood h := by
    obtain ⟨hfollows, hexpected, hprevious, hvalidUntil, hrevokedAt⟩ := foldStatus_eq_ok.mp h
    refine ⟨(foldGood_concat hinv hgood entry).mpr hfollows, ?_, ?_, ?_, ?_⟩
    · rw [hexpected, hinv.expected, List.length_append, List.length_singleton]
    · rw [hprevious, List.getLast?_concat]
      rfl
    · rw [hvalidUntil]
      exact hinv.validUntil.concat entry
    · rw [hrevokedAt]
      exact hinv.revokedAt.concat entry

theorem foldGood_nil : FoldGood [] :=
  ⟨rfl, List.isChain_nil, List.Pairwise.nil, List.Pairwise.nil⟩

/-- The state before the first status. -/
theorem foldInv_nil : FoldInv [] ⟨1, none, none, none⟩ :=
  ⟨rfl, rfl, earliest_nil, earliest_nil⟩

/-- The histories that are folded, and the boundaries in force. -/
theorem foldHistory_eq_ok {binding folded : NormalizedBinding}
    (hvalidUntil : binding.effectiveValidUntil = none)
    (hrevokedAt : binding.effectiveRevokedAt = none) (h : foldHistory binding = .ok folded) :
    FoldGood binding.history.toList ∧ ∃ validUntil revokedAt,
      folded = { binding with
        effectiveValidUntil := validUntil
        effectiveRevokedAt := revokedAt } ∧
      Earliest ParsedBoundary.key (fun e => e.2.validUntil) (· ∈ binding.history.toList)
        validUntil ∧
      Earliest ParsedBoundary.key (fun e => e.2.revokedAt) (· ∈ binding.history.toList)
        revokedAt := by
  obtain ⟨state, hrun, h⟩ := Except.bind_eq_ok.mp h
  rw [hvalidUntil, hrevokedAt] at hrun
  obtain ⟨hgood, hinv⟩ := foldStatus_step.run foldInv_nil foldGood_nil hrun
  rw [List.nil_append] at hgood hinv
  exact ⟨hgood, _, _, (Except.ok.inj h).symm, hinv.validUntil, hinv.revokedAt⟩

theorem exists_foldHistory {binding : NormalizedBinding}
    (hvalidUntil : binding.effectiveValidUntil = none)
    (hrevokedAt : binding.effectiveRevokedAt = none) (h : FoldGood binding.history.toList) :
    ∃ folded, foldHistory binding = .ok folded := by
  obtain ⟨state, hrun⟩ : ∃ s', binding.history.toList.foldlM foldStatus ⟨1, none, none, none⟩ =
      .ok s' :=
    foldStatus_step.exists_run foldInv_nil (by rwa [List.nil_append])
  refine ⟨{ binding with
    effectiveValidUntil := state.effectiveValidUntil
    effectiveRevokedAt := state.effectiveRevokedAt }, ?_⟩
  rw [foldHistory, hvalidUntil, hrevokedAt, hrun, Except.ok_bind]

/-! ## Statuses that agree -/

/-- What two statuses are compared by. -/
noncomputable def ValidityStatus.key (status : ValidityStatus) :=
  (status.recordedAt.key, status.validUntil.map ParsedBoundary.key,
    status.revokedAt.map ParsedBoundary.key)

theorem equalBoundaries_iff {left right : Option ParsedBoundary} :
    equalBoundaries left right = true ↔
      left.map ParsedBoundary.key = right.map ParsedBoundary.key := by
  cases left <;> cases right <;>
    simp [equalBoundaries, ParsedBoundary.equals, ExactInstant.equals_iff, ParsedBoundary.key]

theorem equals_iff {left right : ValidityStatus} :
    left.equals right = true ↔ left.key = right.key := by
  simp only [ValidityStatus.equals, Bool.and_eq_true, equalBoundaries_iff,
    ExactInstant.equals_iff, ValidityStatus.key, Prod.mk.injEq, and_assoc]

theorem equivalence_equals :
    Equivalence fun left right : ValidityStatus => left.equals right = true := by
  simp only [equals_iff]
  exact ⟨fun _ => rfl, Eq.symm, Eq.trans⟩

/-- A status that agrees with one that sets a boundary sets the same one. -/
theorem exists_boundary {left right : Option ParsedBoundary}
    (h : left.map ParsedBoundary.key = right.map ParsedBoundary.key) {b : ParsedBoundary}
    (hb : b ∈ right) : ∃ a ∈ left, a.key = b.key := by
  rw [Option.mem_def] at hb
  rw [hb, Option.map_some, Option.map_eq_some_iff] at h
  exact h

/-! ## The recorded statuses -/

/-- The statuses recorded for a key, in whatever order they are written: their
sequence numbers are `1, …, count`, their recording times do not decrease, and
no boundary is later than that of a status before it. -/
structure InOrder (recorded : List Entry) : Prop where
  agree : ∀ e ∈ recorded, ∀ e' ∈ recorded, e.1 = e'.1 → e.2.equals e'.2 = true
  contiguous : ∃ count, ∀ n, (∃ status, (n, status) ∈ recorded) ↔ 1 ≤ n ∧ n ≤ count
  recordedAt : ∀ e ∈ recorded, ∀ e' ∈ recorded, e.1 < e'.1 →
    e.2.recordedAt.key ≤ e'.2.recordedAt.key
  validUntil : ∀ e ∈ recorded, ∀ e' ∈ recorded, e.1 < e'.1 →
    ∀ a ∈ e.2.validUntil, ∀ b ∈ e'.2.validUntil, b.key ≤ a.key
  revokedAt : ∀ e ∈ recorded, ∀ e' ∈ recorded, e.1 < e'.1 →
    ∀ a ∈ e.2.revokedAt, ∀ b ∈ e'.2.revokedAt, b.key ≤ a.key

section

variable {R : Entry → Entry → Prop} {entries : List Entry}

/-- In a list sorted by sequence number, a pairwise condition is one on the
sequence numbers. -/
theorem pairwise_iff_of_sorted (hsorted : entries.Pairwise fun e e' => e.1 < e'.1) :
    entries.Pairwise R ↔ ∀ e ∈ entries, ∀ e' ∈ entries, e.1 < e'.1 → R e e' := by
  constructor
  · intro h e he e' he' hlt
    obtain ⟨i, hi, rfl⟩ := List.mem_iff_getElem.mp he
    obtain ⟨j, hj, rfl⟩ := List.mem_iff_getElem.mp he'
    rcases Nat.lt_trichotomy i j with hij | rfl | hij
    · exact List.pairwise_iff_getElem.mp h i j hi hj hij
    · exact absurd hlt (Nat.lt_irrefl _)
    · exact absurd hlt (Nat.lt_asymm (List.pairwise_iff_getElem.mp hsorted j i hj hi hij))
  · intro h
    exact hsorted.imp_of_mem fun {e e'} he he' hlt => h e he e' he' hlt

end

section

variable {history : History} {recorded : List Entry}

theorem sorted_toList (history : History) : history.toList.Pairwise fun e e' => e.1 < e'.1 :=
  Std.TreeMap.ordered_keys_toList.imp fun h => compare_lt_iff_lt.mp h

theorem mem_toList (hholds : MapLoop.Holds history recorded) {n : Nat} {status : ValidityStatus} :
    (n, status) ∈ history.toList ↔ MapLoop.first recorded n = some status := by
  rw [Std.TreeMap.mem_toList_iff_getElem?_eq_some, hholds n]

theorem mem_recorded (hholds : MapLoop.Holds history recorded) {e : Entry}
    (h : e ∈ history.toList) : e ∈ recorded :=
  MapLoop.mem_of_first ((mem_toList hholds).mp h)

/-- The stored status with a sequence number agrees with every recorded one. -/
theorem exists_stored (hholds : MapLoop.Holds history recorded)
    (hagree : MapLoop.Agree ValidityStatus.equals recorded) {e : Entry} (h : e ∈ recorded) :
    ∃ status, (e.1, status) ∈ history.toList ∧ status.key = e.2.key := by
  obtain ⟨status, hstatus⟩ := MapLoop.exists_first h
  exact ⟨status, (mem_toList hholds).mpr hstatus,
    equals_iff.mp (hagree _ (MapLoop.mem_of_first hstatus) e h rfl)⟩

/-- A condition on the order of the stored statuses is one on the recorded
ones, if it looks at no more than what statuses are compared by. -/
theorem stored_iff_recorded (hholds : MapLoop.Holds history recorded)
    (hagree : MapLoop.Agree ValidityStatus.equals recorded)
    {R : ValidityStatus → ValidityStatus → Prop}
    (hR : ∀ s s' t t' : ValidityStatus, s.key = s'.key → t.key = t'.key → R s t → R s' t') :
    (history.toList.Pairwise fun e e' => R e.2 e'.2) ↔
      ∀ e ∈ recorded, ∀ e' ∈ recorded, e.1 < e'.1 → R e.2 e'.2 := by
  rw [pairwise_iff_of_sorted (sorted_toList history)]
  constructor
  · intro h e he e' he' hlt
    obtain ⟨s, hs, hkey⟩ := exists_stored hholds hagree he
    obtain ⟨t, ht, hkey'⟩ := exists_stored hholds hagree he'
    exact hR _ _ _ _ hkey hkey' (h _ hs _ ht hlt)
  · intro h e he e' he' hlt
    exact h e (mem_recorded hholds he) e' (mem_recorded hholds he') hlt

theorem laterBoundary_congr {limit : ValidityStatus → Option ParsedBoundary}
    (hlimit : ∀ s t : ValidityStatus, s.key = t.key →
      (limit s).map ParsedBoundary.key = (limit t).map ParsedBoundary.key)
    (s s' t t' : ValidityStatus) (hs : s.key = s'.key) (ht : t.key = t'.key)
    (h : ∀ a ∈ limit s, ∀ b ∈ limit t, b.key ≤ a.key) :
    ∀ a ∈ limit s', ∀ b ∈ limit t', b.key ≤ a.key := by
  intro a ha b hb
  obtain ⟨a', ha', hkey⟩ := exists_boundary (hlimit s s' hs) ha
  obtain ⟨b', hb', hkey'⟩ := exists_boundary (hlimit t t' ht) hb
  rw [← hkey, ← hkey']
  exact h a' ha' b' hb'

theorem validUntil_key (s t : ValidityStatus) (h : s.key = t.key) :
    s.validUntil.map ParsedBoundary.key = t.validUntil.map ParsedBoundary.key :=
  congrArg (fun k => k.2.1) h

theorem revokedAt_key (s t : ValidityStatus) (h : s.key = t.key) :
    s.revokedAt.map ParsedBoundary.key = t.revokedAt.map ParsedBoundary.key :=
  congrArg (fun k => k.2.2) h

theorem contiguous_iff (hholds : MapLoop.Holds history recorded) :
    history.toList.map Prod.fst = List.range' 1 history.toList.length ↔
      ∃ count, ∀ n, (∃ status, (n, status) ∈ recorded) ↔ 1 ≤ n ∧ n ≤ count := by
  have hmem (n : Nat) : n ∈ history.toList.map Prod.fst ↔ ∃ status, (n, status) ∈ recorded := by
    rw [List.mem_map]
    constructor
    · rintro ⟨e, he, rfl⟩
      exact ⟨e.2, mem_recorded hholds he⟩
    · rintro ⟨status, hstatus⟩
      obtain ⟨stored, hstored⟩ := MapLoop.exists_first hstatus
      exact ⟨_, (mem_toList hholds).mpr hstored, rfl⟩
  constructor
  · intro h
    refine ⟨history.toList.length, fun n => ?_⟩
    rw [← hmem, h, List.mem_range'_1]
    omega
  · rintro ⟨count, hcount⟩
    have hsorted : (history.toList.map Prod.fst).Pairwise (· < ·) :=
      List.pairwise_map.mpr (sorted_toList history)
    have hperm : (history.toList.map Prod.fst).Perm (List.range' 1 count) := by
      rw [List.perm_ext_iff_of_nodup (hsorted.imp Nat.ne_of_lt) List.nodup_range']
      intro n
      rw [hmem, hcount, List.mem_range'_1]
      omega
    have heq : history.toList.map Prod.fst = List.range' 1 count :=
      hperm.eq_of_pairwise (fun m n _ _ hmn hnm => absurd hnm (Nat.lt_asymm hmn)) hsorted
        List.pairwise_lt_range'
    have hlength := congrArg List.length heq
    rw [List.length_map, List.length_range'] at hlength
    rw [heq, hlength]

/-- The loop accepts the stored statuses exactly when the recorded ones are in
order. -/
theorem foldGood_iff_inOrder (hholds : MapLoop.Holds history recorded)
    (hagree : MapLoop.Agree ValidityStatus.equals recorded) :
    FoldGood history.toList ↔ InOrder recorded := by
  have hrecordedAt : (history.toList.map fun e => e.2.recordedAt.key).IsChain (· ≤ ·) ↔
      ∀ e ∈ recorded, ∀ e' ∈ recorded, e.1 < e'.1 →
        e.2.recordedAt.key ≤ e'.2.recordedAt.key := by
    rw [List.isChain_iff_pairwise, List.pairwise_map]
    refine stored_iff_recorded (R := fun s t => s.recordedAt.key ≤ t.recordedAt.key) hholds hagree
      fun s s' t t' hs ht h => ?_
    have hs' : s.recordedAt.key = s'.recordedAt.key := congrArg (fun k => k.1) hs
    have ht' : t.recordedAt.key = t'.recordedAt.key := congrArg (fun k => k.1) ht
    rwa [← hs', ← ht']
  have hvalidUntil := stored_iff_recorded hholds hagree
    (laterBoundary_congr validUntil_key)
  have hrevokedAt := stored_iff_recorded hholds hagree
    (laterBoundary_congr revokedAt_key)
  constructor
  · rintro ⟨h1, h2, h3, h4⟩
    exact ⟨hagree, (contiguous_iff hholds).mp h1, hrecordedAt.mp h2, hvalidUntil.mp h3,
      hrevokedAt.mp h4⟩
  · rintro ⟨_, h1, h2, h3, h4⟩
    exact ⟨(contiguous_iff hholds).mpr h1, hrecordedAt.mpr h2, hvalidUntil.mpr h3,
      hrevokedAt.mpr h4⟩

/-- The boundary in force among the stored statuses is that among the recorded
ones. -/
theorem earliest_recorded (hholds : MapLoop.Holds history recorded)
    (hagree : MapLoop.Agree ValidityStatus.equals recorded)
    {limit : ValidityStatus → Option ParsedBoundary}
    (hlimit : ∀ s t : ValidityStatus, s.key = t.key →
      (limit s).map ParsedBoundary.key = (limit t).map ParsedBoundary.key)
    {inForce : Option ParsedBoundary}
    (h : Earliest ParsedBoundary.key (fun e : Entry => limit e.2) (· ∈ history.toList) inForce) :
    Earliest ParsedBoundary.key (fun e : Entry => limit e.2) (· ∈ recorded) inForce := by
  cases inForce with
  | none =>
    intro e he
    obtain ⟨status, hstatus, hkey⟩ := exists_stored hholds hagree he
    have hnone := hlimit _ _ hkey
    have hstored : limit status = none := h _ hstatus
    rw [hstored, Option.map_none] at hnone
    exact Option.map_eq_none_iff.mp hnone.symm
  | some c =>
    obtain ⟨⟨e, he, hc⟩, hleast⟩ := h
    refine ⟨⟨e, mem_recorded hholds he, hc⟩, fun e' he' b hb => ?_⟩
    obtain ⟨status, hstatus, hkey⟩ := exists_stored hholds hagree he'
    obtain ⟨b', hb', hkey'⟩ := exists_boundary (hlimit _ _ hkey) hb
    rw [← hkey']
    exact hleast _ hstatus b' hb'

end

end MissionWeave.Registry
