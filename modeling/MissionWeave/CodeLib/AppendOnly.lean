import Mathlib.Order.Lattice
import Mathlib.Data.List.Basic

/-!
# Limits in an append-only history

A history is a list of entries, each of which may set a limit.  The limit in
force is the earliest one set so far, and a history is accepted as long as no
entry sets a limit later than the one in force.  Limits are compared through a
key in a linear order.

* `NonIncreasing` is what an accepted history satisfies.
* `Earliest` is the limit in force.
* `nonIncreasing_concat`: comparing with the limit in force is enough.
* `Earliest.of_subset`: more entries never remove a limit or make it later.
-/

namespace AppendOnly

variable {β γ α : Type} [LinearOrder α] (key : γ → α) (limit : β → Option γ)

/-- No entry sets a limit later than that of an entry before it. -/
def NonIncreasing (history : List β) : Prop :=
  history.Pairwise fun x y => ∀ a ∈ limit x, ∀ b ∈ limit y, key b ≤ key a

/-- The limit in force: one that an entry sets, and no later than any other. -/
def Earliest (entries : β → Prop) : Option γ → Prop
  | none => ∀ x, entries x → limit x = none
  | some c => (∃ x, entries x ∧ limit x = some c) ∧
      ∀ x, entries x → ∀ b ∈ limit x, key c ≤ key b

/-- The earlier one of two limits, the first one of two equal ones. -/
def earlier (inForce candidate : Option γ) : Option γ :=
  match inForce, candidate with
  | inForce, none => inForce
  | none, some b => some b
  | some c, some b => if key b < key c then some b else some c

variable {key limit} {history : List β} {inForce : Option γ}

theorem earliest_nil : Earliest key limit (· ∈ ([] : List β)) none :=
  fun _ hx => absurd hx List.not_mem_nil

/-- An entry that sets no limit later than the one in force. -/
theorem nonIncreasing_concat (h : Earliest key limit (· ∈ history) inForce)
    (hhistory : NonIncreasing key limit history) (y : β) :
    NonIncreasing key limit (history ++ [y]) ↔
      ∀ c ∈ inForce, ∀ b ∈ limit y, key b ≤ key c := by
  rw [NonIncreasing, List.pairwise_append]
  constructor
  · rintro ⟨_, _, hcross⟩ c hc b hb
    rw [Option.mem_def] at hc
    subst hc
    obtain ⟨⟨x, hx, hxc⟩, _⟩ := h
    exact hcross x hx y List.mem_cons_self c hxc b hb
  · intro hlater
    refine ⟨hhistory, List.pairwise_singleton _ _, fun x hx z hz a ha b hb => ?_⟩
    rw [List.mem_singleton] at hz
    subst hz
    cases inForce with
    | none =>
      rw [h x hx] at ha
      cases ha
    | some c => exact (hlater c rfl b hb).trans (h.2 x hx a ha)

/-- The limit in force after a further entry. -/
theorem Earliest.concat (h : Earliest key limit (· ∈ history) inForce) (y : β) :
    Earliest key limit (· ∈ history ++ [y]) (earlier key inForce (limit y)) := by
  have hold (x : β) (hx : x ∈ history) : x ∈ history ++ [y] := List.mem_append_left _ hx
  have hnew : y ∈ history ++ [y] := List.mem_append_right _ List.mem_cons_self
  have hcases (x : β) (hx : x ∈ history ++ [y]) : x ∈ history ∨ x = y := by
    rwa [List.mem_append, List.mem_singleton] at hx
  cases inForce with
  | none =>
    cases hy : limit y with
    | none =>
      intro x hx
      rcases hcases x hx with hx | rfl
      · exact h x hx
      · exact hy
    | some b =>
      refine ⟨⟨y, hnew, hy⟩, fun x hx a ha => ?_⟩
      rcases hcases x hx with hx | rfl
      · rw [h x hx] at ha
        cases ha
      · rw [hy, Option.mem_some_iff] at ha
        rw [ha]
  | some c =>
    obtain ⟨⟨z, hz, hzc⟩, hleast⟩ := h
    cases hy : limit y with
    | none =>
      refine ⟨⟨z, hold z hz, hzc⟩, fun x hx a ha => ?_⟩
      rcases hcases x hx with hx | rfl
      · exact hleast x hx a ha
      · rw [hy] at ha
        cases ha
    | some b =>
      rw [earlier]
      by_cases hlt : key b < key c
      · rw [if_pos hlt]
        refine ⟨⟨y, hnew, hy⟩, fun x hx a ha => ?_⟩
        rcases hcases x hx with hx | rfl
        · exact hlt.le.trans (hleast x hx a ha)
        · rw [hy, Option.mem_some_iff] at ha
          rw [ha]
      · rw [if_neg hlt]
        refine ⟨⟨z, hold z hz, hzc⟩, fun x hx a ha => ?_⟩
        rcases hcases x hx with hx | rfl
        · exact hleast x hx a ha
        · rw [hy, Option.mem_some_iff] at ha
          rw [← ha]
          exact not_lt.mp hlt

/-- More entries never remove the limit in force or make it later. -/
theorem Earliest.of_subset {entries entries' : β → Prop} (hsub : ∀ x, entries x → entries' x)
    {c : γ} {inForce' : Option γ} (h : Earliest key limit entries (some c))
    (h' : Earliest key limit entries' inForce') : ∃ c', inForce' = some c' ∧ key c' ≤ key c := by
  obtain ⟨⟨x, hx, hxc⟩, _⟩ := h
  cases inForce' with
  | none =>
    rw [h' x (hsub x hx)] at hxc
    cases hxc
  | some c' => exact ⟨c', rfl, h'.2 x (hsub x hx) c hxc⟩

/-- What comes before the limit in force comes before every limit. -/
theorem Earliest.forall_lt_iff {entries : β → Prop} (h : Earliest key limit entries inForce)
    (time : α) :
    (∀ c ∈ inForce, time < key c) ↔ ∀ x, entries x → ∀ b ∈ limit x, time < key b := by
  cases inForce with
  | none =>
    refine ⟨fun _ x hx b hb => ?_, fun _ c hc => (nomatch hc)⟩
    rw [h x hx] at hb
    cases hb
  | some c =>
    obtain ⟨⟨x, hx, hxc⟩, hleast⟩ := h
    constructor
    · intro hlt y hy b hb
      exact (hlt c rfl).trans_le (hleast y hy b hb)
    · rintro hall _ ⟨⟩
      exact hall x hx c hxc

end AppendOnly
