import Mathlib.Data.List.Forall2
import Mathlib.Data.List.Induction

/-!
# Inversion of `Except`

A computation in `Except` that returns did so through each of its steps.  The
proofs about a function with several ways to throw peel the steps off one by
one with `bind_eq_ok`.

`Avoids` is about a computation that must not end in some error, with what it
returns otherwise, and `ThrowsOnly` about one that ends in errors of some kind.

The rules for a loop, `List.foldlM`, separate what the elements are read as
from what is done with them, and derive what a run accepts and keeps from what
one step accepts and keeps.
-/

namespace Except

variable {ε α β : Type}

@[simp] theorem ok_bind (a : α) (f : α → Except ε β) : (Except.ok a >>= f) = f a := rfl

@[simp] theorem error_bind (e : ε) (f : α → Except ε β) :
    (Except.error e >>= f) = Except.error e := rfl

/-- A bind returns when both of its halves do. -/
theorem bind_eq_ok {x : Except ε α} {f : α → Except ε β} {b : β} :
    x >>= f = .ok b ↔ ∃ a, x = .ok a ∧ f a = .ok b := by
  cases x with
  | error e => simp [bind, Except.bind]
  | ok a => simp [bind, Except.bind]

/-- A bind throws when one of its halves does. -/
theorem bind_eq_error {x : Except ε α} {f : α → Except ε β} {e : ε} :
    x >>= f = .error e ↔ x = .error e ∨ ∃ a, x = .ok a ∧ f a = .error e := by
  cases x with
  | error e => simp [bind, Except.bind]
  | ok a => simp [bind, Except.bind]

/-- A function of the result is one of the result of the second half. -/
theorem map_bind {γ : Type} (x : Except ε α) (f : α → Except ε β) (g : β → γ) :
    (x >>= f).map g = x >>= fun a => (f a).map g := by
  cases x with
  | error e => rfl
  | ok a => rfl

/-- A computation that has a result returns it. -/
theorem exists_ok_of_isOk {x : Except ε α} (h : x.isOk = true) : ∃ a, x = .ok a := by
  cases x with
  | error e => cases h
  | ok a => exact ⟨a, rfl⟩

/-- A guard that throws is passed. -/
theorem ite_error_eq_ok {c : Prop} [Decidable c] {e : ε} {x : Except ε α} {a : α} :
    (if c then .error e else x) = .ok a ↔ ¬c ∧ x = .ok a := by
  by_cases h : c
  · simp [h]
  · simp [h]

/-! ## Errors that are avoided -/

/-- The computation does not throw `e`, and what it returns satisfies `q`. -/
def Avoids (e : ε) (x : Except ε α) (q : α → Prop) : Prop :=
  x ≠ .error e ∧ ∀ a, x = .ok a → q a

variable {e : ε} {x : Except ε α} {q : α → Prop}

theorem Avoids.ok {a : α} (h : q a) : Avoids e (.ok a) q := by
  refine ⟨by simp, fun b hb => ?_⟩
  rw [← Except.ok.inj hb]
  exact h

theorem Avoids.error {e' : ε} (h : e' ≠ e) : Avoids e (.error e') q := by
  refine ⟨fun heq => h (Except.error.inj heq), fun a ha => ?_⟩
  cases ha

theorem Avoids.bind {f : α → Except ε β} {p : β → Prop} (hx : Avoids e x q)
    (hf : ∀ a, q a → Avoids e (f a) p) : Avoids e (x >>= f) p := by
  constructor
  · intro h
    rcases bind_eq_error.mp h with h | ⟨a, ha, h⟩
    · exact hx.1 h
    · exact (hf a (hx.2 a ha)).1 h
  · intro b h
    obtain ⟨a, ha, h⟩ := bind_eq_ok.mp h
    exact (hf a (hx.2 a ha)).2 b h

theorem Avoids.ite {c : Prop} [Decidable c] {y : Except ε α} (hx : c → Avoids e x q)
    (hy : ¬c → Avoids e y q) : Avoids e (if c then x else y) q := by
  by_cases h : c
  · rw [if_pos h]
    exact hx h
  · rw [if_neg h]
    exact hy h

theorem Avoids.imp {p : α → Prop} (h : Avoids e x q) (hqp : ∀ a, q a → p a) : Avoids e x p :=
  ⟨h.1, fun a ha => hqp a (h.2 a ha)⟩

/-! ## Errors that are thrown -/

/-- Whatever is thrown satisfies `P`. -/
def ThrowsOnly (P : ε → Prop) (x : Except ε α) : Prop := ∀ e, x = .error e → P e

section

variable {P : ε → Prop}

theorem throwsOnly_ok (a : α) : ThrowsOnly P (.ok a) := by
  intro e he
  cases he

theorem throwsOnly_error (h : P e) : ThrowsOnly P (.error e : Except ε α) := by
  rintro _ ⟨⟩
  exact h

theorem ThrowsOnly.bind {f : α → Except ε β} (hx : ThrowsOnly P x)
    (hf : ∀ a, x = .ok a → ThrowsOnly P (f a)) : ThrowsOnly P (x >>= f) := by
  intro e he
  rcases bind_eq_error.mp he with h | ⟨a, ha, h⟩
  · exact hx e h
  · exact hf a ha e h

theorem ThrowsOnly.ite {c : Prop} [Decidable c] {y : Except ε α} (hx : ThrowsOnly P x)
    (hy : ThrowsOnly P y) : ThrowsOnly P (if c then x else y) := by
  by_cases h : c
  · rwa [if_pos h]
  · rwa [if_neg h]

end

/-! ## Loops -/

variable {σ γ : Type} {ε' : Type}

/-- Whatever was read was read from an element. -/
theorem exists_of_reads {Reads : α → β → Prop} {as : List α} {bs : List β}
    (h : List.Forall₂ Reads as bs) {b : β} (hb : b ∈ bs) : ∃ a ∈ as, Reads a b := by
  induction h with
  | nil => cases hb
  | @cons a b' as bs hread _ ih =>
    rcases List.mem_cons.mp hb with rfl | hb
    · exact ⟨a, List.mem_cons_self, hread⟩
    · obtain ⟨a', ha', hread'⟩ := ih hb
      exact ⟨a', List.mem_cons_of_mem _ ha', hread'⟩

/-- Every element was read. -/
theorem exists_read {Reads : α → β → Prop} {as : List α} {bs : List β}
    (h : List.Forall₂ Reads as bs) {a : α} (ha : a ∈ as) : ∃ b ∈ bs, Reads a b :=
  exists_of_reads h.flip ha

/-- A loop that first reads each element and then goes on with what was read
is the loop over all that was read. -/
theorem foldlM_eq_ok_of_read {f : σ → α → Except ε σ} {Reads : α → β → Prop}
    {g : σ → β → Except ε' σ}
    (hread : ∀ s a s', f s a = .ok s' ↔ ∃ b, Reads a b ∧ g s b = .ok s') {as : List α} {s s' : σ} :
    as.foldlM f s = .ok s' ↔ ∃ bs, List.Forall₂ Reads as bs ∧ bs.foldlM g s = .ok s' := by
  induction as generalizing s with
  | nil =>
    constructor
    · intro h
      exact ⟨[], .nil, congrArg Except.ok (Except.ok.inj h)⟩
    · rintro ⟨_, ⟨⟩, h⟩
      exact congrArg Except.ok (Except.ok.inj h)
  | cons a as ih =>
    simp only [List.foldlM_cons, bind_eq_ok, hread, ih, List.forall₂_cons_left_iff]
    constructor
    · rintro ⟨t, ⟨b, hb, hg⟩, bs, hbs, hrun⟩
      exact ⟨b :: bs, ⟨b, bs, hb, hbs, rfl⟩, bind_eq_ok.mpr ⟨t, hg, hrun⟩⟩
    · rintro ⟨_, ⟨b, bs, hb, hbs, rfl⟩, hrun⟩
      obtain ⟨t, hg, hrun⟩ := bind_eq_ok.mp hrun
      exact ⟨t, ⟨b, hb, hg⟩, bs, hbs, hrun⟩

/-- Loops whose bodies agree on the elements are the same. -/
theorem foldlM_congr {f g : σ → α → Except ε σ} {as : List α}
    (h : ∀ a ∈ as, ∀ s, f s a = g s a) (s : σ) : as.foldlM f s = as.foldlM g s := by
  induction as generalizing s with
  | nil => rfl
  | cons a as ih =>
    rw [List.forall_mem_cons] at h
    rw [List.foldlM_cons, List.foldlM_cons, h.1]
    congr 1
    funext s'
    exact ih h.2 s'

/-- One step of a loop: after the accepted elements `done` the state satisfies
`Inv`, and the step accepts exactly the elements that keep `Good`. -/
structure LoopStep (f : σ → α → Except ε σ) (Inv : List α → σ → Prop) (Good : List α → Prop) :
    Prop where
  shorter : ∀ done a, Good (done ++ [a]) → Good done
  accepts : ∀ done s a, Inv done s → Good (done ++ [a]) → ∃ s', f s a = .ok s'
  keeps : ∀ done s a s', Inv done s → Good done → f s a = .ok s' →
    Good (done ++ [a]) ∧ Inv (done ++ [a]) s'

variable {f : σ → α → Except ε σ} {Inv : List α → σ → Prop} {Good : List α → Prop}

theorem LoopStep.good_append (h : LoopStep f Inv Good) {done as : List α}
    (hgood : Good (done ++ as)) : Good done := by
  induction as using List.reverseRecOn with
  | nil => rwa [List.append_nil] at hgood
  | append_singleton as a ih =>
    rw [← List.append_assoc] at hgood
    exact ih (h.shorter _ _ hgood)

/-- What a whole run keeps. -/
theorem LoopStep.run (h : LoopStep f Inv Good) {done as : List α} {s s' : σ}
    (hinv : Inv done s) (hgood : Good done) (hrun : as.foldlM f s = .ok s') :
    Good (done ++ as) ∧ Inv (done ++ as) s' := by
  induction as generalizing done s with
  | nil =>
    rw [List.foldlM_nil] at hrun
    rw [List.append_nil, ← Except.ok.inj hrun]
    exact ⟨hgood, hinv⟩
  | cons a as ih =>
    rw [List.foldlM_cons] at hrun
    obtain ⟨t, hstep, hrun⟩ := bind_eq_ok.mp hrun
    obtain ⟨hgood, hinv⟩ := h.keeps done s a t hinv hgood hstep
    rw [List.append_cons]
    exact ih hinv hgood hrun

/-- What a whole run accepts. -/
theorem LoopStep.exists_run (h : LoopStep f Inv Good) {done as : List α} {s : σ}
    (hinv : Inv done s) (hgood : Good (done ++ as)) : ∃ s', as.foldlM f s = .ok s' := by
  induction as generalizing done s with
  | nil => exact ⟨s, rfl⟩
  | cons a as ih =>
    rw [List.append_cons] at hgood
    have hfirst := h.good_append hgood
    obtain ⟨t, hstep⟩ := h.accepts done s a hinv hfirst
    have hkeeps := h.keeps done s a t hinv (h.shorter _ _ hfirst) hstep
    obtain ⟨s', hrun⟩ := ih hkeeps.2 hgood
    exact ⟨s', by rw [List.foldlM_cons, hstep, ok_bind, hrun]⟩

end Except
