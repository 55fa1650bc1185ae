import MissionWeave.CodeLib.Except

/-!
# Computations with a log

A computation that logs events and may throw.  The log of a run that throws
keeps the events before the error.

`Follows I x y q` says that the logging computation `x` has the result of the
plain computation `y`, that each of its events satisfies `I`, and that what it
returns satisfies `q`.  `Returns I x q` is about a computation that does not
throw.  `Settles I x x'` says that `x'` runs as `x` does if each event of `x`
satisfies `I`.  The rules go through a program one statement at a time.
-/

/-- A result together with the events on the way to it. -/
structure Traced (ν ε α : Type) where
  events : List ν
  result : Except ε α

namespace Traced

variable {ν ε α β : Type}

def ok (a : α) : Traced ν ε α := ⟨[], .ok a⟩

def throw (e : ε) : Traced ν ε α := ⟨[], .error e⟩

/-- Log an event in front of a result. -/
def log (event : ν) (result : Except ε α) : Traced ν ε α := ⟨[event], result⟩

def andThen (x : Traced ν ε α) (f : α → Traced ν ε β) : Traced ν ε β :=
  match x.result with
  | .ok a => ⟨x.events ++ (f a).events, (f a).result⟩
  | .error e => ⟨x.events, .error e⟩

instance : Monad (Traced ν ε) where
  pure := ok
  bind := andThen

/-- What a logging computation does, beside a computation without a log. -/
structure Follows (I : ν → Prop) (x : Traced ν ε α) (y : Except ε α) (q : α → Prop) : Prop where
  result_eq : x.result = y
  events : ∀ event ∈ x.events, I event
  returns : ∀ a, y = .ok a → q a

variable {I : ν → Prop} {x : Traced ν ε α} {y : Except ε α} {q p : α → Prop}

namespace Follows

theorem ok {a : α} (h : q a) : Follows I (Traced.ok a : Traced ν ε α) (.ok a) q where
  result_eq := rfl
  events := by
    intro event hevent
    cases hevent
  returns := by
    intro b hb
    rw [← Except.ok.inj hb]
    exact h

theorem throw (e : ε) : Follows I (Traced.throw e) (.error e) q where
  result_eq := rfl
  events := by
    intro event hevent
    cases hevent
  returns := by
    intro a ha
    cases ha

theorem log {event : ν} (hevent : I event) (h : ∀ a, y = .ok a → q a) :
    Follows I (Traced.log event y) y q where
  result_eq := rfl
  events := by
    intro other hother
    rw [List.mem_singleton.mp hother]
    exact hevent
  returns := h

theorem imp (h : Follows I x y q) (hqp : ∀ a, q a → p a) : Follows I x y p :=
  ⟨h.result_eq, h.events, fun a ha => hqp a (h.returns a ha)⟩

theorem bind {f : α → Traced ν ε β} {g : α → Except ε β} {r : β → Prop} (h : Follows I x y q)
    (hf : ∀ a, q a → Follows I (f a) (g a) r) : Follows I (x >>= f) (y >>= g) r := by
  obtain ⟨events, result⟩ := x
  obtain ⟨rfl, hevents, hreturns⟩ := h
  cases result with
  | error e =>
    refine ⟨rfl, hevents, ?_⟩
    intro b hb
    cases hb
  | ok a =>
    have hrest := hf a (hreturns a rfl)
    refine ⟨hrest.result_eq, ?_, hrest.returns⟩
    intro event hevent
    rcases List.mem_append.mp hevent with hfirst | hsecond
    · exact hevents event hfirst
    · exact hrest.events event hsecond

/-- An event of its own, where the plain computation has nothing to do. -/
theorem log_ok_bind {event : ν} {a : α} {f : α → Traced ν ε β} {z : Except ε β} {r : β → Prop}
    (hevent : I event) (hf : Follows I (f a) z r) :
    Follows I (Traced.log event (.ok a) >>= f) z r where
  result_eq := hf.result_eq
  events := by
    intro other hother
    rcases List.mem_cons.mp hother with rfl | hrest
    · exact hevent
    · exact hf.events other hrest
  returns := hf.returns

theorem ite {c : Prop} [Decidable c] {x' : Traced ν ε α} {y' : Except ε α}
    (hx : c → Follows I x y q) (hy : ¬c → Follows I x' y' q) :
    Follows I (if c then x else x') (if c then y else y') q := by
  by_cases h : c
  · rw [if_pos h, if_pos h]
    exact hx h
  · rw [if_neg h, if_neg h]
    exact hy h

end Follows

/-- The computation returns, with the result and its events as stated. -/
def Returns (I : ν → Prop) (x : Traced ν ε α) (q : α → Prop) : Prop :=
  ∃ a, q a ∧ Follows I x (.ok a) (· = a)

namespace Returns

theorem ok {a : α} (h : q a) : Returns I (Traced.ok a : Traced ν ε α) q :=
  ⟨a, h, Follows.ok rfl⟩

theorem log {event : ν} {a : α} (hevent : I event) (hy : y = .ok a) (h : q a) :
    Returns I (Traced.log event y) q := by
  refine ⟨a, h, ?_⟩
  rw [hy]
  apply Follows.log hevent
  intro b hb
  exact (Except.ok.inj hb).symm

theorem imp (h : Returns I x q) (hqp : ∀ a, q a → p a) : Returns I x p := by
  obtain ⟨a, ha, hx⟩ := h
  exact ⟨a, hqp a ha, hx⟩

theorem bind {f : α → Traced ν ε β} {r : β → Prop} (h : Returns I x q)
    (hf : ∀ a, q a → Returns I (f a) r) : Returns I (x >>= f) r := by
  obtain ⟨a, ha, hx⟩ := h
  obtain ⟨b, hb, hfa⟩ := hf a ha
  refine ⟨b, hb, hx.bind (g := fun _ => .ok b) ?_⟩
  intro a' heq
  rw [heq]
  exact hfa

theorem ite {c : Prop} [Decidable c] {x' : Traced ν ε α} (hx : c → Returns I x q)
    (hy : ¬c → Returns I x' q) : Returns I (if c then x else x') q := by
  by_cases h : c
  · rw [if_pos h]
    exact hx h
  · rw [if_neg h]
    exact hy h

theorem events (h : Returns I x q) : ∀ event ∈ x.events, I event := by
  obtain ⟨_, _, hx⟩ := h
  exact hx.events

theorem result (h : Returns I x q) : ∃ a, x.result = .ok a ∧ q a := by
  obtain ⟨a, ha, hx⟩ := h
  exact ⟨a, hx.result_eq, ha⟩

end Returns

/-- The log settles the run: a computation `x'` that answers every event in the
log of `x` alike runs as `x` does. -/
def Settles (I : ν → Prop) (x x' : Traced ν ε α) : Prop :=
  (∀ event ∈ x.events, I event) → x' = x

namespace Settles

variable {x' : Traced ν ε α}

theorem refl (x : Traced ν ε α) : Settles I x x := fun _ => rfl

theorem log {event : ν} {y' : Except ε α} (h : I event → y' = y) :
    Settles I (Traced.log event y) (Traced.log event y') := by
  intro hevents
  rw [h (hevents event List.mem_cons_self)]

theorem bind {f f' : α → Traced ν ε β} (h : Settles I x x') (hf : ∀ a, Settles I (f a) (f' a)) :
    Settles I (x >>= f) (x' >>= f') := by
  obtain ⟨events, result⟩ := x
  intro hevents
  cases result with
  | error e =>
    rw [h hevents]
    rfl
  | ok a =>
    have hfirst : ∀ event ∈ events, I event :=
      fun event hevent => hevents event (List.mem_append_left _ hevent)
    have hrest : ∀ event ∈ (f a).events, I event :=
      fun event hevent => hevents event (List.mem_append_right _ hevent)
    rw [h hfirst]
    change Traced.mk (events ++ (f' a).events) (f' a).result = _
    rw [hf a hrest]
    rfl

theorem ite {c : Prop} [Decidable c] {z z' : Traced ν ε α} (hx : Settles I x x')
    (hz : Settles I z z') : Settles I (if c then x else z) (if c then x' else z') := by
  by_cases h : c
  · rw [if_pos h, if_pos h]
    exact hx
  · rw [if_neg h, if_neg h]
    exact hz

end Settles

end Traced
