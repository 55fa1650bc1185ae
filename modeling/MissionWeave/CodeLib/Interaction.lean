import Mathlib.Logic.Relation
import Mathlib.Data.List.Basic

/-!
# Programs that make calls

A program computes, or it makes a call and goes on with the answer.  What the
answers are is not part of the program: its runs are those for all answers, and
a call may be answered by a value that stands for a thrown exception.

* `Program.run` is the result when one handler answers every call.
* `Program.map` makes the same calls and ends with a function of the result.
* `Reaches` is a run of one program up to some call, with the calls it made.
* `Ensures` is the weakest precondition for a condition on every call and one
  on the result.  `Ensures.of_reaches` is its soundness.
* `Step` interleaves any number of programs that are served by one shared
  state.  `Run.shared`, `Run.sessions` and `Run.events` are the invariant
  rules.
-/

namespace Interaction

/-- A program with a result in `α`. -/
inductive Program (Call : Type) (Answer : Call → Type) (α : Type)
  | done (result : α)
  | call (request : Call) (next : Answer request → Program Call Answer α)

/-- A call and its answer. -/
structure Event (Call : Type) (Answer : Call → Type) where
  request : Call
  answer : Answer request

variable {Call : Type} {Answer : Call → Type} {ε α β σ : Type}

namespace Program

def bind (p : Program Call Answer α) (f : α → Program Call Answer β) : Program Call Answer β :=
  match p with
  | .done result => f result
  | .call request next => .call request fun answer => (next answer).bind f

/-- Going on with the value that was returned, or else throwing. -/
def orThrow (f : α → Program Call Answer (Except ε β)) :
    Except ε α → Program Call Answer (Except ε β)
  | .error thrown => .done (.error thrown)
  | .ok value => f value

/-- One program that may throw after another. -/
def andThen (p : Program Call Answer (Except ε α))
    (f : α → Program Call Answer (Except ε β)) : Program Call Answer (Except ε β) :=
  p.bind (orThrow f)

end Program

/-! ## Another result -/

namespace Program

/-- The same calls, and a function of the result. -/
def map (g : α → β) (p : Program Call Answer α) : Program Call Answer β :=
  p.bind fun result => .done (g result)

/-- The second program may do the function. -/
theorem andThen_eq_map {γ : Type} {p : Program Call Answer (Except ε α)} {g : β → γ}
    {f : α → Program Call Answer (Except ε β)} {f' : α → Program Call Answer (Except ε γ)}
    (h : ∀ value, f' value = (f value).map (Except.map g)) :
    p.andThen f' = (p.andThen f).map (Except.map g) := by
  induction p with
  | done result =>
    cases result with
    | error thrown => rfl
    | ok value => exact h value
  | call request next ih => exact congrArg (Program.call request) (funext ih)

/-- The first program may do the function. -/
theorem map_andThen {γ : Type} (p : Program Call Answer (Except ε α)) (g : α → β)
    (f : β → Program Call Answer (Except ε γ)) :
    (p.map (Except.map g)).andThen f = p.andThen fun value => f (g value) := by
  induction p with
  | done result =>
    cases result with
    | error thrown => rfl
    | ok value => rfl
  | call request next ih => exact congrArg (Program.call request) (funext ih)

end Program

/-! ## Answering all calls -/

namespace Program

/-- The result when `handler` answers every call. -/
def run (handler : (request : Call) → Answer request) : Program Call Answer α → α
  | .done result => result
  | .call request next => (next (handler request)).run handler

variable {handler : (request : Call) → Answer request}

theorem run_bind (p : Program Call Answer α) (f : α → Program Call Answer β) :
    (p.bind f).run handler = (f (p.run handler)).run handler := by
  induction p with
  | done result => rfl
  | call request next ih => exact ih (handler request)

theorem run_andThen (p : Program Call Answer (Except ε α))
    (f : α → Program Call Answer (Except ε β)) :
    (p.andThen f).run handler = p.run handler >>= fun value => (f value).run handler := by
  rw [andThen, run_bind]
  cases p.run handler with
  | error thrown => rfl
  | ok value => rfl

end Program

/-! ## Runs of one program -/

/-- After the calls of `events` the program is left with `rest`. -/
inductive Reaches : Program Call Answer α → List (Event Call Answer) → Program Call Answer α → Prop
  | refl (p : Program Call Answer α) : Reaches p [] p
  | call {request : Call} {next : Answer request → Program Call Answer α}
      {events : List (Event Call Answer)} {rest : Program Call Answer α} (answer : Answer request)
      (tail : Reaches (next answer) events rest) :
      Reaches (.call request next) (⟨request, answer⟩ :: events) rest

/-- One more call. -/
theorem Reaches.snoc {p : Program Call Answer α} {events : List (Event Call Answer)}
    {request : Call} {next : Answer request → Program Call Answer α}
    (h : Reaches p events (.call request next)) (answer : Answer request) :
    Reaches p (events ++ [⟨request, answer⟩]) (next answer) := by
  generalize hrest : Program.call request next = rest at h
  induction h with
  | refl p =>
    subst hrest
    exact .call answer (.refl _)
  | call answer' _ ih => exact .call answer' (ih hrest)

/-- One program after another. -/
theorem Reaches.bind {p : Program Call Answer α} {f : α → Program Call Answer β} {result : α}
    {events events' : List (Event Call Answer)} {rest : Program Call Answer β}
    (h : Reaches p events (.done result)) (h' : Reaches (f result) events' rest) :
    Reaches (p.bind f) (events ++ events') rest := by
  generalize hdone : Program.done result = last at h
  induction h with
  | refl p =>
    subst hdone
    exact h'
  | call answer _ ih => exact .call answer (ih hdone)

theorem Reaches.andThen {p : Program Call Answer (Except ε α)}
    {f : α → Program Call Answer (Except ε β)} {value : α}
    {events events' : List (Event Call Answer)} {rest : Program Call Answer (Except ε β)}
    (h : Reaches p events (.done (.ok value))) (h' : Reaches (f value) events' rest) :
    Reaches (p.andThen f) (events ++ events') rest :=
  h.bind h'

theorem Reaches.map {p : Program Call Answer α} {events : List (Event Call Answer)} {result : α}
    (h : Reaches p events (.done result)) (g : α → β) :
    Reaches (p.map g) events (.done (g result)) := by
  rw [← List.append_nil events]
  exact h.bind (f := fun result => .done (g result)) (.refl _)

/-- A program that has ended after another one has thrown, or what the first one
returned has ended. -/
theorem Reaches.of_andThen {p : Program Call Answer (Except ε α)}
    {f : α → Program Call Answer (Except ε β)} {result : Except ε β}
    {events : List (Event Call Answer)} (h : Reaches (p.andThen f) events (.done result)) :
    (∃ thrown, Reaches p events (.done (.error thrown)) ∧ result = .error thrown) ∨
      ∃ value before after, events = before ++ after ∧ Reaches p before (.done (.ok value)) ∧
        Reaches (f value) after (.done result) := by
  induction p generalizing events with
  | done first =>
    cases first with
    | error thrown =>
      cases h
      exact .inl ⟨thrown, .refl _, rfl⟩
    | ok value => exact .inr ⟨value, [], events, rfl, .refl _, h⟩
  | call request next ih =>
    cases h with
    | call answer tail =>
      rcases ih answer tail with ⟨thrown, hp, hresult⟩ | ⟨value, before, after, heq, hp, hf⟩
      · exact .inl ⟨thrown, .call answer hp, hresult⟩
      · exact .inr ⟨value, _ :: before, after, by rw [heq]; rfl, .call answer hp, hf⟩

/-- A run stops after every one of its calls. -/
theorem Reaches.exists_of_append {p rest : Program Call Answer α}
    {events events' : List (Event Call Answer)} (h : Reaches p (events ++ events') rest) :
    ∃ q, Reaches p events q ∧ Reaches q events' rest := by
  induction events generalizing p with
  | nil => exact ⟨p, .refl p, h⟩
  | cons event events ih =>
    cases h with
    | call answer tail =>
      obtain ⟨q, hfirst, hlast⟩ := ih tail
      exact ⟨q, .call answer hfirst, hlast⟩

/-! ## Conditions on all runs -/

/-- Whatever the answers are, every call is allowed after the calls before it,
and every result satisfies `post`. -/
def Ensures (allowed : List (Event Call Answer) → Call → Prop)
    (post : List (Event Call Answer) → α → Prop) :
    List (Event Call Answer) → Program Call Answer α → Prop
  | past, .done result => post past result
  | past, .call request next =>
    allowed past request ∧
      ∀ answer, Ensures allowed post (past ++ [⟨request, answer⟩]) (next answer)

section

variable {allowed : List (Event Call Answer) → Call → Prop}
  {past : List (Event Call Answer)}

theorem Ensures.mono {post post' : List (Event Call Answer) → α → Prop}
    (hpost : ∀ past result, post past result → post' past result) {p : Program Call Answer α}
    (h : Ensures allowed post past p) : Ensures allowed post' past p := by
  induction p generalizing past with
  | done result => exact hpost _ _ h
  | call request next ih => exact ⟨h.1, fun answer => ih answer (h.2 answer)⟩

theorem ensures_bind {post : List (Event Call Answer) → β → Prop} {p : Program Call Answer α}
    {f : α → Program Call Answer β} :
    Ensures allowed post past (p.bind f) ↔
      Ensures allowed (fun past result => Ensures allowed post past (f result)) past p := by
  induction p generalizing past with
  | done result => exact Iff.rfl
  | call request next ih =>
    exact and_congr_right fun _ => forall_congr' fun answer => ih answer

/-- A program that goes on when the first one has returned. -/
theorem ensures_andThen {post : List (Event Call Answer) → Except ε β → Prop}
    {p : Program Call Answer (Except ε α)} {f : α → Program Call Answer (Except ε β)}
    (h : Ensures allowed (fun past result =>
      (∀ thrown, result = .error thrown → post past (.error thrown)) ∧
        ∀ value, result = .ok value → Ensures allowed post past (f value)) past p) :
    Ensures allowed post past (p.andThen f) := by
  refine ensures_bind.mpr (h.mono fun past result hresult => ?_)
  cases result with
  | error thrown => exact hresult.1 thrown rfl
  | ok value => exact hresult.2 value rfl

/-- A run makes allowed calls only, and what is left keeps the condition. -/
theorem Ensures.of_reaches {post : List (Event Call Answer) → α → Prop}
    {p rest : Program Call Answer α} {events : List (Event Call Answer)}
    (h : Ensures allowed post past p) (hreaches : Reaches p events rest) :
    (∀ before event after, events = before ++ event :: after →
      allowed (past ++ before) event.request) ∧ Ensures allowed post (past ++ events) rest := by
  induction hreaches generalizing past with
  | refl p =>
    rw [List.append_nil]
    refine ⟨fun before event after heq => ?_, h⟩
    cases before <;> cases heq
  | call answer _ ih =>
    obtain ⟨hallowed, hnext⟩ := h
    obtain ⟨hevents, hrest⟩ := ih (hnext answer)
    rw [← List.append_cons] at hrest
    refine ⟨fun before event after heq => ?_, hrest⟩
    cases before with
    | nil =>
      rw [List.append_nil, ← (List.cons.inj heq).1]
      exact hallowed
    | cons first before =>
      obtain ⟨rfl, htail⟩ := List.cons.inj heq
      have := hevents before event after htail
      rwa [← List.append_cons] at this

end

/-! ## Interleaved runs -/

/-- A program that was started, the calls it has made, and what is left of it. -/
structure Session (Call : Type) (Answer : Call → Type) (α : Type) where
  program : Program Call Answer α
  events : List (Event Call Answer)
  rest : Program Call Answer α

/-- The shared state and all sessions, in the order in which they started. -/
structure State (σ Call : Type) (Answer : Call → Type) (α : Type) where
  shared : σ
  sessions : List (Session Call Answer α)

/-- A session starts, or a call of one session is served. -/
inductive Step (Starts : Program Call Answer α → Prop)
    (Serves : σ → (request : Call) → Answer request → σ → Prop) :
    State σ Call Answer α → State σ Call Answer α → Prop
  | start (state : State σ Call Answer α) (program : Program Call Answer α)
      (starts : Starts program) :
      Step Starts Serves state ⟨state.shared, state.sessions ++ [⟨program, [], program⟩]⟩
  | call (state : State σ Call Answer α) (i : Nat) (program : Program Call Answer α)
      (events : List (Event Call Answer)) (request : Call)
      (next : Answer request → Program Call Answer α) (answer : Answer request) (shared : σ)
      (session : state.sessions[i]? = some ⟨program, events, .call request next⟩)
      (serves : Serves state.shared request answer shared) :
      Step Starts Serves state
        ⟨shared, state.sessions.set i ⟨program, events ++ [⟨request, answer⟩], next answer⟩⟩

/-- Any number of steps. -/
abbrev Run (Starts : Program Call Answer α → Prop)
    (Serves : σ → (request : Call) → Answer request → σ → Prop) :
    State σ Call Answer α → State σ Call Answer α → Prop :=
  Relation.ReflTransGen (Step Starts Serves)

section

variable {Starts : Program Call Answer α → Prop}
  {Serves : σ → (request : Call) → Answer request → σ → Prop}
  {state state' : State σ Call Answer α}

/-- The shared states before and after a run are in every preorder in which
they are before and after an answer. -/
theorem Run.shared {R : σ → σ → Prop} (hrefl : ∀ shared, R shared shared)
    (htrans : ∀ s t u, R s t → R t u → R s u)
    (hserves : ∀ shared request answer shared', Serves shared request answer shared' →
      R shared shared')
    (h : Run Starts Serves state state') : R state.shared state'.shared := by
  induction h with
  | refl => exact hrefl _
  | tail _ hstep ih =>
    cases hstep with
    | start program starts => exact ih
    | call i program events request next answer shared session serves =>
      exact htrans _ _ _ ih (hserves _ _ _ _ serves)

/-- The calls of `events` are served one after another. -/
inductive Served (Serves : σ → (request : Call) → Answer request → σ → Prop) :
    σ → List (Event Call Answer) → σ → Prop
  | nil (shared : σ) : Served Serves shared [] shared
  | cons {shared shared' shared'' : σ} {request : Call} {answer : Answer request}
      {events : List (Event Call Answer)} (serves : Serves shared request answer shared')
      (tail : Served Serves shared' events shared'') :
      Served Serves shared (⟨request, answer⟩ :: events) shared''

/-- One session makes some calls, and the others wait. -/
theorem Run.serve {shared' : σ} {i : Nat} {p q rest : Program Call Answer α}
    {past events : List (Event Call Answer)} (hreaches : Reaches q events rest)
    (hserved : Served Serves state'.shared events shared')
    (hsession : state'.sessions[i]? = some ⟨p, past, q⟩) (h : Run Starts Serves state state') :
    Run Starts Serves state ⟨shared', state'.sessions.set i ⟨p, past ++ events, rest⟩⟩ := by
  induction hreaches generalizing state' past with
  | refl q =>
    cases hserved
    obtain ⟨hi, hget⟩ := List.getElem?_eq_some_iff.mp hsession
    rw [List.append_nil, ← hget, List.set_getElem_self]
    exact h
  | @call request next events rest answer tail ih =>
    cases hserved with
    | cons serves hserved =>
      have hstep := h.tail (.call state' i p past request next answer _ hsession serves)
      have hi := (List.getElem?_eq_some_iff.mp hsession).1
      have hrun := ih hserved (List.getElem?_set_self hi) hstep
      rwa [List.set_set, ← List.append_cons] at hrun

/-- A session starts and makes some calls, and the others wait. -/
theorem Run.startAndServe (state : State σ Call Answer α) {shared' : σ}
    {p rest : Program Call Answer α} {events : List (Event Call Answer)} (hstarts : Starts p)
    (hreaches : Reaches p events rest) (hserved : Served Serves state.shared events shared') :
    Run Starts Serves state ⟨shared', state.sessions ++ [⟨p, events, rest⟩]⟩ := by
  let started : State σ Call Answer α := ⟨state.shared, state.sessions ++ [⟨p, [], p⟩]⟩
  have hstart : Run Starts Serves state started := .single (.start state p hstarts)
  have hsession : started.sessions[state.sessions.length]? = some ⟨p, [], p⟩ :=
    List.getElem?_concat_length
  have hrun : Run Starts Serves state ⟨shared', started.sessions.set state.sessions.length
      ⟨p, [] ++ events, rest⟩⟩ := by
    refine Run.serve hreaches ?_ hsession hstart
    exact hserved
  rwa [List.set_append_right _ _ (Nat.le_refl _), Nat.sub_self] at hrun

/-- Every session has been started, and its calls are a run of its program. -/
def SessionsRun (Starts : Program Call Answer α → Prop) (state : State σ Call Answer α) : Prop :=
  ∀ session ∈ state.sessions,
    Starts session.program ∧ Reaches session.program session.events session.rest

theorem Run.sessions (h : Run Starts Serves state state')
    (hstate : SessionsRun Starts state) : SessionsRun Starts state' := by
  induction h with
  | refl => exact hstate
  | tail _ hstep ih =>
    cases hstep with
    | start program starts =>
      intro session hsession
      rcases List.mem_append.mp hsession with hsession | hsession
      · exact ih session hsession
      · rw [List.mem_singleton.mp hsession]
        exact ⟨starts, .refl program⟩
    | call i program events request next answer shared session serves =>
      intro other hother
      rcases List.mem_or_eq_of_mem_set hother with hother | rfl
      · exact ih other hother
      · obtain ⟨hstarts, hreaches⟩ := ih _ (List.mem_of_getElem? session)
        exact ⟨hstarts, hreaches.snoc answer⟩

/-- Every call of the sessions from the `first` on satisfies the condition. -/
def EventsFrom (first : Nat) (P : Event Call Answer → Prop) (state : State σ Call Answer α) :
    Prop :=
  ∀ i, first ≤ i → ∀ session, state.sessions[i]? = some session → ∀ e ∈ session.events, P e

/-- A condition that holds of every call when it is served, and that the shared
state keeps, holds of all calls. -/
theorem Run.events {Inv : σ → Prop} {P : σ → Event Call Answer → Prop} {first : Nat}
    (hserves : ∀ shared request answer shared', Serves shared request answer shared' →
      Inv shared → Inv shared' ∧ P shared' ⟨request, answer⟩ ∧ ∀ e, P shared e → P shared' e)
    (h : Run Starts Serves state state') (hinv : Inv state.shared)
    (hevents : EventsFrom first (P state.shared) state) :
    Inv state'.shared ∧ EventsFrom first (P state'.shared) state' := by
  induction h with
  | refl => exact ⟨hinv, hevents⟩
  | tail _ hstep ih =>
    obtain ⟨hinv, hevents⟩ := ih
    cases hstep with
    | start program starts =>
      refine ⟨hinv, fun i hi session hsession e he => ?_⟩
      rw [List.getElem?_append] at hsession
      split_ifs at hsession
      · exact hevents i hi session hsession e he
      · rw [List.getElem?_singleton] at hsession
        split_ifs at hsession
        rw [← Option.some.inj hsession] at he
        cases he
    | call j program events request next answer shared session serves =>
      obtain ⟨hinv', hnew, hstable⟩ := hserves _ _ _ _ serves hinv
      refine ⟨hinv', fun i hi other hother e he => ?_⟩
      rw [List.getElem?_set] at hother
      split_ifs at hother with hij hlength
      · subst hij
        rw [← Option.some.inj hother] at he
        rcases List.mem_append.mp he with he | he
        · exact hstable e (hevents _ hi _ session e he)
        · rw [List.mem_singleton.mp he]
          exact hnew
      · exact hstable e (hevents i hi other hother e he)

end

end Interaction
