import Mathlib.Data.List.TakeWhile

/-!
# Segments of a path

`List.splitOn` cuts a path at every separator.  A loop that looks for the next
separator meets the segments one after the other: `first` is the segment at
hand and `rest?` is what stands behind its separator.

`resolve` follows the segments from a directory, as a file system does: some
segments stay where they are and one leads to the parent.

* `splitOn_eq`: the segments as the loop meets them.
* `induct`: the induction along the loop.
* `resolve_eq`: without a segment that leads up, the way ends below the
  directory that it started from.
-/

namespace Segments

variable {α : Type} [DecidableEq α] {separator : α}

/-- The segment at the start. -/
def first (separator : α) (path : List α) : List α := path.takeWhile (· != separator)

/-- What follows the first separator, if there is one. -/
def rest? (separator : α) (path : List α) : Option (List α) :=
  match path.dropWhile (· != separator) with
  | [] => none
  | _ :: rest => some rest

theorem not_mem_first (path : List α) : separator ∉ first separator path := by
  intro h
  have hne := List.mem_takeWhile_imp h
  simp at hne

/-- A path with a separator is the segment before it and what follows it. -/
theorem eq_of_rest? {path rest : List α} (h : rest? separator path = some rest) :
    path = first separator path ++ separator :: rest := by
  have happend : path = path.takeWhile (· != separator) ++ path.dropWhile (· != separator) :=
    List.takeWhile_append_dropWhile.symm
  unfold rest? at h
  cases hdrop : path.dropWhile (· != separator) with
  | nil =>
    rw [hdrop] at h
    cases h
  | cons x rest' =>
    have hx : x = separator := by
      have hhead := List.head?_dropWhile_not (· != separator) path
      simpa [hdrop] using hhead
    rw [hdrop] at h
    rw [hdrop, hx, Option.some.inj h] at happend
    exact happend

theorem length_rest? {path rest : List α} (h : rest? separator path = some rest) :
    rest.length < path.length := by
  have hlength := congrArg List.length (eq_of_rest? h)
  rw [List.length_append, List.length_cons] at hlength
  omega

theorem first_of_rest?_none {path : List α} (h : rest? separator path = none) :
    first separator path = path := by
  have happend : path = path.takeWhile (· != separator) ++ path.dropWhile (· != separator) :=
    List.takeWhile_append_dropWhile.symm
  unfold rest? at h
  cases hdrop : path.dropWhile (· != separator) with
  | nil =>
    rw [hdrop, List.append_nil] at happend
    exact happend.symm
  | cons x rest =>
    rw [hdrop] at h
    cases h

/-- The segment at hand, and those of what stands behind its separator. -/
theorem splitOn_eq (path : List α) :
    path.splitOn separator = first separator path ::
      ((rest? separator path).map (List.splitOn separator)).getD [] := by
  cases hrest : rest? separator path with
  | none =>
    have hnot : separator ∉ first separator path := not_mem_first path
    rw [first_of_rest?_none hrest] at hnot ⊢
    exact List.splitOn_eq_singleton hnot
  | some rest =>
    rw [congrArg (List.splitOn separator) (eq_of_rest? hrest),
      List.splitOn_append_cons_self_of_not_mem (not_mem_first path)]
    rfl

/-- Induction along the loop. -/
theorem induct {P : List α → Prop}
    (step : ∀ path, (∀ rest, rest? separator path = some rest → P rest) → P path)
    (path : List α) : P path := by
  induction hn : path.length using Nat.strong_induction_on generalizing path with
  | _ n ih =>
    apply step
    intro rest hrest
    apply ih rest.length _ rest rfl
    rw [← hn]
    exact length_rest? hrest

/-! ## The way that a path leads -/

variable {σ : Type} [DecidableEq σ]

/-- The directory that a segment leads to from `directory`, if it is not above
the root. -/
def enter (stays : σ → Bool) (up : σ) (directory : List σ) (segment : σ) : Option (List σ) :=
  if stays segment then some directory
  else if segment = up then
    if directory = [] then none else some directory.dropLast
  else some (directory ++ [segment])

/-- Where the segments lead to from `directory`. -/
def resolve (stays : σ → Bool) (up : σ) (directory segments : List σ) : Option (List σ) :=
  segments.foldlM (enter stays up) directory

/-- Without a segment that leads up, the way goes down at each segment that does
not stay. -/
theorem resolve_eq {stays : σ → Bool} {up : σ} {segments : List σ} (hup : up ∉ segments)
    (directory : List σ) :
    resolve stays up directory segments =
      some (directory ++ segments.filter fun segment => !stays segment) := by
  induction segments generalizing directory with
  | nil => simp [resolve]
  | cons segment segments ih =>
    rw [List.mem_cons, not_or] at hup
    have hstep : resolve stays up directory (segment :: segments) =
        (enter stays up directory segment).bind fun next => resolve stays up next segments := rfl
    rw [hstep, enter]
    by_cases hstays : stays segment = true
    · rw [if_pos hstays, Option.bind_some, ih hup.2, List.filter_cons_of_neg (by simp [hstays])]
    · rw [if_neg hstays, if_neg (Ne.symm hup.1), Option.bind_some, ih hup.2,
        List.filter_cons_of_pos (by simpa using hstays), List.append_assoc]
      rfl

end Segments
