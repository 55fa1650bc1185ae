import Mathlib.Data.Nat.Init
import Mathlib.Logic.Function.Iterate
import Mathlib.Tactic.SplitIfs

/-!
# The proleptic Gregorian calendar

Dates from the year 1 on, and the counting of days.

* `Date.next`: the day after a day.
* `Date.exists_iterate`: every date is some number of days after the first one.
* `isDayNumber_iff`: a function that grows by one from each day to the next is
  the number of days counted from an epoch.
-/

namespace MissionWeave.Calendar

/-- Every fourth year, except the centuries that 400 does not divide. -/
def LeapYear (year : Nat) : Prop := 4 ∣ year ∧ (¬100 ∣ year ∨ 400 ∣ year)

instance (year : Nat) : Decidable (LeapYear year) := inferInstanceAs (Decidable (_ ∧ _))

/-- The number of days of a month. -/
def monthDays (year month : Nat) : Nat :=
  match month with
  | 4 | 6 | 9 | 11 => 30
  | 2 => if LeapYear year then 29 else 28
  | _ => 31

theorem monthDays_pos (year month : Nat) : 1 ≤ monthDays year month := by
  unfold monthDays
  split <;> try omega
  split_ifs <;> omega

/-- A day of the calendar. -/
@[ext]
structure Date where
  year : Nat
  month : Nat
  day : Nat
  year_pos : 1 ≤ year
  month_pos : 1 ≤ month
  month_le : month ≤ 12
  day_pos : 1 ≤ day
  day_le : day ≤ monthDays year month

namespace Date

/-- The first day of a month. -/
def firstOf (year month : Nat) (hyear : 1 ≤ year) (hpos : 1 ≤ month) (hle : month ≤ 12) : Date :=
  ⟨year, month, 1, hyear, hpos, hle, Nat.le_refl 1, monthDays_pos year month⟩

/-- The first day of the calendar. -/
def first : Date := firstOf 1 1 (by decide) (by decide) (by decide)

/-- The next day. -/
def next (d : Date) : Date :=
  if hday : d.day < monthDays d.year d.month then
    ⟨d.year, d.month, d.day + 1, d.year_pos, d.month_pos, d.month_le, by omega, hday⟩
  else if hmonth : d.month < 12 then firstOf d.year (d.month + 1) d.year_pos (by omega) hmonth
  else firstOf (d.year + 1) 1 (by omega) (by decide) (by decide)

/-! ## Reaching every day -/

/-- The date is some days after the first one. -/
def Reached (d : Date) : Prop := ∃ k, next^[k] first = d

theorem Reached.next {d : Date} (h : Reached d) : Reached d.next := by
  obtain ⟨k, rfl⟩ := h
  exact ⟨k + 1, Function.iterate_succ_apply' Date.next k first⟩

/-- From the first day of a month on, the days follow each other. -/
theorem reached_of_first {d : Date}
    (h : Reached (firstOf d.year d.month d.year_pos d.month_pos d.month_le)) : Reached d := by
  obtain ⟨year, month, day, hyear, hpos, hle, hday, hdays⟩ := d
  induction day, hday using Nat.le_induction with
  | base => exact h
  | succ day hday ih =>
    have hbefore := (ih (by omega) h).next
    rw [Date.next, dif_pos (show day < monthDays year month by omega)] at hbefore
    exact hbefore

/-- The last day of a month. -/
def lastOf (year month : Nat) (hyear : 1 ≤ year) (hpos : 1 ≤ month) (hle : month ≤ 12) : Date :=
  ⟨year, month, monthDays year month, hyear, hpos, hle, monthDays_pos year month, Nat.le_refl _⟩

/-- From the first month of a year on, the months follow each other. -/
theorem reached_firstOf {year month : Nat} (hyear : 1 ≤ year) (hpos : 1 ≤ month)
    (hle : month ≤ 12) (h : Reached (firstOf year 1 hyear (by decide) (by decide))) :
    Reached (firstOf year month hyear hpos hle) := by
  induction month, hpos using Nat.le_induction with
  | base => exact h
  | succ month hpos ih =>
    have hlast : Reached (lastOf year month hyear hpos (by omega)) :=
      reached_of_first (ih (by omega))
    have hnext := hlast.next
    rw [Date.next, dif_neg (by simp [lastOf]),
      dif_pos (show (lastOf year month hyear hpos (by omega)).month < 12 from hle)] at hnext
    exact hnext

theorem reached_year {year : Nat} (hyear : 1 ≤ year) :
    Reached (firstOf year 1 hyear (by decide) (by decide)) := by
  induction year, hyear using Nat.le_induction with
  | base => exact ⟨0, rfl⟩
  | succ year hyear ih =>
    have hfirst : Reached (firstOf year 12 hyear (by decide) (by decide)) :=
      reached_firstOf hyear (by decide) (by decide) ih
    have hlast : Reached (lastOf year 12 hyear (by decide) (by decide)) := reached_of_first hfirst
    have hnext := hlast.next
    rw [Date.next, dif_neg (by simp [lastOf]), dif_neg (by simp [lastOf])] at hnext
    exact hnext

/-- Every date is some days after the first one. -/
theorem exists_iterate (d : Date) : ∃ k, next^[k] first = d :=
  reached_of_first (reached_firstOf d.year_pos d.month_pos d.month_le (reached_year d.year_pos))

end Date

/-! ## Counting days -/

/-- The date is `n` days after the epoch, before it where `n` is negative. -/
def IsDayNumber (epoch d : Date) (n : Int) : Prop :=
  Date.next^[n.toNat] epoch = Date.next^[(-n).toNat] d

theorem iterate_next {f : Date → Int} (hnext : ∀ d, f d.next = f d + 1) (d : Date) (k : Nat) :
    f (Date.next^[k] d) = f d + k := by
  induction k with
  | zero => simp
  | succ k ih =>
    rw [Function.iterate_succ_apply', hnext, ih]
    push_cast
    omega

/-- A function that grows by one from each day to the next counts the days. -/
theorem isDayNumber_iff {f : Date → Int} (hnext : ∀ d, f d.next = f d + 1) (epoch d : Date)
    (n : Int) : IsDayNumber epoch d n ↔ n = f d - f epoch := by
  unfold IsDayNumber
  constructor
  · intro h
    have hcount := congrArg f h
    rw [iterate_next hnext, iterate_next hnext] at hcount
    omega
  · intro h
    obtain ⟨j, hj⟩ := Date.exists_iterate epoch
    obtain ⟨k, hk⟩ := Date.exists_iterate d
    have hfj := iterate_next hnext Date.first j
    have hfk := iterate_next hnext Date.first k
    rw [hj] at hfj
    rw [hk] at hfk
    -- both sides are the same number of days after the first date
    rw [← hj, ← hk, ← Function.iterate_add_apply, ← Function.iterate_add_apply]
    have hdays : n.toNat + j = (-n).toNat + k := by omega
    rw [hdays]

end MissionWeave.Calendar
