import Mathlib.Data.List.Basic
import Mathlib.Tactic.SplitIfs

/-!
# `std::lower_bound`

The binary search of the C++ standard library, over a list that `before`
partitions: the elements before the wanted position come first.

* `lowerBound_spec`: the search ends at the border of the partition.
-/

namespace LowerBound

variable {α : Type} (before : α → Bool) (xs : List α)

/-- The loop: `first` is the position reached, `length` what is left of the
range. -/
def loop (first length : Nat) : Nat :=
  if length = 0 then first
  else
    let half := length / 2
    if (xs[first + half]?).any before then loop (first + half + 1) (length - half - 1)
    else loop first half
termination_by length

/-- The first position whose element is not `before`. -/
def lowerBound : Nat := loop before xs 0 xs.length

/-- The elements at the positions below `border` are the ones that are
`before`. -/
def Border (border : Nat) : Prop := ∀ i x, xs[i]? = some x → (before x = true ↔ i < border)

variable {before xs}

/-- The border lies in the range that is left, hence is where the loop ends. -/
theorem loop_eq {border first length : Nat} (hborder : Border before xs border)
    (hle : first ≤ border) (hlt : border ≤ first + length) (hrange : first + length ≤ xs.length) :
    loop before xs first length = border := by
  induction length using Nat.strongRecOn generalizing first with
  | ind length ih =>
    rw [loop]
    by_cases hzero : length = 0
    · rw [if_pos hzero]
      omega
    rw [if_neg hzero]
    have hmiddle : first + length / 2 < xs.length := by omega
    have hiff := hborder _ _ (List.getElem?_eq_getElem hmiddle)
    dsimp only
    rw [List.getElem?_eq_getElem hmiddle, Option.any_some]
    by_cases hbefore : before xs[first + length / 2] = true
    · rw [if_pos hbefore]
      have := hiff.mp hbefore
      exact ih _ (by omega) (by omega) (by omega) (by omega)
    · rw [if_neg hbefore]
      have : ¬first + length / 2 < border := fun h => hbefore (hiff.mpr h)
      exact ih _ (by omega) hle (by omega) (by omega)

/-- The search ends at the border. -/
theorem lowerBound_spec {border : Nat} (hborder : Border before xs border)
    (hle : border ≤ xs.length) : lowerBound before xs = border :=
  loop_eq hborder (Nat.zero_le _) (by omega) (by omega)

end LowerBound
