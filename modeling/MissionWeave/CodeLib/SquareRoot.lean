import Mathlib.FieldTheory.Finite.Basic
import Mathlib.NumberTheory.LegendreSymbol.Basic
import Mathlib.Tactic.LinearCombination

/-!
# Square roots modulo a prime

For a prime `p` with `p % 8 = 5` the power to `(p + 3) / 8` is a square root up
to the sign of its square, and a square root of `-1` mends the sign.

* `root_mul_self_iff`: the candidate is a square root of every square.
* `pow_sub_two`: the inverse as a power.
* `eq_of_mul_self_eq`: a square root below the modulus is fixed by its parity.
-/

namespace SquareRoot

variable {p : Nat} [Fact p.Prime]

/-- The candidate, with `i` a square root of `-1`. -/
def root (i w : ZMod p) : ZMod p :=
  if w ^ ((p + 3) / 8) * w ^ ((p + 3) / 8) = w then w ^ ((p + 3) / 8)
  else w ^ ((p + 3) / 8) * i

/-- The power is a root of the square or of its negative. -/
theorem pow_mul_self (hp : p % 8 = 5) {w : ZMod p} (hw : IsSquare w) :
    w ^ ((p + 3) / 8) * w ^ ((p + 3) / 8) = w ∨ w ^ ((p + 3) / 8) * w ^ ((p + 3) / 8) = -w := by
  by_cases hzero : w = 0
  · left
    rw [hzero, zero_pow (by omega), mul_zero]
  · have hquarter : w ^ ((p - 1) / 4) * w ^ ((p - 1) / 4) = 1 := by
      rw [← pow_add, show (p - 1) / 4 + (p - 1) / 4 = p / 2 by omega]
      exact (ZMod.euler_criterion p hzero).mp hw
    have hsplit : w ^ ((p + 3) / 8) * w ^ ((p + 3) / 8) = w * w ^ ((p - 1) / 4) := by
      rw [← pow_add, ← pow_succ']
      congr 1
      omega
    rw [hsplit]
    rcases mul_self_eq_one_iff.mp hquarter with hone | hneg
    · left
      rw [hone, mul_one]
    · right
      rw [hneg, mul_neg_one]

theorem root_mul_self_iff (hp : p % 8 = 5) {i : ZMod p} (hi : i * i = -1) (w : ZMod p) :
    root i w * root i w = w ↔ IsSquare w := by
  constructor
  · intro h
    exact ⟨root i w, h.symm⟩
  · intro hw
    unfold root
    split_ifs with h
    · exact h
    · have hneg := (pow_mul_self hp hw).resolve_left h
      linear_combination i * i * hneg - w * hi

/-- The inverse as a power. -/
theorem pow_sub_two {w : ZMod p} (hw : w ≠ 0) : w ^ (p - 2) = w⁻¹ := by
  have hp : 2 ≤ p := (Fact.out : p.Prime).two_le
  apply eq_inv_of_mul_eq_one_left
  rw [← pow_succ, show p - 2 + 1 = p - 1 by omega]
  exact ZMod.pow_card_sub_one_eq_one hw

/-- A square root below the modulus is fixed by its parity. -/
theorem eq_of_mul_self_eq (hodd : p % 2 = 1) {x z : Nat} (hx : x < p) (hz : z < p)
    (hparity : x % 2 = z % 2) (h : (x : ZMod p) * x = z * z) : x = z := by
  rcases mul_self_eq_mul_self_iff.mp h with heq | hneg
  · rw [ZMod.natCast_eq_natCast_iff', Nat.mod_eq_of_lt hx, Nat.mod_eq_of_lt hz] at heq
    exact heq
  · -- The other root is `p - z`, of the other parity.
    have hsum : ((x + z : Nat) : ZMod p) = 0 := by
      rw [Nat.cast_add, hneg]
      exact neg_add_cancel _
    rw [ZMod.natCast_eq_zero_iff] at hsum
    obtain ⟨k, hk⟩ := hsum
    have hlt : k < 2 := by
      by_contra hge
      have hle : p * 2 ≤ p * k := Nat.mul_le_mul_left p (Nat.not_lt.mp hge)
      omega
    interval_cases k
    · omega
    · omega

end SquareRoot
