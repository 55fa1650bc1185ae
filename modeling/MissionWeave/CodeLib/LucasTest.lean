import MissionWeave.CodeLib.ModularPower
import Mathlib.FieldTheory.Finite.Basic
import Mathlib.NumberTheory.LucasPrimality

/-!
# Tests on large numbers

What modular powers decide.

* `prime_of_witness`: a number is prime when a witness passes the test of Lucas
  for the prime factors of its predecessor.
* `not_isSquare_of_power`: a number without the power of a square is none.
-/

namespace ModularPower

theorem cast_power {modulus : Nat} (h : 1 < modulus) (value exponent : Nat) :
    ((power modulus value exponent : Nat) : ZMod modulus) = (value : ZMod modulus) ^ exponent := by
  rw [power_eq h, ZMod.natCast_mod, Nat.cast_pow]

/-- A power is one in the field when it is one as a number. -/
theorem pow_eq_one_iff {modulus : Nat} (h : 1 < modulus) (value exponent : Nat) :
    (value : ZMod modulus) ^ exponent = 1 ↔ power modulus value exponent = 1 := by
  have hone : ((1 : Nat) : ZMod modulus) = 1 := Nat.cast_one
  rw [← cast_power h, ← hone, ZMod.natCast_eq_natCast_iff', power_eq h, Nat.mod_mod,
    Nat.mod_eq_of_lt h]

/-! ## Primality -/

/-- The test of Lucas: the factors make up the predecessor, and the witness has
the full order. -/
def Passes (p witness : Nat) (factors : List Nat) : Prop :=
  1 < p ∧ factors.prod = p - 1 ∧ power p witness (p - 1) = 1 ∧
    ∀ q ∈ factors, power p witness ((p - 1) / q) ≠ 1

instance (p witness : Nat) (factors : List Nat) : Decidable (Passes p witness factors) :=
  inferInstanceAs (Decidable (_ ∧ _ ∧ _ ∧ _))

theorem prime_of_witness {p : Nat} (witness : Nat) (factors : List Nat)
    (hfactors : factors.Forall Nat.Prime) (h : Passes p witness factors) : p.Prime := by
  rw [List.forall_iff_forall_mem] at hfactors
  obtain ⟨hp, hprod, hfull, hpart⟩ := h
  apply lucas_primality p (witness : ZMod p)
  · exact (pow_eq_one_iff hp _ _).mpr hfull
  · intro q hq hdvd
    rw [← hprod] at hdvd
    obtain ⟨r, hr, hqr⟩ := (Prime.dvd_prod_iff hq.prime).mp hdvd
    have heq : q = r := (Nat.prime_dvd_prime_iff_eq hq (hfactors r hr)).mp hqr
    rw [heq, ne_eq, pow_eq_one_iff hp]
    exact hpart r hr

/-! ## Squares -/

/-- The power of a square to half the order is one, or the number is zero. -/
theorem not_isSquare_of_power {p : Nat} [hp : Fact p.Prime] {value : Nat}
    (hzero : (value : ZMod p) ≠ 0) (h : power p value ((p - 1) / 2) ≠ 1) (hodd : p % 2 = 1) :
    ¬IsSquare (value : ZMod p) := by
  rintro ⟨root, hroot⟩
  have hne : root ≠ 0 := by
    intro heq
    rw [heq, mul_zero] at hroot
    exact hzero hroot
  apply h
  rw [← pow_eq_one_iff hp.out.one_lt, hroot, ← pow_two, ← pow_mul,
    show 2 * ((p - 1) / 2) = p - 1 by omega]
  exact ZMod.pow_card_sub_one_eq_one hne

end ModularPower
