import Mathlib.Data.Nat.ModEq
import Mathlib.Data.Nat.Log
import Mathlib.Tactic.Ring

/-!
# Modular powers

Square and multiply, low bit first.

* `loop_eq`: what the loop computes over the low bits of the exponent.
* `power_eq`: the power, with enough bits.
-/

namespace ModularPower

/-- Square and multiply over the low `count` bits of the exponent. -/
def loop (modulus exponent : Nat) : Nat → Nat → Nat → Nat
  | 0, _, result => result
  | count + 1, value, result =>
    loop modulus (exponent / 2) count (value * value % modulus)
      (if exponent % 2 = 1 then result * value % modulus else result)

theorem loop_eq (modulus exponent count value result : Nat) (h : exponent < 2 ^ count)
    (hresult : result < modulus) :
    loop modulus exponent count value result = result * value ^ exponent % modulus := by
  induction count generalizing exponent value result with
  | zero =>
    rw [pow_zero, Nat.lt_one_iff] at h
    rw [loop, h, pow_zero, Nat.mul_one, Nat.mod_eq_of_lt hresult]
  | succ count ih =>
    have hhalf : exponent / 2 < 2 ^ count := by
      rw [pow_succ] at h
      omega
    have hpow : value ^ exponent = value ^ (exponent % 2) * (value * value) ^ (exponent / 2) := by
      rw [← pow_two, ← pow_mul, ← pow_add, Nat.mod_add_div]
    have hsquare : value * value % modulus ≡ value * value [MOD modulus] := Nat.mod_modEq _ _
    have hpos : 0 < modulus := Nat.zero_lt_of_lt hresult
    rw [loop]
    by_cases hodd : exponent % 2 = 1
    · rw [if_pos hodd, ih _ _ _ hhalf (Nat.mod_lt _ hpos), hpow, hodd, pow_one, ← Nat.mul_assoc]
      exact (Nat.mod_modEq _ _).mul (hsquare.pow _)
    · have heven : exponent % 2 = 0 := by omega
      rw [if_neg hodd, ih _ _ _ hhalf hresult, hpow, heven, pow_zero, Nat.one_mul]
      exact Nat.ModEq.mul_left _ (hsquare.pow _)

def power (modulus value exponent : Nat) : Nat :=
  loop modulus exponent (exponent.log2 + 1) (value % modulus) 1

theorem power_eq {modulus : Nat} (h : 1 < modulus) (value exponent : Nat) :
    power modulus value exponent = value ^ exponent % modulus := by
  rw [power, loop_eq _ _ _ _ _ Nat.lt_log2_self h, Nat.one_mul, ← Nat.pow_mod]

end ModularPower
