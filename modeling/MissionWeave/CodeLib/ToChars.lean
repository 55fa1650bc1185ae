import MissionWeave.CodeLib.Binary64
import MissionWeave.CodeLib.Decimal
import Mathlib.Data.Nat.Prime.Basic
import Mathlib.Data.Nat.Factors

/-!
# `std::to_chars` of a `double`

The shortest decimal that rounds to a given binary64 value, and the text that
`std::to_chars` writes for it in the format `std::chars_format::general`.

`shortest` tries the decimals of 1, 2, 3, … significant digits next to the
value and takes the first that rounds back.  Seventeen digits are enough for
binary64.  The exact expansion stands behind the search, so that the result
rounds back without an appeal to that fact.

* `shortest_roundsTo`: the shortest decimal rounds to the value.
* `Decimal.value_strip`: trailing zeros do not matter.
* `exponent_shortest`: the exponent has at most three digits.
-/

namespace MissionWeave

/-- `significand * 10 ^ power`. -/
structure Decimal where
  significand : Nat
  power : Int
  deriving DecidableEq

def Decimal.value (d : Decimal) : ℚ := d.significand * 10 ^ d.power

/-- A positive decimal that rounds to the `double` that `q` rounds to. -/
def Decimal.RoundsTo (d : Decimal) (q : ℚ) : Prop := 0 < d.significand ∧ nearest d.value = nearest q

instance (d : Decimal) (q : ℚ) : Decidable (d.RoundsTo q) :=
  inferInstanceAs (Decidable (_ ∧ _))

/-- The decimal with `k` significant digits that is nearest to `q`, among the
two next to it that round to `q`. -/
def withDigits (q : ℚ) (k : Nat) : Option Decimal :=
  let power := Int.log 10 q + 1 - k
  let below := ⌊q / 10 ^ power⌋.toNat
  let rest := q / 10 ^ power - below
  let preferAbove := 1 / 2 < rest || (rest == 1 / 2 && below % 2 == 1)
  let candidates : List Decimal :=
    if preferAbove then [⟨below + 1, power⟩, ⟨below, power⟩]
    else [⟨below, power⟩, ⟨below + 1, power⟩]
  candidates.find? fun d => d.RoundsTo q

/-- The finite decimal expansion of a rational whose denominator is a power of
two. -/
def exactDecimal (q : ℚ) : Decimal :=
  ⟨q.num.toNat * 5 ^ Nat.log 2 q.den, -(Nat.log 2 q.den : Int)⟩

/-- The decimal without its trailing zeros, of which there are at most `count`. -/
def Decimal.strip : Nat → Decimal → Decimal
  | 0, d => d
  | count + 1, d =>
    if d.significand % 10 = 0 then strip count ⟨d.significand / 10, d.power + 1⟩ else d

/-- The shortest decimal that rounds to `q`, for positive `q`. -/
def shortest (q : ℚ) : Decimal :=
  match (List.range 17).findSome? fun k => withDigits q (k + 1) with
  | some d => d.strip 17
  | none => exactDecimal q

theorem withDigits_roundsTo {q : ℚ} {k : Nat} {d : Decimal} (h : withDigits q k = some d) :
    d.RoundsTo q := by
  have hfound := List.find?_some h
  exact of_decide_eq_true hfound

private theorem ten_zpow_succ (p : Int) : (10 : ℚ) ^ (p + 1) = 10 * 10 ^ p := by
  rw [zpow_add₀ (by norm_num), zpow_one, mul_comm]

theorem Decimal.value_strip (count : Nat) (d : Decimal) : (d.strip count).value = d.value := by
  induction count generalizing d with
  | zero => rfl
  | succ count ih =>
    rw [strip]
    split_ifs with h
    · have hdiv : d.significand = 10 * (d.significand / 10) := by omega
      rw [ih, value, value, ten_zpow_succ]
      conv_rhs => rw [hdiv]
      push_cast
      ring
    · rfl

theorem Decimal.strip_pos {count : Nat} {d : Decimal} (h : 0 < d.significand) :
    0 < (d.strip count).significand := by
  induction count generalizing d with
  | zero => exact h
  | succ count ih =>
    rw [strip]
    split_ifs with hmod
    · refine ih ?_
      change 0 < d.significand / 10
      omega
    · exact h

/-- The denominator of a binary64 value is a power of two. -/
theorem Representable.exists_den_eq {q : ℚ} (h : Representable q) : ∃ j, q.den = 2 ^ j := by
  obtain ⟨m, e, _, _, _, rfl⟩ := h
  have hdvd : ((m : ℚ) * 2 ^ e).den ∣ 2 ^ (-e).toNat := by
    rcases Int.le_total 0 e with he | he
    · have hint : (m : ℚ) * 2 ^ e = ((m * 2 ^ e.toNat : ℤ) : ℚ) := by
        push_cast
        rw [← zpow_natCast, Int.toNat_of_nonneg he]
      rw [hint, Rat.den_intCast]
      exact one_dvd _
    · have hdiv : (m : ℚ) * 2 ^ e = ((m : ℤ) : ℚ) / ((2 ^ (-e).toNat : ℤ) : ℚ) := by
        push_cast
        rw [← zpow_natCast, Int.toNat_of_nonneg (by omega), zpow_neg, div_inv_eq_mul]
      have hden := Rat.den_dvd m (2 ^ (-e).toNat)
      rw [Rat.divInt_eq_div, ← hdiv] at hden
      exact_mod_cast hden
  obtain ⟨j, _, hj⟩ := (Nat.dvd_prime_pow Nat.prime_two).mp hdvd
  exact ⟨j, hj⟩

theorem value_exactDecimal {q : ℚ} (hq : 0 < q) (h : Representable q) :
    (exactDecimal q).value = q := by
  obtain ⟨j, hj⟩ := h.exists_den_eq
  have hlog : Nat.log 2 q.den = j := by rw [hj, Nat.log_pow (by decide)]
  have hnum : ((q.num.toNat : ℕ) : ℚ) = q.num := by
    have := Int.toNat_of_nonneg (Rat.num_pos.mpr hq).le
    exact_mod_cast congrArg (Int.cast : ℤ → ℚ) this
  rw [exactDecimal, Decimal.value, hlog]
  push_cast
  rw [hnum, zpow_neg, zpow_natCast]
  conv_rhs => rw [← Rat.num_div_den q, hj]
  have hten : (10 : ℚ) ^ j = 2 ^ j * 5 ^ j := by rw [← mul_pow]; norm_num
  rw [hten]
  push_cast
  field_simp

theorem exactDecimal_pos {q : ℚ} (hq : 0 < q) : 0 < (exactDecimal q).significand := by
  have := Rat.num_pos.mpr hq
  exact Nat.mul_pos (by omega) (Nat.pow_pos (by decide))

/-- The shortest decimal of a positive binary64 value rounds to it. -/
theorem shortest_roundsTo {q : ℚ} (hq : 0 < q) (h : Representable q) :
    (shortest q).RoundsTo q := by
  rw [shortest]
  cases hfound : (List.range 17).findSome? fun k => withDigits q (k + 1) with
  | some d =>
    obtain ⟨k, _, hk⟩ := List.exists_of_findSome?_eq_some hfound
    obtain ⟨hpos, hnearest⟩ := withDigits_roundsTo hk
    exact ⟨Decimal.strip_pos hpos, by rw [Decimal.value_strip, hnearest]⟩
  | none => exact ⟨exactDecimal_pos hq, by rw [value_exactDecimal hq h]⟩

/-! ## The text -/

/-- The digits without an exponent. -/
def fixedText (digits : Bytes) (power : Int) : Bytes :=
  if 0 ≤ power then digits ++ List.replicate power.toNat Ascii.zero
  else if 0 < digits.length + power then
    digits.take (digits.length + power).toNat ++
      Ascii.point :: digits.drop (digits.length + power).toNat
  else
    Ascii.zero :: Ascii.point ::
      (List.replicate (-(digits.length + power)).toNat Ascii.zero ++ digits)

/-- A decimal exponent of at least two digits. -/
def exponentDigits (n : Nat) : Bytes := if n < 10 then Ascii.zero :: natText n else natText n

/-- The digits with an exponent. -/
def scientificText (digits : Bytes) (exponent : Int) : Bytes :=
  digits.take 1 ++ ((if 1 < digits.length then Ascii.point :: digits.drop 1 else []) ++
    Ascii.lowerE :: (if exponent < 0 then Ascii.minus else Ascii.plus) ::
      exponentDigits exponent.natAbs)

/-- The format `std::chars_format::general`. -/
def generalText (d : Decimal) : Bytes :=
  let digits := natText d.significand
  let exponent := (digits.length : Int) - 1 + d.power
  if -4 ≤ exponent ∧ exponent < 6 then fixedText digits d.power
  else scientificText digits exponent

/-- `std::to_chars(first, last, x, std::chars_format::general)` for a value
other than zero. -/
def toChars (x : Binary64) : Bytes :=
  if x.value < 0 then Ascii.minus :: generalText (shortest (-x.value))
  else generalText (shortest x.value)

/-! ## The range of the exponent -/

/-- The decimal exponent of the text in scientific notation. -/
def Decimal.exponent (d : Decimal) : Int := (natText d.significand).length - 1 + d.power

/-- A decimal lies between the powers of ten of its exponent. -/
theorem Decimal.value_bounds {d : Decimal} (h : 0 < d.significand) :
    10 ^ d.exponent ≤ d.value ∧ d.value < 10 ^ (d.exponent + 1) := by
  have hlength := List.length_pos_iff.mpr (natText_ne_nil d.significand)
  have hdigits : ∀ b ∈ natText d.significand, Ascii.isDigit b = true :=
    fun b hb => isDigit_of_mem_natText hb
  have hle := pow_le_digitsValue (natText_ne_nil _) hdigits (head?_natText_ne_zero h.ne')
  have hlt := digitsValue_lt hdigits
  rw [digitsValue_natText] at hle hlt
  have hpow : (0 : ℚ) < 10 ^ d.power := zpow_pos (by norm_num) _
  constructor
  · calc (10 : ℚ) ^ d.exponent
        = 10 ^ ((natText d.significand).length - 1 : Nat) * 10 ^ d.power := by
          rw [exponent, zpow_add₀ (by norm_num), ← zpow_natCast, Nat.cast_sub hlength, Nat.cast_one]
      _ ≤ d.value := mul_le_mul_of_nonneg_right (by exact_mod_cast hle) hpow.le
  · calc d.value < 10 ^ (natText d.significand).length * 10 ^ d.power :=
          mul_lt_mul_of_pos_right (by exact_mod_cast hlt) hpow
      _ = 10 ^ (d.exponent + 1) := by
          rw [← zpow_natCast, ← zpow_add₀ (by norm_num), exponent]
          congr 1
          omega

private theorem ten_zpow_le : (10 : ℚ) ^ (-324 : ℤ) ≤ 2 ^ (-1075 : ℤ) := by
  have hpow : 2 ^ 1075 ≤ 10 ^ 324 := by decide +kernel
  rw [zpow_neg, zpow_neg]
  exact inv_anti₀ (zpow_pos (by norm_num) _) (by exact_mod_cast hpow)

private theorem two_pow_le : (2 : ℚ) ^ 1024 ≤ 10 ^ (309 : ℤ) := by
  have hpow : 2 ^ 1024 ≤ 10 ^ 309 := by decide +kernel
  exact_mod_cast hpow

/-- The shortest decimal of a `double` has an exponent of at most three digits. -/
theorem exponent_shortest {q : ℚ} (hq : 0 < q) (h : Representable q) :
    (shortest q).exponent.natAbs ≤ 324 := by
  obtain ⟨hpos, hnearest⟩ := shortest_roundsTo hq h
  obtain ⟨hlow, hhigh⟩ := Decimal.value_bounds hpos
  have hvalue : 0 < (shortest q).value := (zpow_pos (by norm_num) _).trans_le hlow
  rw [nearest_value ⟨q, h⟩] at hnearest
  obtain ⟨hsmall, hlarge⟩ := range_of_nearest_eq hvalue hnearest hq.ne'
  have hlower : (10 : ℚ) ^ (-324 : ℤ) < 10 ^ ((shortest q).exponent + 1) := by
    calc (10 : ℚ) ^ (-324 : ℤ) ≤ 2 ^ (-1075 : ℤ) := ten_zpow_le
      _ ≤ (shortest q).value := hsmall
      _ < _ := hhigh
  have hupper : (10 : ℚ) ^ (shortest q).exponent < 10 ^ (309 : ℤ) := by
    calc (10 : ℚ) ^ (shortest q).exponent ≤ (shortest q).value := hlow
      _ < 2 ^ 1024 := hlarge
      _ ≤ _ := two_pow_le
  rw [zpow_lt_zpow_iff_right₀ (by norm_num)] at hlower hupper
  omega

end MissionWeave
