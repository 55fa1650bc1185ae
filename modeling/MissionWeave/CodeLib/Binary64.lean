import Mathlib.Data.Int.Log
import Mathlib.Data.Rat.Floor
import Mathlib.Tactic.Linarith
import Mathlib.Tactic.NormNum
import Mathlib.Tactic.FieldSimp
import Mathlib.Tactic.Ring
import Mathlib.Tactic.Positivity

/-!
# IEEE 754 binary64 values and correct rounding

A finite `double` is the rational number it denotes, packed with the proof
that binary64 has a datum of that value.  The two zeros are one value: no
function that is modelled here tells them apart.

`nearest` is correct rounding, ties to the even significand, with overflow to
an infinity.  It is what the conversion of a decimal text and the conversion
of an integer to `double` both compute.

* `nearest_value`: a representable rational rounds to itself.
* `nearest_intCast`: an integer of at most 53 bits rounds to itself.
* `le_abs_of_nearest_eq`: rounding does not bring an integer below a power of two
  that it reaches, from that range on.
-/

namespace MissionWeave

/-- The rationals that are binary64 values. -/
def Representable (q : ℚ) : Prop :=
  ∃ m e : ℤ, |m| < 2 ^ 53 ∧ -1074 ≤ e ∧ e ≤ 971 ∧ q = m * 2 ^ e

/-- A finite binary64 value. -/
structure Binary64 where
  value : ℚ
  representable : Representable value

theorem Binary64.ext {x y : Binary64} (h : x.value = y.value) : x = y := by
  cases x
  cases y
  cases h
  rfl

instance : DecidableEq Binary64 := fun x y =>
  decidable_of_iff (x.value = y.value) ⟨Binary64.ext, congrArg Binary64.value⟩

/-- A `double`. -/
inductive Double
  | finite (x : Binary64)
  | infinity (negative : Bool)
  | nan
  deriving DecidableEq

/-- `std::isfinite`. -/
def Double.isFinite : Double → Bool
  | .finite _ => true
  | _ => false

/-- `operator==` of `double`: NaN is not equal to itself. -/
def Double.equals : Double → Double → Bool
  | .finite x, .finite y => x == y
  | .infinity x, .infinity y => x == y
  | _, _ => false

/-! ## Rounding to an integer -/

/-- The nearest integer, the even one of two that are equally near. -/
def roundHalfEven (q : ℚ) : ℤ :=
  let below := ⌊q⌋
  let rest := q - below
  if rest < 1 / 2 then below
  else if 1 / 2 < rest then below + 1
  else if below % 2 = 0 then below else below + 1

/-- The two candidates, with what is known of the upper one. -/
theorem roundHalfEven_cases (q : ℚ) :
    roundHalfEven q = ⌊q⌋ ∨ roundHalfEven q = ⌊q⌋ + 1 ∧ (⌊q⌋ : ℚ) < q := by
  simp only [roundHalfEven]
  split_ifs with h1 h2 h3
  · exact Or.inl rfl
  · exact Or.inr ⟨rfl, by linarith⟩
  · exact Or.inl rfl
  · exact Or.inr ⟨rfl, by linarith⟩

@[simp] theorem roundHalfEven_intCast (n : ℤ) : roundHalfEven n = n := by
  rcases roundHalfEven_cases (n : ℚ) with h | ⟨_, h⟩
  · simpa using h
  · simp at h

theorem le_roundHalfEven {n : ℤ} {q : ℚ} (h : (n : ℚ) ≤ q) : n ≤ roundHalfEven q := by
  have hfloor : n ≤ ⌊q⌋ := Int.le_floor.mpr h
  rcases roundHalfEven_cases q with heq | ⟨heq, _⟩ <;> omega

theorem roundHalfEven_le {n : ℤ} {q : ℚ} (h : q ≤ n) : roundHalfEven q ≤ n := by
  have hfloor : ⌊q⌋ ≤ n := by exact_mod_cast (Int.floor_le q).trans h
  rcases roundHalfEven_cases q with heq | ⟨heq, hlt⟩
  · omega
  · have : ⌊q⌋ < n := by exact_mod_cast hlt.trans_le h
    omega

/-! ## Rounding a positive rational -/

/-- The exponent of the last place of `q`, for positive `q`. -/
def lastPlace (q : ℚ) : ℤ := max (-1074) (Int.log 2 q - 52)

/-- A positive rational rounded to its last place, before the overflow test. -/
def roundPositive (q : ℚ) : ℚ :=
  roundHalfEven (q / 2 ^ lastPlace q) * 2 ^ lastPlace q

private theorem two_zpow_pos (e : ℤ) : (0 : ℚ) < 2 ^ e := zpow_pos (by norm_num) e

private theorem two_pow_mul_zpow (k : ℕ) (e : ℤ) : (2 : ℚ) ^ k * 2 ^ e = 2 ^ (k + e) := by
  rw [zpow_add₀ (by norm_num), zpow_natCast]

/-- The power of two at which binary64 overflows. -/
private theorem overflow_eq : (2 : ℚ) ^ 52 * 2 ^ (972 : ℤ) = 2 ^ 1024 := by
  rw [two_pow_mul_zpow, ← zpow_natCast]
  rfl

theorem lastPlace_ge (q : ℚ) : -1074 ≤ lastPlace q := le_max_left _ _

/-- Below the subnormal range the significand fits in 53 bits. -/
theorem div_lastPlace_lt (q : ℚ) : q / 2 ^ lastPlace q < 2 ^ 53 := by
  have hlog : q < (2 : ℚ) ^ (Int.log 2 q + 1) := by
    exact_mod_cast Int.lt_zpow_succ_log_self (by decide : 1 < 2) q
  rw [div_lt_iff₀ (two_zpow_pos _)]
  calc q < (2 : ℚ) ^ (Int.log 2 q + 1) := hlog
    _ ≤ 2 ^ (53 + lastPlace q) := by
        apply zpow_le_zpow_right₀ (by norm_num)
        have := le_max_right (-1074) (Int.log 2 q - 52)
        rw [lastPlace]
        omega
    _ = 2 ^ 53 * 2 ^ lastPlace q := (two_pow_mul_zpow 53 _).symm

/-- Above the subnormal range the significand has its leading bit. -/
theorem le_div_lastPlace {q : ℚ} (hq : 0 < q) (h : -1074 < lastPlace q) :
    2 ^ 52 ≤ q / 2 ^ lastPlace q := by
  have hlog : (2 : ℚ) ^ Int.log 2 q ≤ q := by
    exact_mod_cast Int.zpow_log_le_self (by decide : 1 < 2) hq
  have hplace : lastPlace q = Int.log 2 q - 52 := by
    rw [lastPlace] at h ⊢
    omega
  rw [le_div_iff₀ (two_zpow_pos _)]
  calc (2 : ℚ) ^ 52 * 2 ^ lastPlace q = 2 ^ (52 + lastPlace q) := two_pow_mul_zpow 52 _
    _ = 2 ^ Int.log 2 q := by
        rw [hplace]
        congr 1
        omega
    _ ≤ q := hlog

private theorem significand_le (q : ℚ) : roundHalfEven (q / 2 ^ lastPlace q) ≤ 2 ^ 53 := by
  apply roundHalfEven_le
  exact_mod_cast (div_lastPlace_lt q).le

private theorem significand_nonneg {q : ℚ} (hq : 0 < q) :
    0 ≤ roundHalfEven (q / 2 ^ lastPlace q) := by
  apply le_roundHalfEven
  rw [Int.cast_zero]
  exact (div_pos hq (two_zpow_pos _)).le

private theorem lastPlace_lt_of_round_lt {q : ℚ} (hq : 0 < q) (h : roundPositive q < 2 ^ 1024) :
    lastPlace q ≤ 971 := by
  by_contra hlarge
  have hsig : (2 : ℤ) ^ 52 ≤ roundHalfEven (q / 2 ^ lastPlace q) := by
    apply le_roundHalfEven
    exact_mod_cast le_div_lastPlace hq (by omega)
  have hround : (2 : ℚ) ^ 52 * 2 ^ (972 : ℤ) ≤ roundPositive q := by
    rw [roundPositive]
    apply mul_le_mul _ _ (two_zpow_pos _).le (by exact_mod_cast significand_nonneg hq)
    · exact_mod_cast hsig
    · exact zpow_le_zpow_right₀ (by norm_num) (by omega)
  rw [overflow_eq] at hround
  exact absurd h (not_lt.mpr hround)

/-- What `roundPositive` returns below the overflow threshold is a value. -/
theorem representable_roundPositive {q : ℚ} (hq : 0 < q) (h : roundPositive q < 2 ^ 1024) :
    Representable (roundPositive q) := by
  have hplace := lastPlace_lt_of_round_lt hq h
  have hlow := lastPlace_ge q
  have hle := significand_le q
  have hnonneg := significand_nonneg hq
  rcases lt_or_eq_of_le hle with hlt | heq
  · exact ⟨_, _, by rwa [abs_of_nonneg hnonneg], hlow, hplace, rfl⟩
  · -- the significand was rounded up to a power of two
    have hvalue : roundPositive q = ((2 ^ 52 : ℤ) : ℚ) * 2 ^ (lastPlace q + 1) := by
      rw [roundPositive, heq, zpow_add₀ (by norm_num)]
      push_cast
      ring
    have hplace' : lastPlace q + 1 ≤ 971 := by
      by_contra hlarge
      have heq971 : lastPlace q = 971 := by omega
      rw [hvalue, heq971, ← overflow_eq] at h
      norm_num at h
    exact ⟨2 ^ 52, lastPlace q + 1, by norm_num, by omega, hplace', hvalue⟩

theorem Representable.neg {q : ℚ} (h : Representable q) : Representable (-q) := by
  obtain ⟨m, e, hm, hlo, hhi, rfl⟩ := h
  exact ⟨-m, e, by rwa [abs_neg], hlo, hhi, by push_cast; ring⟩

theorem representable_zero : Representable 0 :=
  ⟨0, 0, by norm_num, by norm_num, by norm_num, by norm_num⟩

/-! ## Rounding to binary64 -/

/-- The `double` nearest to a rational. -/
def nearest (q : ℚ) : Double :=
  if hq : 0 < q then
    if h : roundPositive q < 2 ^ 1024 then
      .finite ⟨roundPositive q, representable_roundPositive hq h⟩
    else .infinity false
  else if hq : q < 0 then
    if h : roundPositive (-q) < 2 ^ 1024 then
      .finite ⟨-roundPositive (-q), (representable_roundPositive (neg_pos.mpr hq) h).neg⟩
    else .infinity true
  else .finite ⟨0, representable_zero⟩

/-- A positive value is a whole number of units in its last place. -/
theorem roundPositive_of_representable {q : ℚ} (hq : 0 < q) (h : Representable q) :
    roundPositive q = q := by
  obtain ⟨m, e, hm, hlo, _, rfl⟩ := h
  have hle : lastPlace ((m : ℚ) * 2 ^ e) ≤ e := by
    have hlt : (m : ℚ) * 2 ^ e < ((2 : ℕ) : ℚ) ^ (53 + e) := by
      rw [Nat.cast_ofNat, zpow_add₀ (by norm_num)]
      apply mul_lt_mul_of_pos_right _ (two_zpow_pos e)
      have : (m : ℚ) < 2 ^ 53 := by exact_mod_cast (abs_lt.mp hm).2
      exact_mod_cast this
    have hlog := (Int.lt_zpow_iff_log_lt (by decide : 1 < 2) hq).mp hlt
    rw [lastPlace]
    omega
  have hwhole : (m : ℚ) * 2 ^ e / 2 ^ lastPlace ((m : ℚ) * 2 ^ e) =
      ((m * 2 ^ (e - lastPlace ((m : ℚ) * 2 ^ e)).toNat : ℤ) : ℚ) := by
    generalize lastPlace ((m : ℚ) * 2 ^ e) = place at hle ⊢
    rw [div_eq_iff (two_zpow_pos place).ne']
    push_cast
    rw [mul_assoc, ← zpow_natCast (2 : ℚ), ← zpow_add₀ (by norm_num),
      Int.toNat_of_nonneg (by omega)]
    congr 2
    omega
  rw [roundPositive, hwhole, roundHalfEven_intCast, ← hwhole,
    div_mul_cancel₀ _ (two_zpow_pos _).ne']

theorem Representable.abs_lt {q : ℚ} (h : Representable q) : |q| < 2 ^ 1024 := by
  obtain ⟨m, e, hm, _, hhi, rfl⟩ := h
  rw [abs_mul, abs_of_pos (two_zpow_pos e)]
  have hm' : |(m : ℚ)| < 2 ^ 53 := by exact_mod_cast hm
  calc |(m : ℚ)| * 2 ^ e < 2 ^ 53 * 2 ^ e := mul_lt_mul_of_pos_right hm' (two_zpow_pos e)
    _ ≤ 2 ^ 53 * 2 ^ (971 : ℤ) := by
        apply mul_le_mul_of_nonneg_left _ (by norm_num)
        exact zpow_le_zpow_right₀ (by norm_num) hhi
    _ = 2 ^ 1024 := by
        rw [two_pow_mul_zpow, ← zpow_natCast]
        rfl

/-- A binary64 value rounds to itself. -/
theorem nearest_value (x : Binary64) : nearest x.value = .finite x := by
  have habs := x.representable.abs_lt
  unfold nearest
  split_ifs with hpos hlt hneg hlt
  · simp only [Double.finite.injEq]
    exact Binary64.ext (roundPositive_of_representable hpos x.representable)
  · rw [roundPositive_of_representable hpos x.representable] at hlt
    exact absurd ((le_abs_self _).trans_lt habs) hlt
  · simp only [Double.finite.injEq]
    apply Binary64.ext
    change -roundPositive (-x.value) = x.value
    rw [roundPositive_of_representable (neg_pos.mpr hneg) x.representable.neg, neg_neg]
  · rw [roundPositive_of_representable (neg_pos.mpr hneg) x.representable.neg] at hlt
    exact absurd ((neg_le_abs _).trans_lt habs) hlt
  · simp only [Double.finite.injEq]
    exact Binary64.ext (by linarith)

def Binary64.neg (x : Binary64) : Binary64 := ⟨-x.value, x.representable.neg⟩

/-- Rounding is symmetric. -/
theorem nearest_neg {q : ℚ} {x : Binary64} (h : nearest q = .finite x) :
    nearest (-q) = .finite x.neg := by
  unfold nearest at h
  split_ifs at h with hpos hlt hneg hlt
  · cases h
    have hround : roundPositive (- -q) < 2 ^ 1024 := by rwa [neg_neg]
    rw [nearest, dif_neg (by linarith), dif_pos (by linarith), dif_pos hround]
    simp only [Double.finite.injEq]
    exact Binary64.ext (by simp only [Binary64.neg, neg_neg])
  · cases h
    rw [nearest, dif_pos (by linarith), dif_pos hlt]
    simp only [Double.finite.injEq]
    exact Binary64.ext (by simp only [Binary64.neg, neg_neg])
  · cases h
    rw [nearest, dif_neg (by linarith), dif_neg (by linarith)]
    simp only [Double.finite.injEq]
    exact Binary64.ext (by simp only [Binary64.neg, neg_zero])

/-! ## Integers -/

theorem representable_intCast {n : ℤ} (h : |n| < 2 ^ 53) : Representable n :=
  ⟨n, 0, h, by norm_num, by norm_num, by norm_num⟩

/-- An integer of at most 53 bits rounds to itself. -/
theorem nearest_intCast {n : ℤ} (h : |n| < 2 ^ 53) :
    nearest n = .finite ⟨n, representable_intCast h⟩ :=
  nearest_value ⟨n, representable_intCast h⟩

theorem le_roundPositive {k : ℕ} (hk : 53 ≤ k) {q : ℚ} (h : 2 ^ k ≤ q) :
    2 ^ k ≤ roundPositive q := by
  have hq : 0 < q := lt_of_lt_of_le (by positivity) h
  have hlog : (k : ℤ) ≤ Int.log 2 q := by
    apply (Int.zpow_le_iff_le_log (by decide : 1 < 2) hq).mp
    exact_mod_cast h
  have hplace : (k : ℤ) - 52 ≤ lastPlace q := by
    rw [lastPlace]
    omega
  have hsig : (2 : ℤ) ^ 52 ≤ roundHalfEven (q / 2 ^ lastPlace q) := by
    apply le_roundHalfEven
    exact_mod_cast le_div_lastPlace hq (by omega)
  calc (2 : ℚ) ^ k = 2 ^ 52 * 2 ^ ((k : ℤ) - 52) := by
        rw [two_pow_mul_zpow, ← zpow_natCast]
        congr 1
        omega
    _ ≤ roundPositive q := by
        rw [roundPositive]
        apply mul_le_mul _ _ (two_zpow_pos _).le (by exact_mod_cast significand_nonneg hq)
        · exact_mod_cast hsig
        · exact zpow_le_zpow_right₀ (by norm_num) hplace

/-- A positive rational below half of the smallest value rounds to zero. -/
theorem roundPositive_eq_zero {q : ℚ} (hq : 0 < q) (h : q < 2 ^ (-1075 : ℤ)) :
    roundPositive q = 0 := by
  have hlog : Int.log 2 q < -1075 := (Int.lt_zpow_iff_log_lt (by decide : 1 < 2) hq).mp h
  have hplace : lastPlace q = -1074 := by
    rw [lastPlace]
    omega
  have hhalf : q / 2 ^ (-1074 : ℤ) < 1 / 2 := by
    rw [div_lt_iff₀ (two_zpow_pos _)]
    calc q < 2 ^ (-1075 : ℤ) := h
      _ = 1 / 2 * 2 ^ (-1074 : ℤ) := by
          rw [show (-1075 : ℤ) = -1074 - 1 by norm_num, zpow_sub_one₀ (by norm_num)]
          ring
  have hfloor : ⌊q / 2 ^ (-1074 : ℤ)⌋ = 0 :=
    Int.floor_eq_zero_iff.mpr ⟨(div_pos hq (two_zpow_pos _)).le, hhalf.trans (by norm_num)⟩
  have hsig : roundHalfEven (q / 2 ^ (-1074 : ℤ)) = 0 := by
    rw [roundHalfEven, hfloor, Int.cast_zero, sub_zero, if_pos hhalf]
  rw [roundPositive, hplace, hsig, Int.cast_zero, zero_mul]

/-- The positive rationals that round to a finite value other than zero. -/
theorem range_of_nearest_eq {q : ℚ} (hq : 0 < q) {x : Binary64} (h : nearest q = .finite x)
    (hx : x.value ≠ 0) : 2 ^ (-1075 : ℤ) ≤ q ∧ q < 2 ^ 1024 := by
  rw [nearest, dif_pos hq] at h
  split_ifs at h with hlt
  cases h
  constructor
  · by_contra hsmall
    exact hx (roundPositive_eq_zero hq (not_le.mp hsmall))
  · by_contra hlarge
    exact absurd hlt (not_lt.mpr (le_roundPositive (by norm_num) (not_lt.mp hlarge)))

/-- Rounding brings no integer below a power of two that it reaches, if that is
beyond the range of 53 bits. -/
theorem le_abs_of_nearest_eq {k : ℕ} (hk : 53 ≤ k) {n : ℤ} {x : Binary64} (hn : 2 ^ k ≤ |n|)
    (h : nearest n = .finite x) : 2 ^ k ≤ |x.value| := by
  unfold nearest at h
  split_ifs at h with hpos hlt hneg hlt
  · cases h
    rw [abs_of_pos (by exact_mod_cast hpos)] at hn
    exact (le_roundPositive hk (by exact_mod_cast hn)).trans (le_abs_self _)
  · cases h
    rw [abs_of_neg (by exact_mod_cast hneg)] at hn
    simp only [abs_neg]
    exact (le_roundPositive hk (by exact_mod_cast hn)).trans (le_abs_self _)
  · have hzero : n = 0 := by
      have h1 : ¬ 0 < n := by exact_mod_cast hpos
      have h2 : ¬ n < 0 := by exact_mod_cast hneg
      omega
    rw [hzero, abs_zero] at hn
    exact absurd hn (not_le.mpr (by positivity))

/-- Two integers with the same nearest `double` are equal, if one of them has
at most 53 bits. -/
theorem eq_of_nearest_eq {m n : ℤ} (hm : |m| < 2 ^ 53) (h : nearest m = nearest n) :
    m = n := by
  rw [nearest_intCast hm] at h
  have hn : |n| < 2 ^ 53 := by
    by_contra hlarge
    have := le_abs_of_nearest_eq (Nat.le_refl 53) (not_lt.mp hlarge) h.symm
    have hm' : |(m : ℚ)| < 2 ^ 53 := by exact_mod_cast hm
    exact absurd this (not_le.mpr hm')
  rw [nearest_intCast hn] at h
  simp only [Double.finite.injEq, Binary64.mk.injEq] at h
  exact_mod_cast h

end MissionWeave
