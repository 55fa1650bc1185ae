import MissionWeave.Registry.Spec
import MissionWeave.SignedDocument.InstantSpec

/-!
# The numeric order of instants

`ExactInstant::operator<=>` compares digit by digit and pads the shorter
fraction with zeros.  On decimal digits this is the order of the rational
numbers of seconds, for fractions of any lengths.

* `compareDigits_eq`: one run of the loop compares the numbers that the
  digits it visits stand for.
* `exactInstant_numeric`: the comparison and the equalities of the registry
  are those of the rational numbers.
-/

namespace MissionWeave

open ExactInstant (digitAt compareDigits)

/-- The fraction is a string of decimal digits, with or without trailing
zeros. -/
def ExactInstant.Decimal (instant : ExactInstant) : Prop :=
  ∀ b ∈ instant.fractionalDigits, Ascii.isDigit b = true

instance (instant : ExactInstant) : Decidable instant.Decimal :=
  List.decidableBAll _ instant.fractionalDigits

/-! ## The digits that the loop visits -/

/-- The number that `count` digits from an index on stand for. -/
def digitsFrom (digits : Bytes) : Nat → Nat → Nat
  | 0, _ => 0
  | count + 1, index =>
    ((digitAt digits index).toNat - 0x30) * 10 ^ count + digitsFrom digits count (index + 1)

/-- All digits at hand are decimal, those behind the end included. -/
def DecimalAt (digits : Bytes) : Prop :=
  ∀ i, 0x30 ≤ (digitAt digits i).toNat ∧ (digitAt digits i).toNat ≤ 0x39

theorem decimalAt {digits : Bytes} (h : ∀ b ∈ digits, Ascii.isDigit b = true) :
    DecimalAt digits := by
  intro i
  by_cases hi : i < digits.length
  · have hdigit := h _ (List.getElem_mem hi)
    rw [digitAt, List.getD_eq_getElem _ _ hi]
    simp only [Ascii.isDigit, Bool.and_eq_true, decide_eq_true_eq,
      UInt8.le_iff_toNat_le] at hdigit
    exact hdigit
  · rw [ExactInstant.digitAt_of_length_le (by omega)]
    decide

theorem digitsFrom_lt {digits : Bytes} (h : DecimalAt digits) (count index : Nat) :
    digitsFrom digits count index < 10 ^ count := by
  induction count generalizing index with
  | zero => exact Nat.one_pos
  | succ count ih =>
    have hdigit := h index
    have hrest := ih (index + 1)
    have hhead : ((digitAt digits index).toNat - 0x30) * 10 ^ count ≤ 9 * 10 ^ count :=
      Nat.mul_le_mul_right _ (by omega)
    rw [digitsFrom, pow_succ]
    omega

/-- Behind the first digit the loop visits those of the rest. -/
theorem digitsFrom_cons (d : UInt8) (ds : Bytes) (count index : Nat) :
    digitsFrom (d :: ds) count (index + 1) = digitsFrom ds count index := by
  induction count generalizing index with
  | zero => rfl
  | succ count ih =>
    rw [digitsFrom, digitsFrom, ih]
    rfl

theorem digitsFrom_nil (count index : Nat) : digitsFrom [] count index = 0 := by
  induction count generalizing index with
  | zero => rfl
  | succ count ih =>
    rw [digitsFrom, ih]
    show (0x30 - 0x30) * 10 ^ count + 0 = 0
    rw [Nat.sub_self, Nat.zero_mul]

/-- All digits, and zeros behind them. -/
theorem digitsFrom_eq (digits : Bytes) (padding : Nat) :
    digitsFrom digits (digits.length + padding) 0 = digitsValue digits * 10 ^ padding := by
  induction digits with
  | nil =>
    rw [digitsFrom_nil]
    simp [digitsValue]
  | cons d ds ih =>
    have hvalue : digitsValue (d :: ds) = (d.toNat - 0x30) * 10 ^ ds.length + digitsValue ds := by
      rw [← List.singleton_append, digitsValue_append]
      simp [digitsValue]
    rw [List.length_cons, Nat.add_right_comm, digitsFrom, digitsFrom_cons, ih, hvalue, pow_add]
    show (d.toNat - 0x30) * _ + _ = _
    ring

theorem compare_add_left (a x y : Nat) : compare (a + x) (a + y) = compare x y := by
  rcases Nat.lt_trichotomy x y with h | h | h
  · rw [Nat.compare_eq_lt.mpr h, Nat.compare_eq_lt.mpr (by omega)]
  · rw [Nat.compare_eq_eq.mpr h, Nat.compare_eq_eq.mpr (by omega)]
  · rw [Nat.compare_eq_gt.mpr h, Nat.compare_eq_gt.mpr (by omega)]

/-- A smaller leading digit makes a smaller number. -/
theorem leading_lt {a b x y power : Nat} (h : a < b) (hx : x < power) :
    a * power + x < b * power + y := by
  have hmul : (a + 1) * power ≤ b * power := Nat.mul_le_mul_right _ h
  rw [Nat.add_mul, Nat.one_mul] at hmul
  omega

/-- One run of the loop compares the numbers that the digits stand for. -/
theorem compareDigits_eq {left right : Bytes} (hl : DecimalAt left) (hr : DecimalAt right)
    (count index : Nat) :
    compareDigits left right count index =
      compare (digitsFrom left count index) (digitsFrom right count index) := by
  induction count generalizing index with
  | zero => rfl
  | succ count ih =>
    have hldigit := (hl index).1
    have hrdigit := (hr index).1
    rw [compareDigits, digitsFrom, digitsFrom]
    rcases Nat.lt_trichotomy (digitAt left index).toNat (digitAt right index).toNat with
      hlt | heq | hgt
    · have hbyte : compare (digitAt left index) (digitAt right index) = .lt :=
        Std.compare_eq_lt.mpr (UInt8.lt_iff_toNat_lt.mpr hlt)
      rw [hbyte]
      exact (Nat.compare_eq_lt.mpr (leading_lt (by omega) (digitsFrom_lt hl _ _))).symm
    · have hbyte : compare (digitAt left index) (digitAt right index) = .eq :=
        Std.LawfulEqCmp.compare_eq_iff_eq.mpr (UInt8.toNat_inj.mp heq)
      rw [hbyte, heq, compare_add_left]
      exact ih (index + 1)
    · have hbyte : compare (digitAt left index) (digitAt right index) = .gt :=
        Std.compare_eq_gt.mpr (UInt8.lt_iff_toNat_lt.mpr hgt)
      rw [hbyte]
      exact (Nat.compare_eq_gt.mpr (leading_lt (by omega) (digitsFrom_lt hr _ _))).symm

/-! ## Instants -/

/-- The fraction as a number of units of `10 ^ -width`. -/
def scaled (digits : Bytes) (width : Nat) : Nat := digitsValue digits * 10 ^ (width - digits.length)

theorem digitsFrom_scaled {digits : Bytes} {width : Nat} (h : digits.length ≤ width) :
    digitsFrom digits width 0 = scaled digits width := by
  have heq := digitsFrom_eq digits (width - digits.length)
  rwa [Nat.add_sub_cancel' h] at heq

theorem fractionValue_eq {digits : Bytes} {width : Nat} (h : digits.length ≤ width) :
    fractionValue digits = scaled digits width / 10 ^ width := by
  obtain ⟨padding, rfl⟩ := Nat.exists_eq_add_of_le h
  have hpow : (10 : ℚ) ^ padding ≠ 0 := pow_ne_zero _ (by norm_num)
  rw [fractionValue, scaled, Nat.add_sub_cancel_left, pow_add]
  push_cast
  rw [mul_div_mul_right _ _ hpow]

theorem scaled_lt {digits : Bytes} {width : Nat} (hdigits : ∀ b ∈ digits, Ascii.isDigit b = true)
    (h : digits.length ≤ width) : scaled digits width < 10 ^ width := by
  rw [← digitsFrom_scaled h]
  exact digitsFrom_lt (decimalAt hdigits) width 0

/-- An instant as a number of units of `10 ^ -width`. -/
def ExactInstant.units (instant : ExactInstant) (width : Nat) : Int :=
  instant.epochSecond * 10 ^ width + scaled instant.fractionalDigits width

namespace ExactInstant

variable {left right : ExactInstant}

theorem value_eq {instant : ExactInstant} {width : Nat}
    (h : instant.fractionalDigits.length ≤ width) :
    instant.value = instant.units width / 10 ^ width := by
  have hpow : (10 : ℚ) ^ width ≠ 0 := pow_ne_zero _ (by norm_num)
  rw [value, fractionValue_eq h, units]
  push_cast
  rw [add_div, mul_div_cancel_right₀ _ hpow]

/-- A smaller second makes a smaller number of units. -/
theorem units_lt {width : Nat} (h : left.epochSecond < right.epochSecond)
    (hscaled : scaled left.fractionalDigits width < 10 ^ width) :
    left.units width < right.units width := by
  have hpow : (0 : Int) ≤ 10 ^ width := pow_nonneg (by norm_num) _
  have hmul : (left.epochSecond + 1) * 10 ^ width ≤ right.epochSecond * 10 ^ width :=
    mul_le_mul_of_nonneg_right (by omega) hpow
  have hlt : (scaled left.fractionalDigits width : Int) < 10 ^ width := by exact_mod_cast hscaled
  rw [add_mul, one_mul] at hmul
  rw [units, units]
  omega

/-- Instants compare as numbers of a common unit. -/
theorem order_eq (hl : left.Decimal) (hr : right.Decimal) {width : Nat}
    (hwidth : width = max left.fractionalDigits.length right.fractionalDigits.length) :
    left.order right = compare (left.units width) (right.units width) := by
  have hlwidth : left.fractionalDigits.length ≤ width := by omega
  have hrwidth : right.fractionalDigits.length ≤ width := by omega
  rw [order, ← hwidth, compareDigits_eq (decimalAt hl) (decimalAt hr), digitsFrom_scaled hlwidth,
    digitsFrom_scaled hrwidth]
  rcases lt_trichotomy left.epochSecond right.epochSecond with hlt | heq | hgt
  · rw [compare_lt_iff_lt.mpr hlt, compare_lt_iff_lt.mpr (units_lt hlt (scaled_lt hl hlwidth))]
    rfl
  · rw [compare_eq_iff_eq.mpr heq, Ordering.then, units, units, heq]
    rcases Nat.lt_trichotomy (scaled left.fractionalDigits width)
      (scaled right.fractionalDigits width) with h | h | h
    · rw [Nat.compare_eq_lt.mpr h, compare_lt_iff_lt.mpr (by omega)]
    · rw [Nat.compare_eq_eq.mpr h, compare_eq_iff_eq.mpr (by omega)]
    · rw [Nat.compare_eq_gt.mpr h, compare_gt_iff_gt.mpr (by omega)]
  · rw [compare_gt_iff_gt.mpr hgt, compare_gt_iff_gt.mpr (units_lt hgt (scaled_lt hr hrwidth))]
    rfl

/-- The comparison is that of the rational numbers of seconds. -/
theorem order_value (hl : left.Decimal) (hr : right.Decimal) :
    (left.order right = .lt ↔ left.value < right.value) ∧
      (left.order right = .eq ↔ left.value = right.value) ∧
      (left.order right = .gt ↔ right.value < left.value) := by
  have hpow : (0 : ℚ) < 10 ^ max left.fractionalDigits.length right.fractionalDigits.length :=
    pow_pos (by norm_num) _
  have hleft := value_eq (le_max_left left.fractionalDigits.length right.fractionalDigits.length)
  have hright := value_eq (le_max_right left.fractionalDigits.length right.fractionalDigits.length)
  rw [order_eq hl hr rfl, hleft, hright,
    div_lt_div_iff_of_pos_right hpow, div_lt_div_iff_of_pos_right hpow,
    div_left_inj' hpow.ne', Int.cast_lt, Int.cast_lt, Int.cast_inj]
  exact ⟨compare_lt_iff_lt, compare_eq_iff_eq, compare_gt_iff_gt⟩

theorem equals_value (hl : left.Decimal) (hr : right.Decimal) :
    left.equals right = true ↔ left.value = right.value := by
  rw [equals, beq_iff_eq]
  exact (order_value hl hr).2.1

end ExactInstant

namespace ExactInstant

/-! ## Any two instants -/

theorem order_swap (left right : ExactInstant) : right.order left = (left.order right).swap := by
  rcases order_spec left right with ⟨h, hkey⟩ | ⟨h, hkey⟩ | ⟨h, hkey⟩ <;>
    rcases order_spec right left with ⟨h', hkey'⟩ | ⟨h', hkey'⟩ | ⟨h', hkey'⟩ <;> rw [h, h']
  · exact absurd hkey' (lt_asymm hkey)
  · exact absurd hkey'.symm hkey.ne
  · rfl
  · exact absurd hkey.symm hkey'.ne
  · rfl
  · exact absurd hkey hkey'.ne
  · rfl
  · exact absurd hkey' hkey.ne
  · exact absurd hkey' (lt_asymm hkey)

theorem isLE_iff {left right : ExactInstant} :
    (left.order right).isLE = true ↔ left.key ≤ right.key := by
  rcases order_spec left right with ⟨h, hkey⟩ | ⟨h, hkey⟩ | ⟨h, hkey⟩ <;> rw [h]
  · simp [hkey.le]
  · simp [hkey]
  · simp [hkey]

theorem order_trans {left middle right : ExactInstant} (h : (left.order middle).isLE = true)
    (h' : (middle.order right).isLE = true) : (left.order right).isLE = true := by
  rw [isLE_iff] at h h' ⊢
  exact h.trans h'

end ExactInstant

/-! ## The equalities of the registry -/

namespace Registry

/-- The instants of a status are in decimal digits. -/
structure ValidityStatus.Decimal (status : ValidityStatus) : Prop where
  recordedAt : status.recordedAt.Decimal
  validUntil : ∀ limit ∈ status.validUntil, limit.instant.Decimal
  revokedAt : ∀ limit ∈ status.revokedAt, limit.instant.Decimal

/-- The numbers of seconds that a status consists of. -/
def ValidityStatus.values (status : ValidityStatus) : ℚ × Option ℚ × Option ℚ :=
  (status.recordedAt.value, status.validUntil.map fun limit => limit.instant.value,
    status.revokedAt.map fun limit => limit.instant.value)

theorem equalBoundaries_value {left right : Option ParsedBoundary}
    (hl : ∀ limit ∈ left, limit.instant.Decimal) (hr : ∀ limit ∈ right, limit.instant.Decimal) :
    equalBoundaries left right = true ↔
      (left.map fun limit => limit.instant.value) = right.map fun limit => limit.instant.value := by
  cases left with
  | none => cases right <;> simp [equalBoundaries]
  | some limit =>
    cases right with
    | none => simp [equalBoundaries]
    | some limit' =>
      rw [equalBoundaries, ParsedBoundary.equals,
        ExactInstant.equals_value (hl limit rfl) (hr limit' rfl)]
      simp

/-- Statuses are equal when their instants are, as numbers. -/
theorem ValidityStatus.equals_value {left right : ValidityStatus} (hl : left.Decimal)
    (hr : right.Decimal) : left.equals right = true ↔ left.values = right.values := by
  simp only [ValidityStatus.equals, Bool.and_eq_true, values, Prod.mk.injEq,
    equalBoundaries_value hl.validUntil hr.validUntil,
    equalBoundaries_value hl.revokedAt hr.revokedAt,
    ExactInstant.equals_value hl.recordedAt hr.recordedAt, and_assoc]

/-- Bindings have the same immutable part when their other fields are equal and
the instants are, as numbers. -/
theorem sameImmutable_value {left right : NormalizedBinding}
    (hl : left.validFromInstant.Decimal) (hr : right.validFromInstant.Decimal) :
    left.sameImmutable right = true ↔
      left.principal = right.principal ∧ left.algorithm = right.algorithm ∧
        left.publicKeyBytes = right.publicKeyBytes ∧
          left.validFromInstant.value = right.validFromInstant.value := by
  rw [sameImmutable_iff, ← ExactInstant.equals_iff, ExactInstant.equals_value hl hr]

theorem equivalence_boundary :
    Equivalence fun left right : ParsedBoundary => left.equals right = true := by
  simp only [ParsedBoundary.equals, ExactInstant.equals_iff]
  exact ⟨fun _ => rfl, Eq.symm, Eq.trans⟩

/-- On decimal digits of any lengths the comparison of instants is that of the
rational numbers of seconds, and the equalities of boundaries, statuses and
immutable bindings are equivalences that respect it. -/
theorem exactInstant_numeric :
    (∀ left right : ExactInstant, left.Decimal → right.Decimal →
      ((left.order right = .lt ↔ left.value < right.value) ∧
        (left.order right = .eq ↔ left.value = right.value) ∧
        (left.order right = .gt ↔ right.value < left.value)) ∧
      (left.equals right = true ↔ left.value = right.value)) ∧
    ((∀ left right : ExactInstant, right.order left = (left.order right).swap) ∧
      ∀ left middle right : ExactInstant, (left.order middle).isLE = true →
        (middle.order right).isLE = true → (left.order right).isLE = true) ∧
    (Equivalence (fun left right : ParsedBoundary => left.equals right = true) ∧
      ∀ left right : ParsedBoundary, left.instant.Decimal → right.instant.Decimal →
        (left.equals right = true ↔ left.instant.value = right.instant.value)) ∧
    (Equivalence (fun left right : ValidityStatus => left.equals right = true) ∧
      ∀ left right : ValidityStatus, left.Decimal → right.Decimal →
        (left.equals right = true ↔ left.values = right.values)) ∧
    (Equivalence (fun left right : NormalizedBinding => left.sameImmutable right = true) ∧
      ∀ left right : NormalizedBinding, left.validFromInstant.Decimal →
        right.validFromInstant.Decimal →
        (left.sameImmutable right = true ↔
          left.principal = right.principal ∧ left.algorithm = right.algorithm ∧
            left.publicKeyBytes = right.publicKeyBytes ∧
              left.validFromInstant.value = right.validFromInstant.value)) := by
  refine ⟨?_, ⟨ExactInstant.order_swap, ?_⟩, ⟨equivalence_boundary, ?_⟩, ⟨equivalence_equals, ?_⟩,
    ⟨equivalence_sameImmutable, ?_⟩⟩
  · intro left right hl hr
    exact ⟨ExactInstant.order_value hl hr, ExactInstant.equals_value hl hr⟩
  · intro left middle right h h'
    exact ExactInstant.order_trans h h'
  · intro left right hl hr
    exact ExactInstant.equals_value hl hr
  · intro left right hl hr
    exact ValidityStatus.equals_value hl hr
  · intro left right hl hr
    exact sameImmutable_value hl hr

end Registry

end MissionWeave
