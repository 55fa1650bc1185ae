import MissionWeave.Canonical.NumberSpec

/-!
# `Number::toString`

The number layout of `canonical.cpp` against the one that ECMAScript
prescribes.

* `Decomposes`: the significant digits of a number and the place of its point.
  There is one choice of them (`Decomposes.unique`).
* `NumberToString`: the text that ECMAScript writes for digits and a point.
* `layout_ecmaScript`: `layout` writes that text for the number that it is
  given, in whichever notation it is given.
-/

namespace MissionWeave.Canonical

/-! ## Significant digits -/

/-- `0.d₁d₂…dₖ` times `10 ^ n` is the absolute value of the number. -/
structure Decomposes (q : ℚ) (digits : Bytes) (n : Int) : Prop where
  significant : Significant digits
  value : |q| = digitsValue digits * 10 ^ (n - digits.length)

theorem ten_zpow_pos (n : Int) : (0 : ℚ) < 10 ^ n := zpow_pos (by norm_num) n

theorem Significant.digitsValue_pos {digits : Bytes} (h : Significant digits) :
    0 < digitsValue digits :=
  Nat.lt_of_lt_of_le (Nat.pow_pos (by decide)) (pow_le_digitsValue h.ne_nil h.digits h.head)

theorem abs_pointed (negative : Bool) (digits : Bytes) (n : Int) :
    |pointed negative digits n| = digitsValue digits * 10 ^ (n - digits.length) := by
  have hpos : (0 : ℚ) ≤ digitsValue digits * 10 ^ (n - digits.length) :=
    mul_nonneg (Nat.cast_nonneg _) (ten_zpow_pos _).le
  cases negative with
  | true => simp [pointed, abs_mul, abs_of_nonneg (ten_zpow_pos _).le]
  | false => simp [pointed, abs_of_nonneg hpos]

/-- The sign of a text is that of its value. -/
theorem pointed_neg_iff {digits : Bytes} (h : Significant digits) (negative : Bool) (n : Int) :
    pointed negative digits n < 0 ↔ negative = true := by
  have hpos : (0 : ℚ) < digitsValue digits * 10 ^ (n - digits.length) :=
    mul_pos (Nat.cast_pos.mpr h.digitsValue_pos) (ten_zpow_pos _)
  cases negative with
  | true => simpa [pointed] using hpos
  | false => simpa [pointed] using hpos.le

/-- A larger power of ten on one side puts zeros behind the digits of the
other. -/
theorem exponent_le_of_mul_eq {m m' : Nat} {e e' : Int} (hm : ¬10 ∣ m)
    (heq : (m : ℚ) * 10 ^ e = m' * 10 ^ e') : e' ≤ e := by
  by_contra hlt
  obtain ⟨j, hj⟩ := Int.le.dest (Int.le_of_lt (not_le.mp hlt))
  rw [← hj, ten_zpow_add, mul_comm ((10 : ℚ) ^ e), ← mul_assoc] at heq
  have hcast := mul_right_cancel₀ (ten_zpow_pos e).ne' heq
  rw [zpow_natCast] at hcast
  have hnat : m = m' * 10 ^ j := by exact_mod_cast hcast
  cases j with
  | zero =>
    push_cast at hj
    omega
  | succ j =>
    apply hm
    rw [hnat, pow_succ, ← mul_assoc]
    exact Nat.dvd_mul_left 10 _

theorem length_le_of_value_eq {ds ds' : Bytes} (h : Significant ds) (h' : Significant ds')
    (heq : digitsValue ds = digitsValue ds') : ds.length ≤ ds'.length := by
  have hlow := pow_le_digitsValue h.ne_nil h.digits h.head
  have hhigh := digitsValue_lt h'.digits
  rw [← heq] at hhigh
  have hlt := (Nat.pow_lt_pow_iff_right (by decide)).mp (Nat.lt_of_le_of_lt hlow hhigh)
  omega

/-- A number has one sequence of significant digits and one place of its
point. -/
theorem Decomposes.unique {q : ℚ} {ds ds' : Bytes} {n n' : Int} (h : Decomposes q ds n)
    (h' : Decomposes q ds' n') : ds' = ds ∧ n' = n := by
  have hd := not_ten_dvd_digitsValue h.significant.ne_nil h.significant.digits h.significant.last
  have hd' := not_ten_dvd_digitsValue h'.significant.ne_nil h'.significant.digits
    h'.significant.last
  have heq := h.value.symm.trans h'.value
  have hexponent : n - ds.length = n' - ds'.length :=
    le_antisymm (exponent_le_of_mul_eq hd' heq.symm) (exponent_le_of_mul_eq hd heq)
  rw [hexponent] at heq
  have hvalue : digitsValue ds = digitsValue ds' := by
    exact_mod_cast mul_right_cancel₀ (ten_zpow_pos _).ne' heq
  have hlength : ds'.length = ds.length :=
    le_antisymm (length_le_of_value_eq h'.significant h.significant hvalue.symm)
      (length_le_of_value_eq h.significant h'.significant hvalue)
  constructor
  · exact digitsValue_inj h'.significant.digits h.significant.digits hlength hvalue.symm
  · omega

/-! ## The four layouts of ECMAScript -/

/-- The text of `Number::toString` for significant digits with the point after
`n` of them. -/
inductive NumberToString : Bytes → Int → Bytes → Prop where
  | integer {digits : Bytes} (zeros : Nat) (h : digits.length + zeros ≤ 21) :
    NumberToString digits (digits.length + zeros) (digits ++ List.replicate zeros Ascii.zero)
  | inner {whole rest : Bytes} (hwhole : whole ≠ []) (hrest : rest ≠ [])
      (h : whole.length ≤ 21) :
    NumberToString (whole ++ rest) whole.length (whole ++ Ascii.point :: rest)
  | small {digits : Bytes} (zeros : Nat) (h : zeros < 6) :
    NumberToString digits (-zeros)
      (Ascii.zero :: Ascii.point :: (List.replicate zeros Ascii.zero ++ digits))
  | digit {d : UInt8} {n : Int} (h : n ≤ -6 ∨ 21 < n) :
    NumberToString [d] n
      (d :: Ascii.lowerE :: (if n - 1 < 0 then Ascii.minus else Ascii.plus) ::
        natText (n - 1).natAbs)
  | scientific {d : UInt8} {rest : Bytes} {n : Int} (hrest : rest ≠ []) (h : n ≤ -6 ∨ 21 < n) :
    NumberToString (d :: rest) n
      (d :: Ascii.point :: (rest ++
        Ascii.lowerE :: (if n - 1 < 0 then Ascii.minus else Ascii.plus) ::
          natText (n - 1).natAbs))

theorem numberToString_layoutDigits {digits : Bytes} (hne : digits ≠ []) (n : Int) :
    NumberToString digits n (layoutDigits digits n) := by
  have hpos : 0 < digits.length := List.length_pos_iff.mpr hne
  unfold layoutDigits
  dsimp only
  by_cases h1 : (digits.length : Int) ≤ n ∧ n ≤ 21
  · rw [if_pos h1]
    have hn : n = digits.length + (n - digits.length).toNat := by omega
    have hinteger : NumberToString digits _ _ :=
      .integer (n - digits.length).toNat (by omega)
    rwa [← hn] at hinteger
  rw [if_neg h1]
  by_cases h2 : 0 < n ∧ n ≤ 21
  · rw [if_pos h2]
    have htake : (digits.take n.toNat).length = n.toNat := by
      rw [List.length_take]
      omega
    have hwhole : digits.take n.toNat ≠ [] := List.ne_nil_of_length_pos (by omega)
    have hrest : digits.drop n.toNat ≠ [] :=
      List.ne_nil_of_length_pos (by rw [List.length_drop]; omega)
    have hinner := NumberToString.inner hwhole hrest (by omega)
    rwa [List.take_append_drop, htake, Int.toNat_of_nonneg (by omega)] at hinner
  rw [if_neg h2]
  by_cases h3 : -6 < n ∧ n ≤ 0
  · rw [if_pos h3]
    have hn : -(((-n).toNat : Nat) : Int) = n := by omega
    have hsmall : NumberToString digits _ _ := .small (-n).toNat (by omega)
    rwa [hn] at hsmall
  · rw [if_neg h3]
    have hn : n ≤ -6 ∨ 21 < n := by omega
    cases digits with
    | nil => exact absurd rfl hne
    | cons d rest =>
      cases rest with
      | nil => exact NumberToString.digit hn
      | cons e rest =>
        have hscientific := NumberToString.scientific (d := d) (List.cons_ne_nil e rest) hn
        simpa using hscientific

theorem layouts_exclusive {k : Nat} {n : Int} (hk : 0 < k) (h : n ≤ -6 ∨ 21 < n) :
    ¬((k : Int) ≤ n ∧ n ≤ 21) ∧ ¬(0 < n ∧ n ≤ 21) ∧ ¬(-6 < n ∧ n ≤ 0) := by
  omega

/-- ECMAScript prescribes one text. -/
theorem NumberToString.eq_layoutDigits {digits text : Bytes} {n : Int}
    (h : NumberToString digits n text) (hne : digits ≠ []) : text = layoutDigits digits n := by
  have hpos : 0 < digits.length := List.length_pos_iff.mpr hne
  unfold layoutDigits
  dsimp only
  cases h with
  | integer zeros h =>
    rw [if_pos (by omega), add_sub_cancel_left, Int.toNat_natCast]
  | @inner whole rest hwhole hrest h =>
    have hw : 0 < whole.length := List.length_pos_iff.mpr hwhole
    have hr : 0 < rest.length := List.length_pos_iff.mpr hrest
    rw [if_neg (by rw [List.length_append]; omega), if_pos (by omega), Int.toNat_natCast,
      List.take_left, List.drop_left]
  | small zeros h =>
    rw [if_neg (by omega), if_neg (by omega), if_pos (by omega), neg_neg, Int.toNat_natCast]
  | digit h =>
    rw [if_neg (layouts_exclusive hpos h).1, if_neg (layouts_exclusive hpos h).2.1,
      if_neg (layouts_exclusive hpos h).2.2]
    simp
  | @scientific d rest n hrest h =>
    rw [if_neg (layouts_exclusive hpos h).1, if_neg (layouts_exclusive hpos h).2.1,
      if_neg (layouts_exclusive hpos h).2.2]
    have hlength : 1 < (d :: rest).length := by
      have hr : 0 < rest.length := List.length_pos_iff.mpr hrest
      rw [List.length_cons]
      omega
    rw [if_pos hlength]
    simp

/-! ## The layout of `canonical_number` -/

/-- The text that `layout` writes depends on the value of its input only. -/
theorem layout_of_decomposes {r : NumberText} (h : DecimalText r) {digits : Bytes} {n : Int}
    (hdigits : Decomposes r.value digits n) :
    layout r.render =
      .ok ((if r.value < 0 then [Ascii.minus] else []) ++ layoutDigits digits n) := by
  have hvalue : r.value ≠ 0 := by
    intro hzero
    have hpos := mul_pos (Nat.cast_pos (α := ℚ).mpr hdigits.significant.digitsValue_pos)
      (ten_zpow_pos (n - digits.length))
    rw [← hdigits.value, hzero, abs_zero] at hpos
    exact lt_irrefl _ hpos
  obtain ⟨ds, m, hsignificant, hpointed, hlayout⟩ := layout_significant h hvalue
  have hds : Decomposes r.value ds m := ⟨hsignificant, by rw [← hpointed, abs_pointed]⟩
  have hsign : (r.value < 0) = (r.negative = true) := by
    rw [← hpointed]
    exact propext (pointed_neg_iff hsignificant r.negative m)
  obtain ⟨rfl, rfl⟩ := hds.unique hdigits
  rw [hlayout]
  simp only [hsign]

/-- Every decimal text of a number other than zero, fixed or scientific, with
whatever zeros in front and behind, is laid out as ECMAScript writes the
number.  The result denotes the same number. -/
theorem layout_ecmaScript {r : NumberText} (h : DecimalText r) (hvalue : r.value ≠ 0) :
    ∃ digits n text,
      Decomposes r.value digits n ∧
      (∀ digits' n', Decomposes r.value digits' n' → digits' = digits ∧ n' = n) ∧
      NumberToString digits n text ∧
      (∀ text', NumberToString digits n text' → text' = text) ∧
      layout r.render = .ok ((if r.value < 0 then [Ascii.minus] else []) ++ text) ∧
      (∃ t : NumberText, t.Valid ∧
        (if r.value < 0 then [Ascii.minus] else []) ++ text = t.render ∧ t.value = r.value) ∧
      ∀ r' : NumberText, DecimalText r' → r'.value = r.value →
        layout r'.render = layout r.render := by
  obtain ⟨digits, n, hsignificant, hpointed, -⟩ := layout_significant h hvalue
  have hdigits : Decomposes r.value digits n := ⟨hsignificant, by rw [← hpointed, abs_pointed]⟩
  have hlayout := layout_of_decomposes h hdigits
  obtain ⟨t, hvalid, htext, ht⟩ := layout_spec h hvalue
  refine ⟨digits, n, layoutDigits digits n, hdigits, ?_, ?_, ?_, hlayout, ⟨t, hvalid, ?_, ht⟩, ?_⟩
  · intro digits' n' hdigits'
    exact hdigits.unique hdigits'
  · exact numberToString_layoutDigits hsignificant.ne_nil n
  · intro text' htext'
    exact htext'.eq_layoutDigits hsignificant.ne_nil
  · exact Except.ok.inj (hlayout.symm.trans htext)
  · intro r' hr' heq
    rw [← heq] at hdigits
    rw [layout_of_decomposes hr' hdigits, hlayout, heq]

/-- `12.50e+02` and `01250` are laid out alike. -/
theorem layout_ecmaScript_sample : layout (ascii "01250") = layout (ascii "12.50e+02") := by
  let r : NumberText :=
    ⟨false, ascii "12", some (ascii "50"), some ⟨Ascii.lowerE, some Ascii.plus, ascii "02"⟩⟩
  let r' : NumberText := ⟨false, ascii "01250", none, none⟩
  have h : DecimalText r := by
    refine ⟨forall_mem_of_all (by decide), ?_, ?_⟩
    · intro ds hds
      cases hds
      exact forall_mem_of_all (by decide)
    · intro e he
      cases he
      refine ⟨Or.inl rfl, ?_, List.cons_ne_nil _ _, forall_mem_of_all (by decide)⟩
      intro s hs
      cases hs
      exact Or.inl rfl
  have h' : DecimalText r' :=
    ⟨forall_mem_of_all (by decide), by simp [r'], by simp [r']⟩
  have hvalue : r.value = 1250 := by
    have hdigits : digitsValue (ascii "1250") = 1250 := by decide
    have hpower : digitsValue (ascii "02") = 2 := by decide
    have happend : ascii "12" ++ ascii "50" = ascii "1250" := by decide
    simp [r, NumberText.value, NumberText.magnitude, NumberText.power, ExponentText.value, happend,
      hdigits, hpower]
    decide
  have hvalue' : r'.value = 1250 := by
    have hdigits : digitsValue (ascii "01250") = 1250 := by decide
    simp [r', NumberText.value, NumberText.magnitude, NumberText.power, hdigits]
  obtain ⟨_, _, _, _, _, _, _, _, _, hsame⟩ := layout_ecmaScript h (by rw [hvalue]; norm_num)
  exact hsame r' h' (hvalue'.trans hvalue.symm)

example : layout (ascii "-0.000000123") = .ok (ascii "-1.23e-7") := by decide

end MissionWeave.Canonical
