import MissionWeave.Canonical.Serialize
import MissionWeave.Json.DecoderComplete

/-!
# What `canonical_number` writes

* `layoutDigits_spec`: each of the four layouts is a JSON number of the value
  that its digits and its point denote.
* `layout_spec`: `layout` turns a decimal text into a JSON number of the same
  value.
* `markedExponent_toChars`: the exponents that are parsed fit an `int`.
* `canonicalNumber_spec`: the text of a finite `double` is a JSON number whose
  nearest `double` it is.
-/

namespace MissionWeave.Canonical

open Decoder (StartsNot startsNot_cons takeWhile_append dropWhile_append)

/-- The bytes are decimal digits. -/
abbrev AllDigits (ds : Bytes) : Prop := ∀ d ∈ ds, Ascii.isDigit d = true

theorem allDigits_replicate (n : Nat) : AllDigits (List.replicate n Ascii.zero) := by
  intro d hd
  rw [List.eq_of_mem_replicate hd]
  rfl

theorem AllDigits.append {xs ys : Bytes} (hx : AllDigits xs) (hy : AllDigits ys) :
    AllDigits (xs ++ ys) := by
  intro d hd
  rcases List.mem_append.mp hd with hd | hd
  · exact hx d hd
  · exact hy d hd

theorem digitsValue_zero : digitsValue [Ascii.zero] = 0 := rfl

theorem digits_natText (n : Nat) : Digits (natText n) :=
  ⟨natText_ne_nil n, fun _ hd => isDigit_of_mem_natText hd⟩

/-- Decimal digits without zeros in front of them or behind them. -/
structure Significant (ds : Bytes) : Prop where
  ne_nil : ds ≠ []
  digits : AllDigits ds
  head : ds.head? ≠ some Ascii.zero
  last : ds.getLast? ≠ some Ascii.zero

/-! ## The four layouts -/

/-- The number that the digits denote with the point after `n` of them. -/
def pointed (negative : Bool) (digits : Bytes) (n : Int) : ℚ :=
  (if negative then -1 else 1) * (digitsValue digits * 10 ^ (n - digits.length))

theorem value_eq (t : NumberText) :
    t.value = (if t.negative then -1 else 1) * (digitsValue (t.integer ++ t.fraction.getD []) *
      10 ^ (t.power - (t.fraction.getD []).length)) := by
  rw [NumberText.value, NumberText.magnitude]
  split_ifs <;> ring

theorem ten_zpow_add (a b : Int) : (10 : ℚ) ^ (a + b) = 10 ^ a * 10 ^ b :=
  zpow_add₀ (by norm_num) a b

variable (negative : Bool) {ds : Bytes} {n : Int}

/-- Digits without a leading zero are an integer part. -/
theorem integerPart_of_digits (hne : ds ≠ []) (hdigits : AllDigits ds)
    (hhead : ds.head? ≠ some Ascii.zero) : IntegerPart ds := Or.inr ⟨⟨hne, hdigits⟩, hhead⟩

theorem layout_integer (hne : ds ≠ []) (hdigits : AllDigits ds)
    (hhead : ds.head? ≠ some Ascii.zero) (hn : (ds.length : Int) ≤ n) :
    ∃ t : NumberText, t.Valid ∧
      (if negative then [Ascii.minus] else []) ++
        (ds ++ List.replicate (n - ds.length).toNat Ascii.zero) = t.render ∧
      t.value = pointed negative ds n := by
  let t : NumberText :=
    ⟨negative, ds ++ List.replicate (n - ds.length).toNat Ascii.zero, none, none⟩
  have hvalid : t.Valid := by
    refine ⟨integerPart_of_digits (by simp [t, hne]) (hdigits.append (allDigits_replicate _)) ?_,
      by simp [t], by simp [t]⟩
    rwa [List.head?_append_of_ne_nil _ hne]
  refine ⟨t, hvalid, by simp [NumberText.render, renderFraction, renderExponent, t], ?_⟩
  have hlen : ((n - ds.length).toNat : Int) = n - ds.length := Int.toNat_of_nonneg (by omega)
  rw [value_eq, pointed]
  simp only [t, NumberText.power, Option.getD_none, List.append_nil, List.length_nil,
    digitsValue_append, digitsValue_replicate, List.length_replicate, add_zero, Nat.cast_zero,
    sub_zero, zpow_zero, mul_one]
  rw [← hlen, zpow_natCast]
  push_cast
  rfl

theorem layout_fraction (hdigits : AllDigits ds) (hhead : ds.head? ≠ some Ascii.zero)
    (hn : 0 < n) (hlt : n < ds.length) :
    ∃ t : NumberText, t.Valid ∧
      (if negative then [Ascii.minus] else []) ++
        (ds.take n.toNat ++ Ascii.point :: ds.drop n.toNat) = t.render ∧
      t.value = pointed negative ds n := by
  let t : NumberText := ⟨negative, ds.take n.toNat, some (ds.drop n.toNat), none⟩
  have htake : (ds.take n.toNat).length = n.toNat := by
    rw [List.length_take]
    omega
  have hdrop : (ds.drop n.toNat).length = ds.length - n.toNat := List.length_drop
  have hne : ds.take n.toNat ≠ [] := by
    intro h
    rw [h, List.length_nil] at htake
    omega
  have hne' : ds.drop n.toNat ≠ [] := by
    intro h
    rw [h, List.length_nil] at hdrop
    omega
  have hvalid : t.Valid := by
    refine ⟨integerPart_of_digits hne (fun d hd => hdigits d (List.mem_of_mem_take hd)) ?_, ?_,
      by simp [t]⟩
    · rwa [← List.head?_append_of_ne_nil _ hne, List.take_append_drop]
    · rintro _ ⟨⟩
      exact ⟨hne', fun d hd => hdigits d (List.mem_of_mem_drop hd)⟩
  refine ⟨t, hvalid, by simp [NumberText.render, renderFraction, renderExponent, t], ?_⟩
  rw [value_eq, pointed]
  simp only [t, NumberText.power, Option.getD_some, List.take_append_drop, hdrop]
  congr 3
  omega

theorem layout_small (hne : ds ≠ []) (hdigits : AllDigits ds) (hn : n ≤ 0) :
    ∃ t : NumberText, t.Valid ∧
      (if negative then [Ascii.minus] else []) ++
        (Ascii.zero :: Ascii.point :: (List.replicate (-n).toNat Ascii.zero ++ ds)) = t.render ∧
      t.value = pointed negative ds n := by
  let t : NumberText :=
    ⟨negative, [Ascii.zero], some (List.replicate (-n).toNat Ascii.zero ++ ds), none⟩
  have hvalid : t.Valid := by
    refine ⟨Or.inl rfl, ?_, by simp [t]⟩
    rintro _ ⟨⟩
    exact ⟨by simp [hne], (allDigits_replicate _).append hdigits⟩
  refine ⟨t, hvalid, by simp [NumberText.render, renderFraction, renderExponent, t], ?_⟩
  rw [value_eq, pointed]
  simp only [t, NumberText.power, Option.getD_some, digitsValue_append, digitsValue_replicate,
    digitsValue_zero, zero_mul, zero_add, List.length_append, List.length_replicate]
  congr 3
  push_cast
  rw [Int.toNat_of_nonneg (by omega)]
  omega

/-- An exponent of the given value, with its sign. -/
theorem writtenExponent_spec {power : Int} {exponent : Bytes} (hexponent : Digits exponent)
    (habs : digitsValue exponent = power.natAbs) :
    ExponentText.Valid
        ⟨Ascii.lowerE, some (if power < 0 then Ascii.minus else Ascii.plus), exponent⟩ ∧
      ExponentText.value
        ⟨Ascii.lowerE, some (if power < 0 then Ascii.minus else Ascii.plus), exponent⟩ =
          power := by
  refine ⟨⟨Or.inl rfl, ?_, hexponent⟩, ?_⟩
  · rintro _ ⟨⟩
    split_ifs
    · exact Or.inr rfl
    · exact Or.inl rfl
  · rw [ExponentText.value]
    simp only [habs]
    split_ifs with h1 h2 h2
    · omega
    · exact absurd rfl h2
    · cases h2
    · omega

theorem layout_scientific (hne : ds ≠ []) (hdigits : AllDigits ds)
    (hhead : ds.head? ≠ some Ascii.zero) {exponent : Bytes} (hexponent : Digits exponent)
    (habs : digitsValue exponent = (n - 1).natAbs) :
    ∃ t : NumberText, t.Valid ∧
      (if negative then [Ascii.minus] else []) ++
        (ds.take 1 ++ ((if 1 < ds.length then Ascii.point :: ds.drop 1 else []) ++
          Ascii.lowerE :: (if n - 1 < 0 then Ascii.minus else Ascii.plus) :: exponent)) = t.render ∧
      t.value = pointed negative ds n := by
  obtain ⟨d, rest, rfl⟩ := List.exists_cons_of_ne_nil hne
  let e : ExponentText :=
    ⟨Ascii.lowerE, some (if n - 1 < 0 then Ascii.minus else Ascii.plus), exponent⟩
  let t : NumberText := ⟨negative, [d], if rest = [] then none else some rest, some e⟩
  obtain ⟨he, hvalue⟩ : e.Valid ∧ e.value = n - 1 := writtenExponent_spec hexponent habs
  have hfraction : t.fraction.getD [] = rest := by
    simp only [t]
    split_ifs with h
    · rw [h]
      rfl
    · rfl
  have hvalid : t.Valid := by
    refine ⟨integerPart_of_digits (by simp [t]) ?_ ?_, ?_, ?_⟩
    · simpa [t, AllDigits] using hdigits d List.mem_cons_self
    · simpa [t] using hhead
    · intro x hx
      simp only [t, Option.mem_def, ite_eq_iff, reduceCtorEq, and_false, Option.some.injEq,
        false_or] at hx
      obtain ⟨hrest, rfl⟩ := hx
      exact ⟨hrest, fun c hc => hdigits c (List.mem_cons_of_mem _ hc)⟩
    · rintro _ ⟨⟩
      exact he
  refine ⟨t, hvalid, ?_, ?_⟩
  · cases rest with
    | nil => simp [NumberText.render, renderFraction, renderExponent, ExponentText.render, t, e]
    | cons c rest =>
      simp [NumberText.render, renderFraction, renderExponent, ExponentText.render, t, e]
  · have hpower : t.power = n - 1 := hvalue
    rw [value_eq, pointed, hfraction, hpower]
    simp only [t, List.singleton_append, List.length_cons]
    congr 3
    push_cast
    omega

/-- Each layout is a JSON number of the value that the digits denote. -/
theorem layoutDigits_spec (hne : ds ≠ []) (hdigits : AllDigits ds)
    (hhead : ds.head? ≠ some Ascii.zero) (n : Int) :
    ∃ t : NumberText, t.Valid ∧
      (if negative then [Ascii.minus] else []) ++ layoutDigits ds n = t.render ∧
      t.value = pointed negative ds n := by
  unfold layoutDigits
  dsimp only
  by_cases h1 : (ds.length : Int) ≤ n ∧ n ≤ 21
  · rw [if_pos h1]
    exact layout_integer negative hne hdigits hhead h1.1
  rw [if_neg h1]
  by_cases h2 : 0 < n ∧ n ≤ 21
  · rw [if_pos h2]
    exact layout_fraction negative hdigits hhead h2.1 (by omega)
  rw [if_neg h2]
  by_cases h3 : -6 < n ∧ n ≤ 0
  · rw [if_pos h3]
    exact layout_small negative hne hdigits h3.2
  · rw [if_neg h3]
    exact layout_scientific negative hne hdigits hhead (digits_natText _) (digitsValue_natText _)

/-! ## From a decimal text to its layout -/

/-- A text of the forms that `std::to_chars` may return: an integer part and a
fraction of any digits, and an exponent with its sign.  The exponent is not
bounded here, for `parse_exponent` it has to fit an `int`. -/
structure DecimalText (n : NumberText) : Prop where
  integer : AllDigits n.integer
  fraction : ∀ ds ∈ n.fraction, AllDigits ds
  exponent : ∀ e ∈ n.exponent, e.Valid

theorem parseExponent_spec {e : ExponentText} (h : e.Valid) :
    parseExponent (e.sign.toList ++ e.digits) = .ok e.value := by
  obtain ⟨-, hsign, hne, hdigits⟩ := h
  have hall : e.digits.all Ascii.isDigit = true := List.all_eq_true.mpr hdigits
  cases hs : e.sign with
  | some s =>
    rw [ExponentText.value, hs]
    rcases hsign s hs with rfl | rfl
    · simp [parseExponent, hne, hall]
    · simp [parseExponent, hne, hall]
  | none =>
    obtain ⟨d, ds, hds⟩ := List.exists_cons_of_ne_nil hne
    have hd : Ascii.isDigit d = true := hdigits d (by rw [hds]; exact List.mem_cons_self)
    have hplus : d ≠ Ascii.plus := by
      rintro rfl
      cases hd
    have hminus : d ≠ Ascii.minus := by
      rintro rfl
      cases hd
    rw [ExponentText.value, hs]
    rw [hds] at hall ⊢
    simp [parseExponent, hplus, hminus, hall]

theorem popZeros_spec (ds : Bytes) :
    ∃ count, ds = List.replicate count Ascii.zero ++ popZeros ds := by
  induction ds with
  | nil => exact ⟨0, rfl⟩
  | cons d ds ih =>
    cases ds with
    | nil => exact ⟨0, rfl⟩
    | cons e ds =>
      rw [popZeros]
      split_ifs with h
      · obtain ⟨count, hcount⟩ := ih
        refine ⟨count + 1, ?_⟩
        rw [List.replicate_succ, List.cons_append, ← hcount, h]
      · exact ⟨0, rfl⟩

theorem popZeros_ne_nil {ds : Bytes} (h : ds ≠ []) : popZeros ds ≠ [] := by
  induction ds with
  | nil => exact absurd rfl h
  | cons d ds ih =>
    cases ds with
    | nil => exact List.cons_ne_nil _ _
    | cons e ds =>
      rw [popZeros]
      split_ifs
      · exact ih (List.cons_ne_nil _ _)
      · exact List.cons_ne_nil _ _

/-- No zero is left in front, except as the only digit. -/
theorem head?_popZeros (ds : Bytes) :
    popZeros ds = [Ascii.zero] ∨ (popZeros ds).head? ≠ some Ascii.zero := by
  induction ds with
  | nil => exact Or.inr (by simp [popZeros])
  | cons d ds ih =>
    cases ds with
    | nil =>
      by_cases hd : d = Ascii.zero
      · exact Or.inl (by rw [popZeros, hd]; simp)
      · exact Or.inr (by simpa [popZeros] using hd)
    | cons e ds =>
      rw [popZeros]
      split_ifs with h
      · exact ih
      · exact Or.inr (by simpa using h)

/-- The digits between the leading and the trailing zeros. -/
theorem significant_spec {digits : Bytes}
    (h : (digits.takeWhile (· == Ascii.zero)).length ≠ digits.length) :
    ∃ ds tail, ds ≠ [] ∧ ds.head? ≠ some Ascii.zero ∧ ds.getLast? ≠ some Ascii.zero ∧
      (popZeros (digits.drop (digits.takeWhile (· == Ascii.zero)).length).reverse).reverse = ds ∧
      digits = List.replicate (digits.takeWhile (· == Ascii.zero)).length Ascii.zero ++
        (ds ++ List.replicate tail Ascii.zero) := by
  have hsplit := List.takeWhile_append_dropWhile (p := (· == Ascii.zero)) (l := digits)
  have hdrop : digits.drop (digits.takeWhile (· == Ascii.zero)).length =
      digits.dropWhile (· == Ascii.zero) := by
    have hleft := @List.drop_left _ (digits.takeWhile (· == Ascii.zero))
      (digits.dropWhile (· == Ascii.zero))
    rwa [hsplit] at hleft
  rw [hdrop]
  have hne : digits.dropWhile (· == Ascii.zero) ≠ [] := by
    intro hnil
    rw [hnil, List.append_nil] at hsplit
    exact h (congrArg List.length hsplit)
  have hhead : (digits.dropWhile (· == Ascii.zero)).head? ≠ some Ascii.zero := by
    intro hzero
    have hnot := List.head?_dropWhile_not (· == Ascii.zero) digits
    rw [hzero] at hnot
    cases hnot
  obtain ⟨tail, htail⟩ := popZeros_spec (digits.dropWhile (· == Ascii.zero)).reverse
  have hrest := congrArg List.reverse htail
  rw [List.reverse_reverse, List.reverse_append, List.reverse_replicate] at hrest
  have hds := popZeros_ne_nil (mt List.reverse_eq_nil_iff.mp hne)
  rw [hrest, List.head?_append_of_ne_nil _ (mt List.reverse_eq_nil_iff.mp hds)] at hhead
  refine ⟨_, tail, mt List.reverse_eq_nil_iff.mp hds, hhead, ?_, rfl, ?_⟩
  · rw [List.getLast?_reverse]
    rcases head?_popZeros (digits.dropWhile (· == Ascii.zero)).reverse with hzero | hlast
    · rw [hzero] at hhead
      exact absurd rfl hhead
    · exact hlast
  · rw [← takeWhile_zero_eq, ← hrest, hsplit]

theorem not_marker_of_digit {b : UInt8} (h : Ascii.isDigit b = true) :
    isExponentMarker b = false := by
  rw [isDigit_iff] at h
  rw [isExponentMarker, Bool.or_eq_false_iff]
  refine ⟨beq_false_of_ne ?_, beq_false_of_ne ?_⟩ <;>
  · rintro rfl
    revert h
    decide

theorem ne_of_digit {b c : UInt8} (h : Ascii.isDigit b = true) (hc : Ascii.isDigit c = false) :
    b ≠ c := by
  rintro rfl
  rw [hc] at h
  cases h

/-- What `layout` finds in a text after its sign. -/
theorem mantissa_spec {r : NumberText} (h : DecimalText r) :
    (r.integer ++ (renderFraction r.fraction ++ renderExponent r.exponent)).takeWhile
        (fun b => !isExponentMarker b) = r.integer ++ renderFraction r.fraction ∧
      (r.integer ++ (renderFraction r.fraction ++ renderExponent r.exponent)).dropWhile
        (fun b => !isExponentMarker b) = renderExponent r.exponent := by
  have hmantissa : ∀ b ∈ r.integer ++ renderFraction r.fraction, !isExponentMarker b := by
    intro b hb
    rcases List.mem_append.mp hb with hb | hb
    · simp [not_marker_of_digit (h.integer b hb)]
    · cases hf : r.fraction with
      | none =>
        rw [hf] at hb
        cases hb
      | some ds =>
        rw [hf] at hb
        rcases List.mem_cons.mp hb with rfl | hb
        · rfl
        · simp [not_marker_of_digit (h.fraction ds hf b hb)]
  have hexponent : StartsNot (fun b => !isExponentMarker b) (renderExponent r.exponent) := by
    cases he : r.exponent with
    | none => exact StartsNot.nil _
    | some e =>
      rcases (h.exponent e he).marker with hm | hm <;>
        simp [renderExponent, ExponentText.render, StartsNot, isExponentMarker, hm]
  rw [← List.append_assoc]
  exact ⟨takeWhile_append hmantissa hexponent, dropWhile_append hmantissa hexponent⟩

/-- The digits of the mantissa, and those of them before the point. -/
theorem digits_spec {r : NumberText} (h : DecimalText r) :
    (r.integer ++ renderFraction r.fraction).takeWhile (· != Ascii.point) = r.integer ∧
      (r.integer ++ renderFraction r.fraction).filter (· != Ascii.point) =
        r.integer ++ r.fraction.getD [] := by
  have hpoint {ds : Bytes} (hds : AllDigits ds) : ∀ b ∈ ds, (b != Ascii.point) = true :=
    fun b hb => bne_iff_ne.mpr (ne_of_digit (hds b hb) rfl)
  constructor
  · refine takeWhile_append (hpoint h.integer) ?_
    cases r.fraction with
    | none => exact StartsNot.nil _
    | some ds => rfl
  · rw [List.filter_append, List.filter_eq_self.mpr (hpoint h.integer)]
    cases hf : r.fraction with
    | none => rfl
    | some ds =>
      rw [renderFraction, Option.getD_some, List.filter_cons_of_neg (by decide),
        List.filter_eq_self.mpr (hpoint (h.fraction ds hf))]

theorem head?_ne_minus {r : NumberText} (h : DecimalText r) :
    (r.integer ++ (renderFraction r.fraction ++ renderExponent r.exponent)).head? ≠
      some Ascii.minus := by
  cases hi : r.integer with
  | cons d ds =>
    have hd := ne_of_digit (c := Ascii.minus)
      (h.integer d (by rw [hi]; exact List.mem_cons_self)) rfl
    simpa using hd
  | nil =>
    cases r.fraction with
    | some ds =>
      rw [renderFraction, List.nil_append, List.cons_append, List.head?_cons]
      decide
    | none =>
      cases he : r.exponent with
      | none => simp [renderFraction, renderExponent]
      | some e =>
        rw [renderFraction, renderExponent, ExponentText.render, List.nil_append, List.nil_append,
          List.head?_cons]
        rcases (h.exponent e he).marker with hm | hm <;> rw [hm] <;> decide

theorem markedExponent_render {r : NumberText} (h : DecimalText r) :
    markedExponent (renderExponent r.exponent) = .ok r.power := by
  cases he : r.exponent with
  | none =>
    rw [NumberText.power, he]
    rfl
  | some e =>
    rw [NumberText.power, he]
    exact parseExponent_spec (h.exponent e he)

/-- Not all digits of a number other than zero are zeros. -/
theorem leadingZeros_ne_length {digits : Bytes} (h : digitsValue digits ≠ 0) :
    (digits.takeWhile (· == Ascii.zero)).length ≠ digits.length := by
  intro hlen
  have hzeros := List.takeWhile_prefix (l := digits) (· == Ascii.zero)
  have hall := hzeros.eq_of_length hlen
  rw [takeWhile_zero_eq] at hall
  rw [← hall, digitsValue_replicate] at h
  exact h rfl

theorem DecimalText.allDigits {r : NumberText} (h : DecimalText r) :
    AllDigits (r.integer ++ r.fraction.getD []) := by
  apply h.integer.append
  cases hf : r.fraction with
  | none => simp [AllDigits]
  | some ds => exact h.fraction ds hf

/-- `layout` lays out the significant digits of the text, with the point where
the value has it. -/
theorem layout_significant {r : NumberText} (h : DecimalText r) (hvalue : r.value ≠ 0) :
    ∃ ds n, Significant ds ∧ pointed r.negative ds n = r.value ∧
      layout r.render = .ok ((if r.negative then [Ascii.minus] else []) ++ layoutDigits ds n) := by
  have hzero : digitsValue (r.integer ++ r.fraction.getD []) ≠ 0 := by
    intro hzero
    rw [value_eq, hzero] at hvalue
    simp at hvalue
  obtain ⟨hmantissa, hrest⟩ := mantissa_spec h
  obtain ⟨hinteger, hdigits⟩ := digits_spec h
  have hnegative : (r.render.head? = some Ascii.minus) = (r.negative = true) := by
    rw [NumberText.render]
    cases r.negative with
    | true => simp
    | false => simpa using head?_ne_minus h
  have htext : (if r.negative = true then r.render.drop 1 else r.render) =
      r.integer ++ (renderFraction r.fraction ++ renderExponent r.exponent) := by
    rw [NumberText.render]
    cases r.negative <;> rfl
  have hexponent := markedExponent_render h
  have hnot := leadingZeros_ne_length hzero
  obtain ⟨ds, tail, hne, hhead, hlast, hpop, heq⟩ := significant_spec hnot
  have hds : AllDigits ds := by
    intro d hd
    apply h.allDigits d
    rw [heq]
    exact List.mem_append_right _ (List.mem_append_left _ hd)
  generalize hcount : ((r.integer ++ r.fraction.getD []).takeWhile (· == Ascii.zero)).length =
    count at hnot heq hpop
  refine ⟨ds, r.integer.length + r.power - count, ⟨hne, hds, hhead, hlast⟩, ?_, ?_⟩
  · -- the leading and the trailing zeros shift the point and the value alike
    have hlen := congrArg List.length heq
    simp only [List.length_append, List.length_replicate] at hlen
    have hval : digitsValue (r.integer ++ r.fraction.getD []) = digitsValue ds * 10 ^ tail := by
      rw [heq, digitsValue_append, digitsValue_replicate, digitsValue_append,
        digitsValue_replicate, List.length_replicate]
      omega
    have hpower : (r.integer.length + r.power - count - ds.length : Int) =
        tail + (r.power - (r.fraction.getD []).length) := by
      omega
    rw [value_eq, pointed, hval, hpower, ten_zpow_add, zpow_natCast]
    push_cast
    ring
  · unfold layout
    dsimp only
    simp only [hnegative, htext, hmantissa, hrest, hexponent, Except.ok_bind, hinteger, hdigits,
      hcount, if_neg hnot, hpop]

/-- `layout` writes a JSON number of the same value. -/
theorem layout_spec {r : NumberText} (h : DecimalText r) (hvalue : r.value ≠ 0) :
    ∃ t : NumberText, t.Valid ∧ layout r.render = .ok t.render ∧ t.value = r.value := by
  obtain ⟨ds, n, hds, hpointed, hlayout⟩ := layout_significant h hvalue
  obtain ⟨t, hvalid, hrender, ht⟩ :=
    layoutDigits_spec r.negative hds.ne_nil hds.digits hds.head n
  exact ⟨t, hvalid, by rw [hlayout, hrender], by rw [ht, hpointed]⟩

example : layout (ascii "1.0e+06") = .ok (ascii "1000000") := by decide

/-! ## `std::to_chars` -/

theorem decimalText_of_valid {n : NumberText} (h : n.Valid) : DecimalText n :=
  ⟨(Decoder.digits_of_integerPart h.integer).2, fun ds hds => (h.fraction ds hds).2, h.exponent⟩

theorem exponentDigits_spec (n : Nat) :
    Digits (exponentDigits n) ∧ digitsValue (exponentDigits n) = n := by
  rw [exponentDigits]
  split_ifs
  · have hcons : Ascii.zero :: natText n = [Ascii.zero] ++ natText n := rfl
    refine ⟨⟨List.cons_ne_nil _ _, List.forall_mem_cons.mpr ⟨rfl, (digits_natText n).2⟩⟩, ?_⟩
    rw [hcons, digitsValue_append, digitsValue_natText, digitsValue_zero, zero_mul, zero_add]
  · exact ⟨digits_natText n, digitsValue_natText n⟩

theorem pointed_natText (negative : Bool) (d : Decimal) :
    pointed negative (natText d.significand) ((natText d.significand).length + d.power) =
      (if negative then -1 else 1) * d.value := by
  rw [pointed, digitsValue_natText, Decimal.value]
  congr 3
  omega

/-- The text of a positive decimal is a JSON number of its value. -/
theorem generalText_spec (negative : Bool) {d : Decimal} (h : 0 < d.significand) :
    ∃ t : NumberText, t.Valid ∧
      (if negative then [Ascii.minus] else []) ++ generalText d = t.render ∧
      t.value = (if negative then -1 else 1) * d.value := by
  obtain ⟨hne, hdigits⟩ := digits_natText d.significand
  have hhead : (natText d.significand).head? ≠ some Ascii.zero := head?_natText_ne_zero (by omega)
  rw [← pointed_natText]
  unfold generalText
  dsimp only
  generalize natText d.significand = ds at hne hdigits hhead
  have hexponent : (ds.length : Int) - 1 + d.power = ds.length + d.power - 1 := by omega
  by_cases hfixed : -4 ≤ (ds.length : Int) - 1 + d.power ∧ (ds.length : Int) - 1 + d.power < 6
  · rw [if_pos hfixed, fixedText]
    by_cases hpower : 0 ≤ d.power
    · rw [if_pos hpower]
      have hinteger := layout_integer negative (n := ds.length + d.power) hne hdigits
        hhead (by omega)
      rwa [add_sub_cancel_left] at hinteger
    rw [if_neg hpower]
    by_cases hinside : 0 < (ds.length : Int) + d.power
    · rw [if_pos hinside]
      exact layout_fraction negative hdigits hhead hinside (by omega)
    · rw [if_neg hinside]
      exact layout_small negative hne hdigits (by omega)
  · rw [if_neg hfixed, scientificText, hexponent]
    obtain ⟨hdigits', habs⟩ := exponentDigits_spec (ds.length + d.power - 1 : Int).natAbs
    exact layout_scientific negative hne hdigits hhead hdigits' habs

/-- The text of `std::to_chars` is a JSON number that rounds to the value. -/
theorem toChars_spec {x : Binary64} (hx : x.value ≠ 0) :
    ∃ n : NumberText, n.Valid ∧ toChars x = n.render ∧ n.value ≠ 0 ∧
      nearest n.value = .finite x := by
  have hround {q : ℚ} (hq : 0 < q) (hrep : Representable q) (negative : Bool) :
      ∃ n : NumberText, n.Valid ∧
        (if negative then [Ascii.minus] else []) ++ generalText (shortest q) = n.render ∧
        n.value ≠ 0 ∧ n.value = (if negative then -1 else 1) * (shortest q).value ∧
        nearest (shortest q).value = .finite ⟨q, hrep⟩ := by
    obtain ⟨hpos, hnearest⟩ := shortest_roundsTo hq hrep
    obtain ⟨n, hn, htext, hvalue⟩ := generalText_spec negative hpos
    refine ⟨n, hn, htext, ?_, hvalue, by rw [hnearest, nearest_value ⟨q, hrep⟩]⟩
    have hne : (shortest q).value ≠ 0 :=
      mul_ne_zero (by exact_mod_cast hpos.ne') (zpow_ne_zero _ (by norm_num))
    rw [hvalue]
    cases negative <;> simpa using hne
  rw [toChars]
  split_ifs with hneg
  · obtain ⟨n, hn, htext, hne, hvalue, hnearest⟩ :=
      hround (neg_pos.mpr hneg) x.representable.neg true
    refine ⟨n, hn, htext, hne, ?_⟩
    rw [hvalue, if_pos rfl, neg_one_mul, nearest_neg hnearest]
    simp only [Double.finite.injEq]
    exact Binary64.ext (neg_neg _)
  · obtain ⟨n, hn, htext, hne, hvalue, hnearest⟩ :=
      hround (lt_of_le_of_ne (not_lt.mp hneg) (Ne.symm hx)) x.representable false
    refine ⟨n, hn, htext, hne, ?_⟩
    rw [hvalue, if_neg Bool.false_ne_true, one_mul, hnearest]

example : generalText (shortest (1 / 4)) = ascii "0.25" := by decide +kernel

theorem not_marker_fixedText {digits : Bytes} (h : ∀ b ∈ digits, isExponentMarker b = false)
    (power : Int) : ∀ b ∈ fixedText digits power, isExponentMarker b = false := by
  have hzeros (count : Nat) :
      ∀ b ∈ List.replicate count Ascii.zero, isExponentMarker b = false := by
    intro b hb
    rw [List.eq_of_mem_replicate hb]
    rfl
  rw [fixedText]
  split_ifs
  · exact List.forall_mem_append.mpr ⟨h, hzeros _⟩
  · exact List.forall_mem_append.mpr ⟨fun b hb => h b (List.mem_of_mem_take hb),
      List.forall_mem_cons.mpr ⟨rfl, fun b hb => h b (List.mem_of_mem_drop hb)⟩⟩
  · exact List.forall_mem_cons.mpr ⟨rfl, List.forall_mem_cons.mpr ⟨rfl,
      List.forall_mem_append.mpr ⟨hzeros _, h⟩⟩⟩

/-- The exponent of a text is that of the decimal, or there is none. -/
theorem markedExponent_generalText (d : Decimal) :
    markedExponent ((generalText d).dropWhile fun b => !isExponentMarker b) = .ok 0 ∨
      markedExponent ((generalText d).dropWhile fun b => !isExponentMarker b) =
        .ok d.exponent := by
  have hdigits : ∀ b ∈ natText d.significand, isExponentMarker b = false :=
    fun b hb => not_marker_of_digit (isDigit_of_mem_natText hb)
  unfold generalText
  dsimp only
  by_cases hfixed : -4 ≤ ((natText d.significand).length : Int) - 1 + d.power ∧
      ((natText d.significand).length : Int) - 1 + d.power < 6
  · left
    have hnone := not_marker_fixedText hdigits d.power
    rw [if_pos hfixed, List.dropWhile_eq_nil_iff.mpr fun b hb => by rw [hnone b hb]; rfl]
    rfl
  · right
    have hmantissa : ∀ b ∈ (natText d.significand).take 1 ++
        (if 1 < (natText d.significand).length then
          Ascii.point :: (natText d.significand).drop 1 else []),
        (!isExponentMarker b) = true := by
      intro b hb
      rw [Bool.not_eq_true']
      rcases List.mem_append.mp hb with hb | hb
      · exact hdigits b (List.mem_of_mem_take hb)
      · split_ifs at hb with hlength
        · rcases List.mem_cons.mp hb with rfl | hb
          · rfl
          · exact hdigits b (List.mem_of_mem_drop hb)
        · cases hb
    obtain ⟨hexponent, habs⟩ := exponentDigits_spec d.exponent.natAbs
    obtain ⟨hvalid, hvalue⟩ := writtenExponent_spec hexponent habs
    rw [if_neg hfixed, scientificText, ← List.append_assoc,
      dropWhile_append hmantissa (startsNot_cons.mpr rfl)]
    have hparse := parseExponent_spec hvalid
    rw [hvalue] at hparse
    exact hparse

/-- The exponents that `canonical_number` parses have at most three digits, so
that the `int` of `parse_exponent` holds them. -/
theorem markedExponent_toChars {x : Binary64} (hx : x.value ≠ 0) :
    ∃ exponent : Int, exponent.natAbs ≤ 324 ∧
      markedExponent ((toChars x).dropWhile fun b => !isExponentMarker b) = .ok exponent := by
  have hround {q : ℚ} (hq : 0 < q) (hrep : Representable q) : ∃ exponent : Int,
      exponent.natAbs ≤ 324 ∧
        markedExponent ((generalText (shortest q)).dropWhile fun b => !isExponentMarker b) =
          .ok exponent := by
    rcases markedExponent_generalText (shortest q) with h | h
    · exact ⟨0, by decide, h⟩
    · exact ⟨_, exponent_shortest hq hrep, h⟩
  rw [toChars]
  split_ifs with hneg
  · exact hround (neg_pos.mpr hneg) x.representable.neg
  · exact hround (lt_of_le_of_ne (not_lt.mp hneg) (Ne.symm hx)) x.representable

/-- The canonical text of a finite `double` is a JSON number that is nearest to
it. -/
theorem canonicalNumber_spec (x : Binary64) :
    ∃ t : NumberText, t.Valid ∧ canonicalNumber (.finite x) = .ok t.render ∧
      nearest t.value = .finite x := by
  by_cases hx : x.value = 0
  · let t : NumberText := ⟨false, [Ascii.zero], none, none⟩
    have hvalue : t.value = x.value := by
      rw [hx]
      rw [value_eq]
      simp [t, digitsValue_zero]
    refine ⟨t, ⟨Or.inl rfl, by simp [t], by simp [t]⟩, ?_, ?_⟩
    · rw [canonicalNumber, if_pos hx]
      rfl
    · rw [hvalue, nearest_value]
  · obtain ⟨n, hn, hchars, hne, hnearest⟩ := toChars_spec hx
    obtain ⟨t, hvalid, hlayout, hvalue⟩ := layout_spec (decimalText_of_valid hn) hne
    exact ⟨t, hvalid, by rw [canonicalNumber, if_neg hx, hchars, hlayout], by rw [hvalue, hnearest]⟩

end MissionWeave.Canonical
