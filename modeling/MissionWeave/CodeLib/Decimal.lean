import MissionWeave.CodeLib.Bytes
import Mathlib.Data.List.TakeWhile
import Mathlib.Data.Nat.Digits.Lemmas
import Mathlib.Tactic.Linarith

/-!
# Decimal numerals

`natText` and `intText` are the decimal texts that `std::to_string` writes.
The lemmas read them back: the digits of `natText n` are decimal digits, their
value is `n`, and the first one is not zero unless it is the only one.

* `digitsValue_lt`, `pow_le_digitsValue`: how large the value of some digits is.
* `digitsValue_inj`: digits of one length are determined by their value.
* `padded`: the numeral of a number in a fixed width.
-/

namespace MissionWeave

/-- The character of a decimal digit. -/
def digitByte (d : Nat) : UInt8 := UInt8.ofNat (d + 0x30)

/-- The decimal text of a natural number. -/
def natText (n : Nat) : Bytes :=
  if n = 0 then [Ascii.zero] else (Nat.digits 10 n).reverse.map digitByte

/-- The decimal text of an integer. -/
def intText (n : Int) : Bytes :=
  if n < 0 then Ascii.minus :: natText n.natAbs else natText n.natAbs

theorem digitByte_toNat {d : Nat} (h : d < 10) : (digitByte d).toNat = d + 0x30 := by
  rw [digitByte, UInt8.toNat_ofNat']
  exact Nat.mod_eq_of_lt (by omega)

theorem isDigit_iff (b : UInt8) : Ascii.isDigit b = true ↔ 0x30 ≤ b.toNat ∧ b.toNat ≤ 0x39 := by
  rw [Ascii.isDigit, Bool.and_eq_true, decide_eq_true_eq, decide_eq_true_eq,
    UInt8.le_iff_toNat_le, UInt8.le_iff_toNat_le]
  exact Iff.rfl

theorem isDigit_digitByte {d : Nat} (h : d < 10) : Ascii.isDigit (digitByte d) = true := by
  rw [isDigit_iff, digitByte_toNat h]
  omega

theorem digitsValue_reverse_map (ds : List Nat) (h : ∀ d ∈ ds, d < 10) :
    digitsValue (ds.reverse.map digitByte) = Nat.ofDigits 10 ds := by
  induction ds with
  | nil => rfl
  | cons d ds ih =>
    have hd : d < 10 := h d List.mem_cons_self
    rw [List.reverse_cons, List.map_append, digitsValue_append,
      ih fun x hx => h x (List.mem_cons_of_mem _ hx), Nat.ofDigits_cons]
    have hone : digitsValue [digitByte d] = d := by
      rw [digitsValue, List.foldl_cons, List.foldl_nil, digitByte_toNat hd]
      omega
    simp only [List.map_cons, List.map_nil, List.length_singleton, pow_one, hone]
    ring

@[simp] theorem digitsValue_natText (n : Nat) : digitsValue (natText n) = n := by
  rw [natText]
  split_ifs with h
  · rw [h]
    rfl
  · rw [digitsValue_reverse_map _ fun d hd => Nat.digits_lt_base (by decide) hd,
      Nat.ofDigits_digits]

theorem isDigit_of_mem_natText {n : Nat} {b : UInt8} (h : b ∈ natText n) :
    Ascii.isDigit b = true := by
  rw [natText] at h
  split_ifs at h
  · rw [List.mem_singleton] at h
    rw [h]
    rfl
  · obtain ⟨d, hd, rfl⟩ := List.mem_map.mp h
    exact isDigit_digitByte (Nat.digits_lt_base (by decide) (List.mem_reverse.mp hd))

theorem natText_ne_nil (n : Nat) : natText n ≠ [] := by
  rw [natText]
  split_ifs with h
  · simp
  · have hne : Nat.digits 10 n ≠ [] := Nat.digits_ne_nil_iff_ne_zero.mpr h
    simpa using hne

/-- A number above zero has no leading zero. -/
theorem head?_natText_ne_zero {n : Nat} (h : n ≠ 0) : (natText n).head? ≠ some Ascii.zero := by
  rw [natText, if_neg h, List.head?_map, List.head?_reverse]
  have hne : Nat.digits 10 n ≠ [] := Nat.digits_ne_nil_iff_ne_zero.mpr h
  rw [List.getLast?_eq_some_getLast hne, Option.map_some]
  intro heq
  have hlt : (Nat.digits 10 n).getLast hne < 10 :=
    Nat.digits_lt_base (by decide) (List.getLast_mem hne)
  have hbyte := congrArg UInt8.toNat (Option.some.inj heq)
  rw [digitByte_toNat hlt] at hbyte
  have : (Ascii.zero).toNat = 0x30 := rfl
  exact Nat.getLast_digit_ne_zero 10 h (by omega)

/-! ## The value of digits -/

theorem digitsValue_singleton {d : UInt8} (h : Ascii.isDigit d = true) :
    digitsValue [d] = d.toNat - 0x30 ∧ digitsValue [d] < 10 ∧
      (digitsValue [d] = 0 ↔ d = Ascii.zero) := by
  rw [isDigit_iff] at h
  have hvalue : digitsValue [d] = d.toNat - 0x30 := by
    rw [digitsValue, List.foldl_cons, List.foldl_nil]
    omega
  refine ⟨hvalue, by omega, ?_⟩
  rw [hvalue, ← UInt8.toNat_inj]
  have hzero : (Ascii.zero).toNat = 0x30 := rfl
  omega

theorem digitsValue_cons (d : UInt8) (ds : Bytes) :
    digitsValue (d :: ds) = digitsValue [d] * 10 ^ ds.length + digitsValue ds :=
  digitsValue_append [d] ds

theorem digitsValue_lt {ds : Bytes} (h : ∀ d ∈ ds, Ascii.isDigit d = true) :
    digitsValue ds < 10 ^ ds.length := by
  induction ds with
  | nil => simp [digitsValue]
  | cons d ds ih =>
    have hd := (digitsValue_singleton (h d List.mem_cons_self)).2.1
    have hds := ih fun x hx => h x (List.mem_cons_of_mem _ hx)
    rw [digitsValue_cons, List.length_cons, pow_succ]
    have hmul : digitsValue [d] * 10 ^ ds.length ≤ 9 * 10 ^ ds.length :=
      Nat.mul_le_mul_right _ (by omega)
    omega

/-- Digits without a leading zero reach the power of ten of their length. -/
theorem pow_le_digitsValue {ds : Bytes} (hne : ds ≠ [])
    (h : ∀ d ∈ ds, Ascii.isDigit d = true) (hhead : ds.head? ≠ some Ascii.zero) :
    10 ^ (ds.length - 1) ≤ digitsValue ds := by
  obtain ⟨d, rest, rfl⟩ := List.exists_cons_of_ne_nil hne
  have hd := (digitsValue_singleton (h d List.mem_cons_self)).2.2
  have hpos : 1 ≤ digitsValue [d] := by
    rw [Nat.one_le_iff_ne_zero, ne_eq, hd]
    intro hzero
    exact hhead (by rw [hzero, List.head?_cons])
  rw [digitsValue_cons, List.length_cons, Nat.add_sub_cancel]
  calc 10 ^ rest.length = 1 * 10 ^ rest.length := (one_mul _).symm
    _ ≤ digitsValue [d] * 10 ^ rest.length := Nat.mul_le_mul_right _ hpos
    _ ≤ _ := Nat.le_add_right _ _

theorem digitsValue_inj {xs ys : Bytes} (hx : ∀ d ∈ xs, Ascii.isDigit d = true)
    (hy : ∀ d ∈ ys, Ascii.isDigit d = true) (hlength : xs.length = ys.length)
    (hvalue : digitsValue xs = digitsValue ys) : xs = ys := by
  induction xs generalizing ys with
  | nil => exact (List.eq_nil_of_length_eq_zero hlength.symm).symm
  | cons x xs ih =>
    cases ys with
    | nil => cases hlength
    | cons y ys =>
      have hlength := Nat.succ.inj hlength
      have hxs : ∀ d ∈ xs, Ascii.isDigit d = true := fun d hd => hx d (List.mem_cons_of_mem _ hd)
      have hys : ∀ d ∈ ys, Ascii.isDigit d = true := fun d hd => hy d (List.mem_cons_of_mem _ hd)
      have hxlt := digitsValue_lt hxs
      have hylt := digitsValue_lt hys
      have hxd := isDigit_iff x |>.mp (hx x List.mem_cons_self)
      have hyd := isDigit_iff y |>.mp (hy y List.mem_cons_self)
      have hpow : 0 < 10 ^ ys.length := Nat.pow_pos (by decide)
      rw [digitsValue_cons x xs, digitsValue_cons y ys, hlength] at hvalue
      rw [hlength] at hxlt
      -- the first digit and the rest are the quotient and the remainder
      have hfirst : digitsValue [x] = digitsValue [y] := by
        have hdiv := congrArg (· / 10 ^ ys.length) hvalue
        simpa [Nat.mul_add_div, Nat.mul_comm _ (10 ^ ys.length), hpow, Nat.div_eq_of_lt hxlt,
          Nat.div_eq_of_lt hylt] using hdiv
      have hrest : digitsValue xs = digitsValue ys := by
        rw [hfirst] at hvalue
        exact Nat.add_left_cancel hvalue
      rw [(digitsValue_singleton (hx x List.mem_cons_self)).1,
        (digitsValue_singleton (hy y List.mem_cons_self)).1] at hfirst
      have hbyte : x = y := UInt8.toNat_inj.mp (by omega)
      rw [ih hxs hys hlength hrest, hbyte]

/-- Digits without a trailing zero have a value that ten does not divide. -/
theorem not_ten_dvd_digitsValue {ds : Bytes} (hne : ds ≠ [])
    (h : ∀ d ∈ ds, Ascii.isDigit d = true) (hlast : ds.getLast? ≠ some Ascii.zero) :
    ¬10 ∣ digitsValue ds := by
  obtain ⟨init, d, rfl⟩ := List.eq_nil_or_concat ds |>.resolve_left hne
  have hd := digitsValue_singleton (h d (by simp))
  intro hdvd
  rw [List.concat_eq_append, digitsValue_append, List.length_singleton, pow_one] at hdvd
  have hzero : digitsValue [d] = 0 := by omega
  rw [List.concat_eq_append, List.getLast?_concat, hd.2.2.mp hzero] at hlast
  exact hlast rfl

/-! ## Runs of zeros -/

theorem digitsValue_replicate (n : Nat) : digitsValue (List.replicate n Ascii.zero) = 0 := by
  induction n with
  | zero => rfl
  | succ n ih =>
    rw [List.replicate_succ', digitsValue_append, ih]
    rfl

theorem takeWhile_zero_eq (digits : Bytes) :
    digits.takeWhile (· == Ascii.zero) =
      List.replicate (digits.takeWhile (· == Ascii.zero)).length Ascii.zero := by
  rw [List.eq_replicate_iff]
  refine ⟨rfl, ?_⟩
  intro b hb
  have hbeq := List.mem_takeWhile_imp hb
  exact beq_iff_eq.mp hbeq

/-! ## Numerals of a fixed width -/

/-- The last `width` decimal digits of a number. -/
def padded : Nat → Nat → Bytes
  | 0, _ => []
  | width + 1, n => padded width (n / 10) ++ [digitByte (n % 10)]

@[simp] theorem length_padded (width n : Nat) : (padded width n).length = width := by
  induction width generalizing n with
  | zero => rfl
  | succ width ih => rw [padded, List.length_append, ih, List.length_singleton]

theorem isDigit_of_mem_padded {width n : Nat} {b : UInt8} (h : b ∈ padded width n) :
    Ascii.isDigit b = true := by
  induction width generalizing n with
  | zero => cases h
  | succ width ih =>
    rw [padded, List.mem_append, List.mem_singleton] at h
    cases h with
    | inl h => exact ih h
    | inr h =>
      rw [h]
      exact isDigit_digitByte (Nat.mod_lt n (by decide))

theorem digitsValue_padded {width n : Nat} (h : n < 10 ^ width) :
    digitsValue (padded width n) = n := by
  induction width generalizing n with
  | zero =>
    rw [pow_zero] at h
    rw [padded, digitsValue, List.foldl_nil]
    omega
  | succ width ih =>
    have hdigit : n % 10 < 10 := Nat.mod_lt n (by decide)
    have hvalue := (digitsValue_singleton (isDigit_digitByte hdigit)).1
    rw [digitByte_toNat hdigit] at hvalue
    rw [pow_succ] at h
    rw [padded, digitsValue_append, ih (by omega), hvalue, List.length_singleton, pow_one]
    omega

/-- Digits are the numeral of their value. -/
theorem padded_digitsValue {ds : Bytes} (h : ∀ d ∈ ds, Ascii.isDigit d = true) :
    padded ds.length (digitsValue ds) = ds :=
  digitsValue_inj (fun _ => isDigit_of_mem_padded) h (length_padded _ _)
    (digitsValue_padded (digitsValue_lt h))

end MissionWeave
