import MissionWeave.Errors
import MissionWeave.SignedDocument.Types
import Mathlib.Data.List.GetD
import Mathlib.Order.PiLex
import Mathlib.Data.Prod.Lex

/-!
# Protocol instants

`parse_instant` and the comparison of `ExactInstant`.  The regular expression
of the source is read from left to right here: none of its parts can match in
two ways.  `std::regex_match` is assumed to answer for texts of any length.

* `ExactInstant.key` places every instant in a linear order: seconds first,
  then the fractional digits with zeros behind them.
* `lt_iff`, `equals_iff`: the comparison operators are those of that order.
-/

namespace MissionWeave

/-! ## `parse_instant` -/

/-- What the groups of the regular expression match. -/
structure TimestampText where
  year : Nat
  month : Nat
  day : Nat
  hour : Nat
  minute : Nat
  second : Nat
  fraction : Bytes
  offset : Bytes

/-- `[0-9]{count}`. -/
def matchDigits (count : Nat) (text : Bytes) : Option (Nat × Bytes) :=
  if (text.take count).length = count ∧ (text.take count).all Ascii.isDigit then
    some (digitsValue (text.take count), text.drop count)
  else none

/-- One byte of a class. -/
def matchByte (p : UInt8 → Bool) : Bytes → Option Bytes
  | b :: rest => if p b then some rest else none
  | [] => none

/-- `(?:\.([0-9]+))?`. -/
def matchFraction (text : Bytes) : Option (Bytes × Bytes) :=
  match matchByte (· == Ascii.point) text with
  | none => some ([], text)
  | some rest =>
    if rest.takeWhile Ascii.isDigit = [] then none
    else some (rest.takeWhile Ascii.isDigit, rest.dropWhile Ascii.isDigit)

/-- `[Zz]`. -/
def isZulu (b : UInt8) : Bool := b == 0x5A || b == 0x7A

/-- `[Zz]|[+-][0-9]{2}:[0-9]{2}`, up to the end of the text. -/
def matchesOffset : Bytes → Bool
  | [z] => isZulu z
  | [sign, h1, h2, colon, m1, m2] =>
    (sign == Ascii.plus || sign == Ascii.minus) && Ascii.isDigit h1 && Ascii.isDigit h2 &&
      colon == Ascii.colon && Ascii.isDigit m1 && Ascii.isDigit m2
  | _ => false

/-- The regular expression of `parse_instant`. -/
def matchTimestamp (text : Bytes) : Option TimestampText := do
  let (year, text) ← matchDigits 4 text
  let text ← matchByte (· == Ascii.minus) text
  let (month, text) ← matchDigits 2 text
  let text ← matchByte (· == Ascii.minus) text
  let (day, text) ← matchDigits 2 text
  let text ← matchByte (fun b => b == 0x54 || b == Ascii.lowerT) text
  let (hour, text) ← matchDigits 2 text
  let text ← matchByte (· == Ascii.colon) text
  let (minute, text) ← matchDigits 2 text
  let text ← matchByte (· == Ascii.colon) text
  let (second, text) ← matchDigits 2 text
  let (fraction, offset) ← matchFraction text
  if matchesOffset offset then
    some ⟨year, month, day, hour, minute, second, fraction, offset⟩
  else none

/-- `days_from_civil`. -/
def daysFromCivil (year month day : Int) : Int :=
  let adjustedYear := year - (if month ≤ 2 then 1 else 0)
  let era := adjustedYear.tdiv 400
  let yearOfEra := adjustedYear - era * 400
  let adjustedMonth := month + (if 2 < month then -3 else 9)
  let dayOfYear := (153 * adjustedMonth + 2).tdiv 5 + day - 1
  let dayOfEra := yearOfEra * 365 + yearOfEra.tdiv 4 - yearOfEra.tdiv 100 + dayOfYear
  era * 146097 + dayOfEra - 719468

/-- `leap_year`. -/
def leapYear (year : Nat) : Bool := year % 4 == 0 && (year % 100 != 0 || year % 400 == 0)

def monthLengths : List Nat := [31, 28, 31, 30, 31, 30, 31, 31, 30, 31, 30, 31]

/-- The offset of a local time, in seconds. -/
def offsetSeconds (offset : Bytes) : Except Thrown Int :=
  if offset = [Ascii.minus, Ascii.zero, Ascii.zero, Ascii.colon, Ascii.zero, Ascii.zero] then
    .error (.invalidArgument "unknown local offset -00:00 is not an instant")
  else if offset.length = 1 then .ok 0
  else
    let offsetHour := digitsValue ((offset.drop 1).take 2)
    let offsetMinute := digitsValue ((offset.drop 4).take 2)
    if 23 < offsetHour ∨ 59 < offsetMinute then
      .error (.invalidArgument "numeric offset is outside RFC 3339 bounds")
    else
      .ok ((if offset.head? = some Ascii.plus then 1 else -1) *
        ((offsetHour * 3600 + offsetMinute * 60 : Nat) : Int))

/-- `while (!fraction.empty() && fraction.back() == '0') { fraction.pop_back(); }`. -/
def trimZeros (fraction : Bytes) : Bytes :=
  (fraction.reverse.dropWhile (· == Ascii.zero)).reverse

/-- `parse_instant`. -/
def parseInstant (text : Bytes) : Except Thrown ExactInstant :=
  match matchTimestamp text with
  | none => .error (.invalidArgument "not an RFC 3339 timestamp")
  | some t =>
    if t.year = 0 then .error (.invalidArgument "year 0000 is not supported")
    else if t.month < 1 ∨ 12 < t.month then
      .error (.invalidArgument "month is outside protocol bounds")
    else
      let maximumDay := monthLengths.getD (t.month - 1) 0 +
        (if t.month = 2 ∧ leapYear t.year = true then 1 else 0)
      if t.day < 1 ∨ maximumDay < t.day ∨ 23 < t.hour ∨ 59 < t.minute ∨ 59 < t.second then
        .error (.invalidArgument "timestamp is outside Gregorian protocol bounds")
      else do
        let offset ← offsetSeconds t.offset
        let localSecond := daysFromCivil t.year t.month t.day * 86400 + t.hour * 3600 +
          t.minute * 60 + t.second
        .ok ⟨localSecond - offset, trimZeros t.fraction⟩

/-! ## Comparison -/

namespace ExactInstant

/-- The digit at an index, `'0'` behind the last one. -/
def digitAt (digits : Bytes) (index : Nat) : UInt8 := digits.getD index Ascii.zero

/-- The loop of `operator<=>` over the fractional digits. -/
def compareDigits (left right : Bytes) : Nat → Nat → Ordering
  | 0, _ => .eq
  | count + 1, index =>
    match compare (digitAt left index) (digitAt right index) with
    | .eq => compareDigits left right count (index + 1)
    | order => order

/-- `ExactInstant::operator<=>`. -/
def order (left right : ExactInstant) : Ordering :=
  (compare left.epochSecond right.epochSecond).then
    (compareDigits left.fractionalDigits right.fractionalDigits
      (max left.fractionalDigits.length right.fractionalDigits.length) 0)

/-- `left < right`. -/
def lt (left right : ExactInstant) : Bool := order left right == .lt

/-- `ExactInstant::operator==`. -/
def equals (left right : ExactInstant) : Bool := order left right == .eq

/-- The place of an instant in the order of time. -/
noncomputable def key (instant : ExactInstant) : ℤ ×ₗ Lex (ℕ → ℕ) :=
  toLex (instant.epochSecond, toLex fun i => (digitAt instant.fractionalDigits i).toNat)

theorem digitAt_of_length_le {digits : Bytes} {i : Nat} (h : digits.length ≤ i) :
    digitAt digits i = Ascii.zero :=
  List.getD_eq_default _ _ h

/-- The loop finds the first index at which the digits differ. -/
theorem compareDigits_spec (left right : Bytes) (count index : Nat) :
    (compareDigits left right count index = .eq ∧
      ∀ i, index ≤ i → i < index + count → digitAt left i = digitAt right i) ∨
    ∃ i, index ≤ i ∧ i < index + count ∧
      (∀ j, index ≤ j → j < i → digitAt left j = digitAt right j) ∧
      compareDigits left right count index = compare (digitAt left i) (digitAt right i) ∧
      digitAt left i ≠ digitAt right i := by
  induction count generalizing index with
  | zero => exact Or.inl ⟨rfl, fun i h h' => absurd h' (by omega)⟩
  | succ count ih =>
    by_cases heq : digitAt left index = digitAt right index
    · have hcompare : compare (digitAt left index) (digitAt right index) = .eq := by
        rw [heq]
        exact Std.ReflCmp.compare_self
      rw [compareDigits, hcompare]
      dsimp only
      rcases ih (index + 1) with ⟨hloop, hall⟩ | ⟨i, hle, hlt, hbefore, hloop, hne⟩
      · refine Or.inl ⟨hloop, fun i hi hi' => ?_⟩
        rcases Nat.eq_or_lt_of_le hi with rfl | hi
        · exact heq
        · exact hall i hi (by omega)
      · refine Or.inr ⟨i, by omega, by omega, fun j hj hj' => ?_, hloop, hne⟩
        rcases Nat.eq_or_lt_of_le hj with rfl | hj
        · exact heq
        · exact hbefore j hj hj'
    · refine Or.inr ⟨index, le_refl _, by omega, fun j h h' => absurd h' (by omega), ?_, heq⟩
      rw [compareDigits]
      cases hcompare : compare (digitAt left index) (digitAt right index) with
      | eq => exact absurd (Std.LawfulEqCmp.eq_of_compare hcompare) heq
      | lt => rfl
      | gt => rfl

/-- The comparison is that of the keys. -/
theorem order_spec (left right : ExactInstant) :
    (order left right = .lt ∧ left.key < right.key) ∨
      (order left right = .eq ∧ left.key = right.key) ∨
        order left right = .gt ∧ right.key < left.key := by
  rw [order]
  rcases lt_trichotomy left.epochSecond right.epochSecond with hlt | heq | hgt
  · have hcompare : compare left.epochSecond right.epochSecond = .lt := compare_lt_iff_lt.mpr hlt
    rw [hcompare]
    exact Or.inl ⟨rfl, Prod.Lex.toLex_lt_toLex.mpr (Or.inl hlt)⟩
  · have hcompare : compare left.epochSecond right.epochSecond = .eq := compare_eq_iff_eq.mpr heq
    rw [hcompare, Ordering.then]
    rcases compareDigits_spec left.fractionalDigits right.fractionalDigits
        (max left.fractionalDigits.length right.fractionalDigits.length) 0 with
      ⟨hloop, hall⟩ | ⟨i, _, _, hbefore, hloop, hne⟩
    · refine Or.inr (Or.inl ⟨hloop, ?_⟩)
      have hdigits : (fun i => (digitAt left.fractionalDigits i).toNat) =
          fun i => (digitAt right.fractionalDigits i).toNat := by
        funext i
        by_cases hi : i < max left.fractionalDigits.length right.fractionalDigits.length
        · rw [hall i (Nat.zero_le i) (by omega)]
        · rw [digitAt_of_length_le (by omega), digitAt_of_length_le (by omega)]
      rw [key, key, heq, hdigits]
    · have hsame : ∀ j < i, (digitAt left.fractionalDigits j).toNat =
          (digitAt right.fractionalDigits j).toNat := fun j hj => by
        rw [hbefore j (Nat.zero_le j) hj]
      rw [hloop]
      rcases lt_trichotomy (digitAt left.fractionalDigits i).toNat
          (digitAt right.fractionalDigits i).toNat with hlt | hdigit | hgt
      · refine Or.inl ⟨?_, Prod.Lex.toLex_lt_toLex.mpr (Or.inr ⟨heq, i, hsame, hlt⟩)⟩
        exact compareOfLessAndEq_eq_lt.mpr (UInt8.lt_iff_toNat_lt.mpr hlt)
      · exact absurd (UInt8.toNat_inj.mp hdigit) hne
      · refine Or.inr (Or.inr ⟨?_, Prod.Lex.toLex_lt_toLex.mpr
          (Or.inr ⟨heq.symm, i, fun j hj => (hsame j hj).symm, hgt⟩)⟩)
        refine Std.OrientedCmp.gt_of_lt ?_
        exact compareOfLessAndEq_eq_lt.mpr (UInt8.lt_iff_toNat_lt.mpr hgt)
  · have hcompare : compare left.epochSecond right.epochSecond = .gt := compare_gt_iff_gt.mpr hgt
    rw [hcompare]
    exact Or.inr (Or.inr ⟨rfl, Prod.Lex.toLex_lt_toLex.mpr (Or.inl hgt)⟩)

variable {left right : ExactInstant}

theorem lt_iff : lt left right = true ↔ left.key < right.key := by
  rw [lt, beq_iff_eq]
  rcases order_spec left right with ⟨h, hkey⟩ | ⟨h, hkey⟩ | ⟨h, hkey⟩
  · simp [h, hkey]
  · simp [h, hkey]
  · simp [h, hkey.le]

theorem equals_iff : equals left right = true ↔ left.key = right.key := by
  rw [equals, beq_iff_eq]
  rcases order_spec left right with ⟨h, hkey⟩ | ⟨h, hkey⟩ | ⟨h, hkey⟩
  · simp [h, hkey.ne]
  · simp [h, hkey]
  · simp [h, hkey.ne']

theorem not_lt_iff : lt left right = false ↔ right.key ≤ left.key := by
  rw [Bool.eq_false_iff, ne_eq, lt_iff, not_lt]

end ExactInstant

/-- The instant is in the validity interval of the key. -/
structure ResolvedKey.ValidAt (key : ResolvedKey) (instant : ExactInstant) : Prop where
  validFrom : instant.lt key.validFromInstant = false
  validUntil : ∀ limit ∈ key.validUntilInstant, instant.lt limit = true
  revokedAt : ∀ limit ∈ key.revokedAtInstant, instant.lt limit = true

end MissionWeave
