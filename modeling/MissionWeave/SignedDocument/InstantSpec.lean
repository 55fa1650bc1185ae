import MissionWeave.CodeLib.Calendar
import MissionWeave.CodeLib.Decimal
import MissionWeave.Json.DecoderComplete
import MissionWeave.SignedDocument.Instant

/-!
# What `parse_instant` accepts and what it returns

* `dayOf_next`: the day formula of the source grows by one from each
  date of the calendar to the next.
* `DateTime`: the date and time texts that `parse_instant` accepts.
* `parseInstant_exact`: `parse_instant` accepts these texts, and the instant
  that it returns is the exact number of seconds since the epoch.
-/

namespace MissionWeave

open Calendar (Date LeapYear monthDays IsDayNumber)
open Decoder (StartsNot takeWhile_append dropWhile_append)

/-! ## `days_from_civil` -/

theorem leapYear_iff (year : Nat) : leapYear year = true ↔ LeapYear year := by
  unfold leapYear LeapYear
  simp only [Bool.and_eq_true, Bool.or_eq_true, beq_iff_eq, bne_iff_ne, ne_eq,
    Nat.dvd_iff_mod_eq_zero]

/-- `days_from_civil` on a date. -/
def dayOf (d : Date) : Int := daysFromCivil d.year d.month d.day

/-- The formula with divisions that round down, for the years from 1 on. -/
theorem daysFromCivil_eq {year month day : Int} (hyear : 1 ≤ year) (hmonth : 1 ≤ month) :
    daysFromCivil year month day =
      let adjustedYear := year - (if month ≤ 2 then 1 else 0)
      let adjustedMonth := month + (if 2 < month then -3 else 9)
      adjustedYear * 365 + adjustedYear / 4 - adjustedYear / 100 + adjustedYear / 400 +
        (153 * adjustedMonth + 2) / 5 + day - 719469 := by
  unfold daysFromCivil
  dsimp only
  have hadjusted : 0 ≤ year - (if month ≤ 2 then 1 else 0) := by
    split_ifs <;> omega
  have hshifted : 0 ≤ 153 * (month + (if 2 < month then -3 else 9)) + 2 := by
    split_ifs <;> omega
  generalize year - (if month ≤ 2 then 1 else 0) = adjusted at hadjusted
  rw [Int.tdiv_eq_ediv_of_nonneg hadjusted, Int.tdiv_eq_ediv_of_nonneg hshifted]
  have hyears : 0 ≤ adjusted - adjusted / 400 * 400 := by omega
  rw [Int.tdiv_eq_ediv_of_nonneg hyears, Int.tdiv_eq_ediv_of_nonneg hyears]
  omega

/-- From the last day of a month to the first day of the next one. -/
theorem daysFromCivil_month {year month : Nat} (hyear : 1 ≤ year) (hpos : 1 ≤ month)
    (hlt : month < 12) :
    daysFromCivil year (month + 1 : Nat) 1 =
      daysFromCivil year month (monthDays year month) + 1 := by
  rw [daysFromCivil_eq (by omega) (by omega), daysFromCivil_eq (by omega) (by omega)]
  by_cases hfebruary : month = 2
  · -- the years of the formula start in March: the leap day is the last one
    subst hfebruary
    simp only [monthDays, LeapYear, Nat.dvd_iff_mod_eq_zero]
    by_cases hleap : year % 4 = 0 ∧ (¬year % 100 = 0 ∨ year % 400 = 0)
    · rw [if_pos hleap]
      norm_num
      omega
    · rw [if_neg hleap]
      norm_num
      omega
  · have hmonth : month = 1 ∨ month = 3 ∨ month = 4 ∨ month = 5 ∨ month = 6 ∨ month = 7 ∨
        month = 8 ∨ month = 9 ∨ month = 10 ∨ month = 11 := by omega
    rcases hmonth with rfl | rfl | rfl | rfl | rfl | rfl | rfl | rfl | rfl | rfl <;>
      norm_num [monthDays] <;> omega

theorem daysFromCivil_year {year : Nat} (hyear : 1 ≤ year) :
    daysFromCivil (year + 1 : Nat) 1 1 = daysFromCivil year 12 31 + 1 := by
  rw [daysFromCivil_eq (by omega) (by omega), daysFromCivil_eq (by omega) (by omega)]
  norm_num
  omega

/-- The formula counts the days one by one. -/
theorem dayOf_next (d : Date) : dayOf d.next = dayOf d + 1 := by
  have hyear := d.year_pos
  have hpos := d.month_pos
  unfold Date.next dayOf
  split_ifs with hday hmonth
  · show daysFromCivil d.year d.month (d.day + 1 : Nat) = daysFromCivil d.year d.month d.day + 1
    rw [daysFromCivil_eq (by omega) (by omega), daysFromCivil_eq (by omega) (by omega)]
    push_cast
    omega
  · have hlast : d.day = monthDays d.year d.month := le_antisymm d.day_le (not_lt.mp hday)
    rw [hlast]
    exact daysFromCivil_month d.year_pos d.month_pos hmonth
  · have htwelve : d.month = 12 := le_antisymm d.month_le (not_lt.mp hmonth)
    have hlast : d.day = monthDays d.year d.month := le_antisymm d.day_le (not_lt.mp hday)
    rw [hlast, htwelve]
    exact daysFromCivil_year d.year_pos

/-- 1970-01-01. -/
def epoch : Date :=
  Date.firstOf 1970 1 (by decide) Date.first.month_pos Date.first.month_le

theorem dayOf_epoch : dayOf epoch = 0 := by decide

/-- The day number of the source is the one that counting gives. -/
theorem isDayNumber_dayOf (d : Date) (n : Int) : IsDayNumber epoch d n ↔ n = dayOf d := by
  rw [Calendar.isDayNumber_iff dayOf_next, dayOf_epoch, sub_zero]

/-! ## The parts of the text -/

theorem matchDigits_padded {count n : Nat} (h : n < 10 ^ count) (rest : Bytes) :
    matchDigits count (padded count n ++ rest) = some (n, rest) := by
  have htake : (padded count n ++ rest).take count = padded count n := by
    rw [List.take_append_of_le_length (length_padded count n).ge,
      List.take_of_length_le (length_padded count n).le]
  have hdrop : (padded count n ++ rest).drop count = rest := by
    rw [List.drop_append_of_le_length (length_padded count n).ge,
      List.drop_of_length_le (length_padded count n).le, List.nil_append]
  have hdigits : (padded count n).all Ascii.isDigit = true :=
    List.all_eq_true.mpr fun _ hb => isDigit_of_mem_padded hb
  unfold matchDigits
  rw [htake, hdrop, if_pos ⟨length_padded count n, hdigits⟩, digitsValue_padded h]

theorem matchDigits_sound {count n : Nat} {text rest : Bytes}
    (h : matchDigits count text = some (n, rest)) :
    n < 10 ^ count ∧ text = padded count n ++ rest := by
  unfold matchDigits at h
  split_ifs at h with hmatch
  obtain ⟨hlength, hall⟩ := hmatch
  have hdigits : ∀ d ∈ text.take count, Ascii.isDigit d = true := List.all_eq_true.mp hall
  have heq := Prod.mk.inj (Option.some.inj h)
  have hlt := digitsValue_lt hdigits
  have hpadded := padded_digitsValue hdigits
  rw [hlength, heq.1] at hlt hpadded
  refine ⟨hlt, ?_⟩
  rw [hpadded, ← heq.2, List.take_append_drop]

theorem matchByte_eq_some_iff {p : UInt8 → Bool} {text rest : Bytes} :
    matchByte p text = some rest ↔ ∃ b, p b = true ∧ text = b :: rest := by
  cases text with
  | nil => simp [matchByte]
  | cons b text =>
    rw [matchByte]
    split_ifs with hb
    · simp [hb]
    · simp [hb]

theorem matchFraction_sound {text fraction offset : Bytes}
    (h : matchFraction text = some (fraction, offset)) :
    ∃ f : Option Bytes, (∀ ds ∈ f, Digits ds) ∧ fraction = f.getD [] ∧
      text = renderFraction f ++ offset := by
  unfold matchFraction at h
  cases hpoint : matchByte (· == Ascii.point) text with
  | none =>
    rw [hpoint] at h
    have heq := Prod.mk.inj (Option.some.inj h)
    exact ⟨none, by simp, heq.1.symm, heq.2⟩
  | some rest =>
    rw [hpoint] at h
    dsimp only at h
    split_ifs at h with hnil
    have heq := Prod.mk.inj (Option.some.inj h)
    obtain ⟨b, hb, htext⟩ := matchByte_eq_some_iff.mp hpoint
    refine ⟨some (rest.takeWhile Ascii.isDigit), ?_, heq.1.symm, ?_⟩
    · intro ds hds
      cases hds
      exact ⟨hnil, fun d hd => List.mem_takeWhile_imp hd⟩
    · rw [htext, beq_iff_eq.mp hb, renderFraction, ← heq.2, List.cons_append,
        List.takeWhile_append_dropWhile]

/-- A fraction ends where an offset starts. -/
abbrev EndsFraction (offset : Bytes) : Prop :=
  StartsNot (fun b => b == Ascii.point || Ascii.isDigit b) offset

theorem matchFraction_render {f : Option Bytes} (hf : ∀ ds ∈ f, Digits ds) {offset : Bytes}
    (h : EndsFraction offset) :
    matchFraction (renderFraction f ++ offset) = some (f.getD [], offset) := by
  cases f with
  | none =>
    cases offset with
    | nil => rfl
    | cons b offset =>
      have hb : b ≠ Ascii.point := beq_eq_false_iff_ne.mp (Bool.or_eq_false_iff.mp h).1
      simp [renderFraction, matchFraction, matchByte, hb]
  | some ds =>
    obtain ⟨hne, hdigits⟩ := hf ds rfl
    have hends : StartsNot Ascii.isDigit offset :=
      h.imp fun b hb => by rw [hb, Bool.or_true]
    simp [renderFraction, matchFraction, matchByte, takeWhile_append hdigits hends,
      dropWhile_append hdigits hends, hne]

/-! ## Offsets -/

/-- An offset that `parse_instant` accepts. -/
inductive Offset where
  | zulu (letter : UInt8) (hletter : isZulu letter = true)
  | numeric (negative : Bool) (hour minute : Nat) (hhour : hour ≤ 23) (hminute : minute ≤ 59)
    (hknown : negative = true → hour ≠ 0 ∨ minute ≠ 0)

namespace Offset

def render : Offset → Bytes
  | zulu letter _ => [letter]
  | numeric negative hour minute _ _ _ =>
    (if negative then Ascii.minus else Ascii.plus) ::
      (padded 2 hour ++ Ascii.colon :: padded 2 minute)

/-- How far the local time is ahead of UTC, in seconds. -/
def seconds : Offset → Int
  | zulu _ _ => 0
  | numeric negative hour minute _ _ _ =>
    (if negative then -1 else 1) * (hour * 3600 + minute * 60)

end Offset

/-- The digits of a numeral of two digits. -/
theorem padded_two {n : Nat} (h : n < 100) :
    ∃ a b, padded 2 n = [a, b] ∧ Ascii.isDigit a = true ∧ Ascii.isDigit b = true ∧
      digitsValue [a, b] = n := by
  have hvalue : digitsValue (padded 2 n) = n := digitsValue_padded h
  have hdigits : ∀ d ∈ padded 2 n, Ascii.isDigit d = true := fun _ => isDigit_of_mem_padded
  have hlength := length_padded 2 n
  obtain ⟨a, b, hab⟩ := List.length_eq_two.mp hlength
  rw [hab] at hvalue hdigits
  exact ⟨a, b, hab, hdigits a (by simp), hdigits b (by simp), hvalue⟩

theorem padded_two_digitsValue {a b : UInt8} (ha : Ascii.isDigit a = true)
    (hb : Ascii.isDigit b = true) :
    digitsValue [a, b] < 100 ∧ padded 2 (digitsValue [a, b]) = [a, b] := by
  have hdigits : ∀ d ∈ [a, b], Ascii.isDigit d = true := by simp [ha, hb]
  exact ⟨digitsValue_lt hdigits, padded_digitsValue hdigits⟩

/-- The text of a numeric offset. -/
def numericOffset (sign : UInt8) (hour minute : Nat) : Bytes :=
  sign :: (padded 2 hour ++ Ascii.colon :: padded 2 minute)

theorem matchesOffset_iff (offset : Bytes) :
    matchesOffset offset = true ↔
      (∃ letter, isZulu letter = true ∧ offset = [letter]) ∨
        ∃ sign hour minute, (sign = Ascii.plus ∨ sign = Ascii.minus) ∧ hour < 100 ∧ minute < 100 ∧
          offset = numericOffset sign hour minute := by
  constructor
  · intro h
    unfold matchesOffset at h
    split at h
    · rename_i letter
      exact Or.inl ⟨letter, h, rfl⟩
    · rename_i sign h1 h2 colon m1 m2
      simp only [Bool.and_eq_true, Bool.or_eq_true, beq_iff_eq] at h
      obtain ⟨⟨⟨⟨⟨hsign, hh1⟩, hh2⟩, rfl⟩, hm1⟩, hm2⟩ := h
      obtain ⟨hhour, hhours⟩ := padded_two_digitsValue hh1 hh2
      obtain ⟨hminute, hminutes⟩ := padded_two_digitsValue hm1 hm2
      refine Or.inr ⟨sign, _, _, hsign, hhour, hminute, ?_⟩
      rw [numericOffset, hhours, hminutes]
      rfl
    · cases h
  · intro h
    rcases h with ⟨letter, hletter, rfl⟩ | ⟨sign, hour, minute, hsign, hhour, hminute, rfl⟩
    · exact hletter
    · obtain ⟨h1, h2, hhours, hh1, hh2, -⟩ := padded_two hhour
      obtain ⟨m1, m2, hminutes, hm1, hm2, -⟩ := padded_two hminute
      rw [numericOffset, hhours, hminutes]
      simp [matchesOffset, hsign, hh1, hh2, hm1, hm2]

theorem endsFraction_of_matchesOffset {offset : Bytes} (h : matchesOffset offset = true) :
    EndsFraction offset := by
  rcases (matchesOffset_iff offset).mp h with
    ⟨letter, hletter, rfl⟩ | ⟨sign, _, _, hsign, _, _, rfl⟩
  · unfold isZulu at hletter
    rw [Bool.or_eq_true, beq_iff_eq, beq_iff_eq] at hletter
    rcases hletter with rfl | rfl <;> rfl
  · rcases hsign with rfl | rfl <;> rfl

theorem offsetSeconds_zulu (letter : UInt8) : offsetSeconds [letter] = .ok 0 := by
  simp [offsetSeconds]

theorem offsetSeconds_numeric (sign : UInt8) {hour minute : Nat} (hhour : hour < 100)
    (hminute : minute < 100) :
    offsetSeconds (numericOffset sign hour minute) =
      if sign = Ascii.minus ∧ hour = 0 ∧ minute = 0 then
        .error (.invalidArgument "unknown local offset -00:00 is not an instant")
      else if 23 < hour ∨ 59 < minute then
        .error (.invalidArgument "numeric offset is outside RFC 3339 bounds")
      else .ok ((if sign = Ascii.plus then 1 else -1) * (hour * 3600 + minute * 60 : Nat)) := by
  have hzero : padded 2 0 = [Ascii.zero, Ascii.zero] := rfl
  have hinj {n : Nat} (hn : n < 100) : padded 2 n = [Ascii.zero, Ascii.zero] ↔ n = 0 := by
    constructor
    · intro h
      have hvalue : digitsValue (padded 2 n) = n := digitsValue_padded hn
      rw [← hvalue, h]
      rfl
    · intro h
      rw [h, hzero]
  have hunknown : numericOffset sign hour minute =
      [Ascii.minus, Ascii.zero, Ascii.zero, Ascii.colon, Ascii.zero, Ascii.zero] ↔
        sign = Ascii.minus ∧ hour = 0 ∧ minute = 0 := by
    rw [← hinj hhour, ← hinj hminute]
    obtain ⟨h1, h2, hhours, -⟩ := padded_two hhour
    obtain ⟨m1, m2, hminutes, -⟩ := padded_two hminute
    rw [numericOffset, hhours, hminutes]
    simp [and_assoc]
  obtain ⟨h1, h2, hhours, -, -, hhour'⟩ := padded_two hhour
  obtain ⟨m1, m2, hminutes, -, -, hminute'⟩ := padded_two hminute
  unfold offsetSeconds
  simp only [hunknown]
  simp only [numericOffset, hhours, hminutes, List.cons_append, List.nil_append, List.length_cons,
    List.length_nil, List.drop_succ_cons, List.drop_zero, List.take_succ_cons, List.take_zero,
    List.head?_cons, Option.some.injEq, hhour', hminute']
  rw [if_neg (c := 0 + 1 + 1 + 1 + 1 + 1 + 1 = 1) (by decide)]

/-- The accepted offsets and their seconds. -/
theorem offset_iff (offset : Bytes) (s : Int) :
    (matchesOffset offset = true ∧ offsetSeconds offset = .ok s) ↔
      ∃ o : Offset, o.render = offset ∧ o.seconds = s := by
  have hne : Ascii.minus ≠ Ascii.plus := by decide
  rw [matchesOffset_iff]
  constructor
  · intro ⟨hmatch, hs⟩
    rcases hmatch with ⟨letter, hletter, rfl⟩ | ⟨sign, hour, minute, hsign, hhour, hminute, rfl⟩
    · rw [offsetSeconds_zulu] at hs
      exact ⟨.zulu letter hletter, rfl, Except.ok.inj hs⟩
    · rw [offsetSeconds_numeric sign hhour hminute] at hs
      rcases hsign with rfl | rfl
      · rw [if_neg (by simp [hne.symm]), if_pos rfl, one_mul] at hs
        split_ifs at hs with hbounds
        refine ⟨.numeric false hour minute (by omega) (by omega) (by simp), rfl, ?_⟩
        simpa [Offset.seconds] using hs
      · rw [if_neg hne] at hs
        split_ifs at hs with hunknown hbounds
        have hknown : hour ≠ 0 ∨ minute ≠ 0 := by
          by_contra hzero
          exact hunknown ⟨rfl, by omega, by omega⟩
        refine ⟨.numeric true hour minute (by omega) (by omega) (fun _ => hknown), rfl, ?_⟩
        simpa [Offset.seconds] using hs
  · intro ⟨o, hrender, hseconds⟩
    cases o with
    | zulu letter hletter =>
      refine ⟨Or.inl ⟨letter, hletter, hrender.symm⟩, ?_⟩
      rw [← hrender, ← hseconds]
      exact offsetSeconds_zulu letter
    | numeric negative hour minute hhour hminute hknown =>
      have htext :
          offset = numericOffset (if negative then Ascii.minus else Ascii.plus) hour minute :=
        hrender.symm
      refine ⟨Or.inr ⟨_, hour, minute, ?_, by omega, by omega, htext⟩, ?_⟩
      · cases negative with
        | true => exact Or.inr rfl
        | false => exact Or.inl rfl
      · rw [htext, offsetSeconds_numeric _ (by omega) (by omega), ← hseconds, Offset.seconds]
        have hbounds : ¬(23 < hour ∨ 59 < minute) := by omega
        cases negative with
        | true =>
          have hunknown : ¬(hour = 0 ∧ minute = 0) := by
            have := hknown rfl
            omega
          simp [hunknown, hbounds, hne]
        | false => simp [hbounds, hne.symm]

/-! ## The regular expression -/

/-- A date and a time in the layout of RFC 3339. -/
def timestampText (year month day : Nat) (separator : UInt8) (hour minute second : Nat)
    (fraction : Option Bytes) (offset : Bytes) : Bytes :=
  padded 4 year ++ Ascii.minus :: (padded 2 month ++ Ascii.minus :: (padded 2 day ++
    separator :: (padded 2 hour ++ Ascii.colon :: (padded 2 minute ++ Ascii.colon ::
      (padded 2 second ++ (renderFraction fraction ++ offset))))))

def isSeparator (b : UInt8) : Bool := b == 0x54 || b == Ascii.lowerT

theorem matchTimestamp_sound {text : Bytes} {t : TimestampText} (h : matchTimestamp text = some t) :
    ∃ separator f, isSeparator separator = true ∧ t.year < 10 ^ 4 ∧ (∀ ds ∈ f, Digits ds) ∧
      t.fraction = f.getD [] ∧ matchesOffset t.offset = true ∧
      text = timestampText t.year t.month t.day separator t.hour t.minute t.second f t.offset := by
  unfold matchTimestamp at h
  simp only [Option.bind_eq_bind, Option.bind_eq_some_iff, Prod.exists, matchByte_eq_some_iff,
    Option.ite_none_right_eq_some, Option.some.injEq] at h
  -- from left to right, each part with the text behind it
  obtain ⟨year, _, hyear, _, ⟨_, h1, rfl⟩, month, _, hmonth, _, ⟨_, h2, rfl⟩, day, _, hday, _,
    ⟨separator, hseparator, rfl⟩, hour, _, hhour, _, ⟨_, h3, rfl⟩, minute, _, hminute, _,
    ⟨_, h4, rfl⟩, second, _, hsecond, fraction, offset, hfraction, hoffset, rfl⟩ := h
  obtain ⟨hlt, rfl⟩ := matchDigits_sound hyear
  obtain ⟨-, rfl⟩ := matchDigits_sound hmonth
  obtain ⟨-, rfl⟩ := matchDigits_sound hday
  obtain ⟨-, rfl⟩ := matchDigits_sound hhour
  obtain ⟨-, rfl⟩ := matchDigits_sound hminute
  obtain ⟨-, rfl⟩ := matchDigits_sound hsecond
  obtain ⟨f, hf, hgetD, rfl⟩ := matchFraction_sound hfraction
  rw [beq_iff_eq] at h1 h2 h3 h4
  refine ⟨separator, f, hseparator, hlt, hf, hgetD, hoffset, ?_⟩
  rw [h1, h2, h3, h4, timestampText]

theorem matchTimestamp_complete {year month day hour minute second : Nat} {separator : UInt8}
    {f : Option Bytes} {offset : Bytes} (hyear : year < 10 ^ 4) (hmonth : month < 10 ^ 2)
    (hday : day < 10 ^ 2) (hseparator : isSeparator separator = true) (hhour : hour < 10 ^ 2)
    (hminute : minute < 10 ^ 2) (hsecond : second < 10 ^ 2) (hf : ∀ ds ∈ f, Digits ds)
    (hoffset : matchesOffset offset = true) :
    matchTimestamp (timestampText year month day separator hour minute second f offset) =
      some ⟨year, month, day, hour, minute, second, f.getD [], offset⟩ := by
  have hbyte {p : UInt8 → Bool} {b : UInt8} (hb : p b = true) (rest : Bytes) :
      matchByte p (b :: rest) = some rest := matchByte_eq_some_iff.mpr ⟨b, hb, rfl⟩
  have hends := endsFraction_of_matchesOffset hoffset
  unfold matchTimestamp timestampText
  simp only [Option.bind_eq_bind, Option.bind_some, matchDigits_padded hyear,
    matchDigits_padded hmonth, matchDigits_padded hday, matchDigits_padded hhour,
    matchDigits_padded hminute, matchDigits_padded hsecond, matchFraction_render hf hends,
    hbyte (p := (· == Ascii.minus)) (b := Ascii.minus) rfl,
    hbyte (p := (· == Ascii.colon)) (b := Ascii.colon) rfl,
    hbyte (p := fun b => b == 0x54 || b == Ascii.lowerT) hseparator, hoffset, if_true]

/-! ## Dates and times -/

/-- A date and a time of day that `parse_instant` accepts, in the parts of its
text. -/
structure DateTime where
  date : Date
  year_le : date.year ≤ 9999
  separator : UInt8
  separator_eq : isSeparator separator = true
  hour : Nat
  hour_le : hour ≤ 23
  minute : Nat
  minute_le : minute ≤ 59
  second : Nat
  second_le : second ≤ 59
  fraction : Option Bytes
  fraction_digits : ∀ ds ∈ fraction, Digits ds
  offset : Offset

namespace DateTime

def render (t : DateTime) : Bytes :=
  timestampText t.date.year t.date.month t.date.day t.separator t.hour t.minute t.second t.fraction
    t.offset.render

/-- What `parse_instant` returns. -/
def instant (t : DateTime) : ExactInstant :=
  ⟨dayOf t.date * 86400 + t.hour * 3600 + t.minute * 60 + t.second - t.offset.seconds,
    trimZeros (t.fraction.getD [])⟩

end DateTime

theorem maximumDay_eq {year month : Nat} (hpos : 1 ≤ month) (hle : month ≤ 12) :
    monthLengths.getD (month - 1) 0 + (if month = 2 ∧ leapYear year = true then 1 else 0) =
      monthDays year month := by
  simp only [leapYear_iff]
  have hmonth : month = 1 ∨ month = 2 ∨ month = 3 ∨ month = 4 ∨ month = 5 ∨ month = 6 ∨ month = 7 ∨
      month = 8 ∨ month = 9 ∨ month = 10 ∨ month = 11 ∨ month = 12 := by omega
  rcases hmonth with rfl | rfl | rfl | rfl | rfl | rfl | rfl | rfl | rfl | rfl | rfl | rfl
  case inr.inl =>
    by_cases hleap : LeapYear year
    · simp [monthLengths, monthDays, hleap]
    · simp [monthLengths, monthDays, hleap]
  all_goals rfl

theorem monthDays_le (year month : Nat) : monthDays year month ≤ 31 := by
  unfold monthDays
  split <;> try omega
  split_ifs <;> omega

/-- The accepted texts and the instants that they denote. -/
theorem parseInstant_eq_ok_iff (text : Bytes) (i : ExactInstant) :
    parseInstant text = .ok i ↔ ∃ t : DateTime, t.render = text ∧ t.instant = i := by
  constructor
  · intro h
    unfold parseInstant at h
    cases hmatch : matchTimestamp text with
    | none =>
      rw [hmatch] at h
      cases h
    | some t =>
      rw [hmatch] at h
      dsimp only at h
      obtain ⟨separator, f, hseparator, hyear, hf, hfraction, hoffset, htext⟩ :=
        matchTimestamp_sound hmatch
      by_cases hzero : t.year = 0
      · rw [if_pos hzero] at h
        cases h
      rw [if_neg hzero] at h
      by_cases hmonth : t.month < 1 ∨ 12 < t.month
      · rw [if_pos hmonth] at h
        cases h
      rw [if_neg hmonth, maximumDay_eq (by omega) (by omega)] at h
      split_ifs at h with hbounds
      obtain ⟨s, hs, hinstant⟩ := Except.bind_eq_ok.mp h
      obtain ⟨o, hrender, hseconds⟩ := (offset_iff t.offset s).mp ⟨hoffset, hs⟩
      let date : Date :=
        ⟨t.year, t.month, t.day, by omega, by omega, by omega, by omega, by omega⟩
      refine ⟨⟨date, by show t.year ≤ 9999; omega, separator, hseparator, t.hour, by omega,
        t.minute, by omega, t.second, by omega, f, hf, o⟩, ?_, ?_⟩
      · rw [htext, ← hrender]
        rfl
      · rw [← Except.ok.inj hinstant, hfraction, ← hseconds]
        rfl
  · rintro ⟨t, rfl, rfl⟩
    have hday := t.date.day_le
    have hdays := monthDays_le t.date.year t.date.month
    have hyear := t.year_le
    have hmonth := t.date.month_le
    have hhour := t.hour_le
    have hminute := t.minute_le
    have hsecond := t.second_le
    obtain ⟨hoffset, hs⟩ := (offset_iff t.offset.render t.offset.seconds).mpr ⟨t.offset, rfl, rfl⟩
    unfold parseInstant DateTime.render
    rw [matchTimestamp_complete (by omega) (by omega) (by omega) t.separator_eq (by omega)
      (by omega) (by omega) t.fraction_digits hoffset]
    dsimp only
    rw [maximumDay_eq t.date.month_pos t.date.month_le, if_neg (Nat.ne_of_gt t.date.year_pos),
      if_neg (not_or.mpr ⟨by have := t.date.month_pos; omega, by omega⟩),
      if_neg (by have := t.date.day_pos; omega), hs, Except.ok_bind]
    rfl

/-! ## The exact number of seconds -/

/-- `0.d₁d₂…`. -/
def fractionValue (digits : Bytes) : ℚ := digitsValue digits / 10 ^ digits.length

/-- The rational number of seconds that an instant stands for. -/
def ExactInstant.value (i : ExactInstant) : ℚ := i.epochSecond + fractionValue i.fractionalDigits

/-- The rational number of seconds since the epoch, on a day that is `day` days
after it. -/
def DateTime.seconds (t : DateTime) (day : Int) : ℚ :=
  day * 86400 + t.hour * 3600 + t.minute * 60 + t.second + fractionValue (t.fraction.getD []) -
    t.offset.seconds

theorem fractionValue_append_zeros (ds : Bytes) (n : Nat) :
    fractionValue (ds ++ List.replicate n Ascii.zero) = fractionValue ds := by
  have hpow : (10 : ℚ) ^ n ≠ 0 := pow_ne_zero n (by norm_num)
  unfold fractionValue
  rw [digitsValue_append, digitsValue_replicate, List.length_append, List.length_replicate, pow_add]
  push_cast
  rw [add_zero, mul_div_mul_right _ _ hpow]

/-- Trailing zeros do not count. -/
theorem fractionValue_trimZeros (ds : Bytes) : fractionValue (trimZeros ds) = fractionValue ds := by
  have hsplit : ds = trimZeros ds ++
      List.replicate (ds.reverse.takeWhile (· == Ascii.zero)).length Ascii.zero := by
    have hreverse := congrArg List.reverse
      (List.takeWhile_append_dropWhile (p := (· == Ascii.zero)) (l := ds.reverse))
    rw [takeWhile_zero_eq, List.reverse_append, List.reverse_replicate,
      List.reverse_reverse] at hreverse
    exact hreverse.symm
  conv_rhs => rw [hsplit]
  rw [fractionValue_append_zeros]

/-- `parse_instant` accepts the dates and times of the calendar and returns the
exact number of seconds since the epoch, by a day number that counts the days
one by one. -/
theorem parseInstant_exact (text : Bytes) :
    ((∃ i, parseInstant text = .ok i) ↔ ∃ t : DateTime, t.render = text) ∧
    ∀ (t : DateTime) (i : ExactInstant), t.render = text → parseInstant text = .ok i →
      ∃ day, (∀ n, IsDayNumber epoch t.date n ↔ n = day) ∧ i.value = t.seconds day := by
  constructor
  · constructor
    · intro ⟨i, hi⟩
      obtain ⟨t, ht, -⟩ := (parseInstant_eq_ok_iff text i).mp hi
      exact ⟨t, ht⟩
    · intro ⟨t, ht⟩
      exact ⟨t.instant, (parseInstant_eq_ok_iff text t.instant).mpr ⟨t, ht, rfl⟩⟩
  · intro t i ht hi
    have hinstant := (parseInstant_eq_ok_iff text t.instant).mpr ⟨t, ht, rfl⟩
    have heq : i = t.instant := Except.ok.inj (hi.symm.trans hinstant)
    refine ⟨dayOf t.date, isDayNumber_dayOf t.date, ?_⟩
    rw [heq, ExactInstant.value, DateTime.instant, DateTime.seconds, fractionValue_trimZeros]
    push_cast
    ring

example : (parseInstant (ascii "2024-02-29T23:59:59.120+01:30")).map
    (fun i => (i.epochSecond, i.fractionalDigits)) = .ok (1709245799, ascii "12") := by
  decide +kernel

end MissionWeave
