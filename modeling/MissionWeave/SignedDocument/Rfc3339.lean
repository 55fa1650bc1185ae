import MissionWeave.Json.Strict
import MissionWeave.SignedDocument.InstantSpec

/-!
# The date-time grammar of RFC 3339

The `date-time` format of the schemas, beside what `parse_instant` accepts.

* `DateTime`: a text of the grammar in its parts.
* `isDateTime_iff`: the grammar can be decided.
* `exists_instant_iff`: `parse_instant` accepts the grammar but for leap
  seconds, the year 0000 and the unknown offset `-00:00`.
-/

namespace MissionWeave.Rfc3339

open Calendar (monthDays)

/-- `time-offset`. -/
inductive TimeOffset where
  | zulu (letter : UInt8) (hletter : isZulu letter = true)
  | numeric (negative : Bool) (hour minute : Nat) (hhour : hour ≤ 23) (hminute : minute ≤ 59)

namespace TimeOffset

def render : TimeOffset → Bytes
  | zulu letter _ => [letter]
  | numeric negative hour minute _ _ =>
    numericOffset (if negative then Ascii.minus else Ascii.plus) hour minute

/-- `-00:00`: the offset to local time is unknown. -/
def Unknown : TimeOffset → Prop
  | zulu _ _ => False
  | numeric negative hour minute _ _ => negative = true ∧ hour = 0 ∧ minute = 0

end TimeOffset

/-- `date-time`. -/
structure DateTime where
  year : Nat
  year_le : year ≤ 9999
  month : Nat
  month_pos : 1 ≤ month
  month_le : month ≤ 12
  day : Nat
  day_pos : 1 ≤ day
  day_le : day ≤ monthDays year month
  separator : UInt8
  separator_eq : isSeparator separator = true
  hour : Nat
  hour_le : hour ≤ 23
  minute : Nat
  minute_le : minute ≤ 59
  second : Nat
  second_le : second ≤ 60
  fraction : Option Bytes
  fraction_digits : ∀ ds ∈ fraction, Digits ds
  offset : TimeOffset

namespace DateTime

def render (t : DateTime) : Bytes :=
  timestampText t.year t.month t.day t.separator t.hour t.minute t.second t.fraction
    t.offset.render

/-- The spellings that are no instants. -/
def Misspelled (t : DateTime) : Prop := t.second = 60 ∨ t.year = 0 ∨ t.offset.Unknown

end DateTime

/-! ## Deciding the grammar -/

/-- An offset of the layout is within the bounds of the grammar. -/
def offsetInBounds (offset : Bytes) : Bool :=
  offset.length == 1 ||
    (digitsValue ((offset.drop 1).take 2) ≤ 23 && digitsValue ((offset.drop 4).take 2) ≤ 59)

/-- The text is a `date-time`. -/
def isDateTime (text : Bytes) : Bool :=
  match matchTimestamp text with
  | none => false
  | some t =>
    1 ≤ t.month && t.month ≤ 12 && 1 ≤ t.day && t.day ≤ monthDays t.year t.month &&
      t.hour ≤ 23 && t.minute ≤ 59 && t.second ≤ 60 && offsetInBounds t.offset

theorem offsetInBounds_numeric (sign : UInt8) {hour minute : Nat} (hhour : hour < 100)
    (hminute : minute < 100) :
    offsetInBounds (numericOffset sign hour minute) = true ↔ hour ≤ 23 ∧ minute ≤ 59 := by
  obtain ⟨h1, h2, hhours, -, -, hhour'⟩ := padded_two hhour
  obtain ⟨m1, m2, hminutes, -, -, hminute'⟩ := padded_two hminute
  simp [offsetInBounds, numericOffset, hhours, hminutes, hhour', hminute']

/-- The offsets of the layout within the bounds are those of the grammar. -/
theorem offset_iff (offset : Bytes) :
    (matchesOffset offset = true ∧ offsetInBounds offset = true) ↔
      ∃ o : TimeOffset, o.render = offset := by
  rw [matchesOffset_iff]
  constructor
  · intro ⟨hmatch, hbounds⟩
    rcases hmatch with ⟨letter, hletter, rfl⟩ | ⟨sign, hour, minute, hsign, hhour, hminute, rfl⟩
    · exact ⟨.zulu letter hletter, rfl⟩
    · rw [offsetInBounds_numeric sign hhour hminute] at hbounds
      rcases hsign with rfl | rfl
      · exact ⟨.numeric false hour minute hbounds.1 hbounds.2, rfl⟩
      · exact ⟨.numeric true hour minute hbounds.1 hbounds.2, rfl⟩
  · intro ⟨o, hrender⟩
    rw [← hrender]
    cases o with
    | zulu letter hletter => exact ⟨Or.inl ⟨letter, hletter, rfl⟩, rfl⟩
    | numeric negative hour minute hhour hminute =>
      refine ⟨Or.inr ⟨_, hour, minute, ?_, by omega, by omega, rfl⟩,
        (offsetInBounds_numeric _ (by omega) (by omega)).mpr ⟨hhour, hminute⟩⟩
      cases negative with
      | true => exact Or.inr rfl
      | false => exact Or.inl rfl

/-- The parts of a text of the grammar are read back. -/
theorem DateTime.matchTimestamp_render (t : DateTime) :
    matchTimestamp t.render =
      some ⟨t.year, t.month, t.day, t.hour, t.minute, t.second, t.fraction.getD [],
        t.offset.render⟩ := by
  have hyear := t.year_le
  have hmonth := t.month_le
  have hday := t.day_le
  have hdays := monthDays_le t.year t.month
  have hhour := t.hour_le
  have hminute := t.minute_le
  have hsecond := t.second_le
  exact matchTimestamp_complete (by omega) (by omega) (by omega) t.separator_eq (by omega)
    (by omega) (by omega) t.fraction_digits ((offset_iff _).mpr ⟨t.offset, rfl⟩).1

/-- The grammar can be decided. -/
theorem isDateTime_iff (text : Bytes) :
    isDateTime text = true ↔ ∃ t : DateTime, t.render = text := by
  constructor
  · intro h
    unfold isDateTime at h
    cases hmatch : matchTimestamp text with
    | none =>
      rw [hmatch] at h
      cases h
    | some t =>
      rw [hmatch] at h
      simp only [Bool.and_eq_true, decide_eq_true_eq] at h
      obtain ⟨⟨⟨⟨⟨⟨⟨hmonth, hmonth'⟩, hday⟩, hday'⟩, hhour⟩, hminute⟩, hsecond⟩, hbounds⟩ := h
      obtain ⟨separator, f, hseparator, hyear, hf, -, hoffset, htext⟩ :=
        matchTimestamp_sound hmatch
      obtain ⟨o, hrender⟩ := (offset_iff t.offset).mp ⟨hoffset, hbounds⟩
      refine ⟨⟨t.year, by omega, t.month, hmonth, hmonth', t.day, hday, hday', separator,
        hseparator, t.hour, hhour, t.minute, hminute, t.second, hsecond, f, hf, o⟩, ?_⟩
      rw [htext, ← hrender]
      rfl
  · intro ⟨t, hrender⟩
    have hbounds := ((offset_iff t.offset.render).mpr ⟨t.offset, rfl⟩).2
    rw [← hrender, isDateTime, t.matchTimestamp_render]
    simp [t.month_pos, t.month_le, t.day_pos, t.day_le, t.hour_le, t.minute_le, t.second_le,
      hbounds]

/-! ## The grammar and the instants -/

/-- The known offsets are those that have a number of seconds. -/
theorem TimeOffset.exists_seconds_iff (o : TimeOffset) :
    (∃ s, offsetSeconds o.render = .ok s) ↔ ¬o.Unknown := by
  have hne : Ascii.minus ≠ Ascii.plus := by decide
  cases o with
  | zulu letter hletter => exact ⟨fun _ h => h, fun _ => ⟨0, offsetSeconds_zulu letter⟩⟩
  | numeric negative hour minute hhour hminute =>
    have hbounds : ¬(23 < hour ∨ 59 < minute) := by omega
    rw [render, offsetSeconds_numeric _ (by omega) (by omega), if_neg hbounds, Unknown]
    cases negative with
    | true =>
      by_cases hzero : hour = 0 ∧ minute = 0
      · simp [hzero]
      · simp [hzero]
    | false => simp [hne.symm]

/-- `parse_instant` accepts a text of the grammar unless it is misspelled. -/
theorem DateTime.exists_instant_iff (t : DateTime) :
    (∃ i, parseInstant t.render = .ok i) ↔ ¬t.Misspelled := by
  have hmonth : ¬(t.month < 1 ∨ 12 < t.month) := by
    have := t.month_pos
    have := t.month_le
    omega
  have hday := t.day_pos
  have hday' := t.day_le
  have hhour := t.hour_le
  have hminute := t.minute_le
  have hsecond := t.second_le
  unfold parseInstant
  rw [t.matchTimestamp_render]
  dsimp only
  rw [maximumDay_eq t.month_pos t.month_le, if_neg hmonth, Misspelled, not_or, not_or,
    ← t.offset.exists_seconds_iff]
  constructor
  · rintro ⟨i, h⟩
    by_cases hyear : t.year = 0
    · rw [if_pos hyear] at h
      cases h
    rw [if_neg hyear] at h
    split_ifs at h with hbounds
    obtain ⟨s, hs, _⟩ := Except.bind_eq_ok.mp h
    exact ⟨by omega, hyear, s, hs⟩
  · rintro ⟨hleap, hyear, s, hs⟩
    rw [if_neg hyear, if_neg (by omega), hs]
    exact ⟨_, rfl⟩

/-- What `parse_instant` accepts is in the grammar. -/
theorem isDateTime_of_parseInstant {text : Bytes} {i : ExactInstant}
    (h : parseInstant text = .ok i) : isDateTime text = true := by
  obtain ⟨t, hrender, _⟩ := (parseInstant_eq_ok_iff text i).mp h
  obtain ⟨o, ho⟩ : ∃ o : TimeOffset, o.render = t.offset.render := by
    cases t.offset with
    | zulu letter hletter => exact ⟨.zulu letter hletter, rfl⟩
    | numeric negative hour minute hhour hminute _ =>
      exact ⟨.numeric negative hour minute hhour hminute, rfl⟩
  have hsecond := t.second_le
  rw [isDateTime_iff]
  refine ⟨⟨t.date.year, t.year_le, t.date.month, t.date.month_pos, t.date.month_le, t.date.day,
    t.date.day_pos, t.date.day_le, t.separator, t.separator_eq, t.hour, t.hour_le, t.minute,
    t.minute_le, t.second, by omega, t.fraction, t.fraction_digits, o⟩, ?_⟩
  rw [← hrender, DateTime.render, ho]
  rfl

theorem wellFormed_padded (width n : Nat) : Utf8.WellFormed (padded width n) :=
  .ascii fun _ hb => Ascii.lt_of_isDigit (isDigit_of_mem_padded hb)

/-- A text of the grammar is UTF-8. -/
theorem DateTime.wellFormed_render (t : DateTime) : Utf8.WellFormed t.render := by
  have hzulu {letter : UInt8} (h : isZulu letter = true) : letter < 0x80 := by
    simp only [isZulu, Bool.or_eq_true, beq_iff_eq] at h
    rcases h with rfl | rfl <;> decide
  have hoffset : Utf8.WellFormed t.offset.render := by
    cases t.offset with
    | zulu letter hletter => exact .byte (hzulu hletter)
    | numeric negative hour minute _ _ =>
      refine .cons (by cases negative <;> decide) ?_
      exact (wellFormed_padded 2 hour).append (.cons (by decide) (wellFormed_padded 2 minute))
  have hfraction : Utf8.WellFormed (renderFraction t.fraction) := by
    cases hf : t.fraction with
    | none => exact .nil
    | some ds => exact .cons (by decide) (t.fraction_digits ds hf).wellFormed
  have hseparator : t.separator < 0x80 := by
    have h := t.separator_eq
    simp only [isSeparator, Bool.or_eq_true, beq_iff_eq] at h
    rcases h with h | h <;> rw [h] <;> decide
  unfold render timestampText
  apply (wellFormed_padded 4 _).append
  apply Utf8.WellFormed.cons (by decide)
  apply (wellFormed_padded 2 _).append
  apply Utf8.WellFormed.cons (by decide)
  apply (wellFormed_padded 2 _).append
  apply Utf8.WellFormed.cons hseparator
  apply (wellFormed_padded 2 _).append
  apply Utf8.WellFormed.cons (by decide)
  apply (wellFormed_padded 2 _).append
  apply Utf8.WellFormed.cons (by decide)
  exact (wellFormed_padded 2 _).append (hfraction.append hoffset)

theorem wellFormed_of_parseInstant {text : Bytes} {i : ExactInstant}
    (h : parseInstant text = .ok i) : Utf8.WellFormed text := by
  obtain ⟨t, rfl⟩ := (isDateTime_iff text).mp (isDateTime_of_parseInstant h)
  exact t.wellFormed_render

end MissionWeave.Rfc3339
