import MissionWeave.Json.ScannerTrace

/-!
# The log of the scanner is complete

The scanner knows of its input what the log says, and its length: an input of the
same length with the same bytes where the log reads is scanned alike, step by
step.  So no access is left out of the log.

* `scan_settles`: the run on such an input.
* `parseValue_enters`: every entry of `parse_value` is in the log.
-/

namespace MissionWeave

/-- The other input has the same bytes where the event reads. -/
def ScanEvent.Agrees (input input' : Bytes) : ScanEvent → Prop
  | .reads index => input'[index]? = input[index]?
  | .substring position count =>
    (input'.drop position).take count = (input.drop position).take count
  | .moved _ | .differs _ | .enters _ => True

namespace ScannerTrace

open StrictScanner (atEnd loopFuel simpleEscape? scanFuel)

variable {α : Type}

/-- The two runs are the same if the inputs agree along the first one. -/
abbrev Settled (input input' : Bytes) (x x' : Scan α) : Prop :=
  Traced.Settles (ScanEvent.Agrees input input') x x'

open Traced (Settles)

section

variable {input input' : Bytes}

/-! ## The steps -/

theorem read_settles (index : Nat) :
    Settled input input' (read input index) (read input' index) := by
  apply Settles.log
  intro hagrees
  have hbyte : input'[index]? = input[index]? := hagrees
  rw [StrictScanner.read, StrictScanner.read, hbyte]

theorem substring_settles (position count : Nat) :
    Settled input input' (substring input position count) (substring input' position count) := by
  apply Settles.log
  intro hagrees
  have hbytes : (input'.drop position).take count = (input.drop position).take count := hagrees
  rw [hbytes]

variable (hlength : input'.length = input.length)

include hlength

theorem atEnd_eq (position : Nat) : atEnd input' position = atEnd input position := by
  rw [atEnd, atEnd, hlength]

theorem remaining_settles (position : Nat) :
    Settled input input' (remaining input position) (remaining input' position) := by
  apply Settles.log
  intro _
  rw [StrictScanner.remaining, StrictScanner.remaining, hlength]

theorem current_settles (position : Nat) :
    Settled input input' (current input position) (current input' position) := by
  unfold current
  rw [atEnd_eq hlength]
  exact (Settles.refl _).ite (read_settles position)

theorem advanceWhile_settles (p : UInt8 → Bool) (fuel position : Nat) :
    Settled input input' (advanceWhile input p fuel position)
      (advanceWhile input' p fuel position) := by
  induction fuel generalizing position with
  | zero => exact Settles.refl _
  | succ fuel ih =>
    unfold advanceWhile
    rw [atEnd_eq hlength]
    apply (Settles.refl _).ite
    apply (read_settles position).bind
    intro value
    apply Settles.ite
    · exact (Settles.refl _).bind ih
    · exact Settles.refl _

theorem skipWhitespace_settles (position : Nat) :
    Settled input input' (skipWhitespace input position) (skipWhitespace input' position) := by
  unfold skipWhitespace loopFuel
  rw [hlength]
  exact advanceWhile_settles hlength _ _ _

theorem skipDigits_settles (position : Nat) :
    Settled input input' (skipDigits input position) (skipDigits input' position) := by
  unfold skipDigits loopFuel
  rw [hlength]
  exact advanceWhile_settles hlength _ _ _

theorem expect_settles (expected : UInt8) (position : Nat) :
    Settled input input' (expect input expected position) (expect input' expected position) := by
  apply (current_settles hlength position).bind
  intro value
  exact Settles.refl _

theorem atByte_settles (p : UInt8 → Bool) (position : Nat) :
    Settled input input' (atByte input p position) (atByte input' p position) := by
  unfold atByte
  rw [atEnd_eq hlength]
  apply (Settles.refl _).ite
  apply (current_settles hlength position).bind
  intro value
  exact Settles.refl _

omit hlength in
theorem parseLiteral_settles (literal : Bytes) (position : Nat) :
    Settled input input' (parseLiteral input literal position)
      (parseLiteral input' literal position) := by
  apply (substring_settles position _).bind
  intro text
  exact Settles.refl _

/-! ## Numbers -/

theorem parseInteger_settles (position : Nat) :
    Settled input input' (parseInteger input position) (parseInteger input' position) := by
  unfold parseInteger
  rw [atEnd_eq hlength]
  apply (Settles.refl _).ite
  apply (current_settles hlength position).bind
  intro value
  apply Settles.ite
  · apply (Settles.refl _).bind
    intro after
    apply (atByte_settles hlength _ after).bind
    intro digit
    exact Settles.refl _
  · exact (skipDigits_settles hlength position).ite (Settles.refl _)

theorem parseFraction_settles (position : Nat) :
    Settled input input' (parseFraction input position) (parseFraction input' position) := by
  apply (atByte_settles hlength _ position).bind
  intro point
  apply Settles.ite
  · apply (Settles.refl _).bind
    intro start
    apply (atByte_settles hlength _ start).bind
    intro digit
    exact (skipDigits_settles hlength start).ite (Settles.refl _)
  · exact Settles.refl _

theorem skipSign_settles (position : Nat) :
    Settled input input' (skipSign input position) (skipSign input' position) := by
  apply (atByte_settles hlength _ position).bind
  intro sign
  exact Settles.refl _

theorem parseExponent_settles (position : Nat) :
    Settled input input' (parseExponent input position) (parseExponent input' position) := by
  apply (atByte_settles hlength _ position).bind
  intro marker
  apply Settles.ite
  · apply (Settles.refl _).bind
    intro signed
    apply (skipSign_settles hlength signed).bind
    intro start
    apply (atByte_settles hlength _ start).bind
    intro digit
    exact (skipDigits_settles hlength start).ite (Settles.refl _)
  · exact Settles.refl _

theorem parseNumber_settles (position : Nat) :
    Settled input input' (parseNumber input position) (parseNumber input' position) := by
  have htail (after : Nat) :
      Settled input input'
        (do
          let position ← parseInteger input after
          let position ← parseFraction input position
          parseExponent input position)
        (do
          let position ← parseInteger input' after
          let position ← parseFraction input' position
          parseExponent input' position) := by
    apply (parseInteger_settles hlength after).bind
    intro afterInteger
    apply (parseFraction_settles hlength afterInteger).bind
    intro afterFraction
    exact parseExponent_settles hlength afterFraction
  apply (current_settles hlength position).bind
  intro value
  apply Settles.ite
  · exact (Settles.refl _).bind htail
  · exact (Settles.refl _).bind htail

/-! ## Strings -/

omit hlength in
theorem parseHexDigits_settles (count value position : Nat) :
    Settled input input' (parseHexDigits input count value position)
      (parseHexDigits input' count value position) := by
  induction count generalizing value position with
  | zero => exact Settles.refl _
  | succ count ih =>
    apply (read_settles position).bind
    intro digit
    apply (Settles.refl _).bind
    intro next
    cases Ascii.hexValue? digit with
    | some v => exact ih _ next
    | none => exact Settles.refl _

theorem parseHexQuad_settles (position : Nat) :
    Settled input input' (parseHexQuad input position) (parseHexQuad input' position) := by
  apply (remaining_settles hlength position).bind
  intro count
  exact (Settles.refl _).ite (parseHexDigits_settles 4 0 position)

theorem lacksEscape_settles (position : Nat) :
    Settled input input' (lacksEscape input position) (lacksEscape input' position) := by
  apply (remaining_settles hlength position).bind
  intro count
  apply (Settles.refl _).ite
  apply (read_settles position).bind
  intro first
  apply (Settles.refl _).ite
  apply (read_settles (position + 1)).bind
  intro second
  exact Settles.refl _

theorem parseUnicodeEscape_settles (position : Nat) :
    Settled input input' (parseUnicodeEscape input position)
      (parseUnicodeEscape input' position) := by
  apply (parseHexQuad_settles hlength position).bind
  rintro ⟨first, after⟩
  apply Settles.ite
  · apply (lacksEscape_settles hlength after).bind
    intro lacks
    apply (Settles.refl _).ite
    apply (Settles.refl _).bind
    intro low
    apply (parseHexQuad_settles hlength low).bind
    intro second
    exact Settles.refl _
  · exact Settles.refl _

theorem parseEscape_settles (position : Nat) :
    Settled input input' (parseEscape input position) (parseEscape input' position) := by
  unfold parseEscape
  rw [atEnd_eq hlength]
  apply (Settles.refl _).ite
  apply (read_settles position).bind
  intro escape
  apply (Settles.refl _).bind
  intro after
  cases simpleEscape? escape with
  | some b => exact Settles.refl _
  | none => exact (parseUnicodeEscape_settles hlength after).ite (Settles.refl _)

omit hlength in
theorem parseContinuations_settles (position count index codePoint : Nat) :
    Settled input input' (parseContinuations input position count index codePoint)
      (parseContinuations input' position count index codePoint) := by
  induction count generalizing index codePoint with
  | zero => exact Settles.refl _
  | succ count ih =>
    apply (read_settles (position + index)).bind
    intro continuation
    exact (ih _ _).ite (Settles.refl _)

theorem parseUtf8CodePoint_settles (position : Nat) :
    Settled input input' (parseUtf8CodePoint input position)
      (parseUtf8CodePoint input' position) := by
  apply (read_settles position).bind
  intro lead
  cases Utf8.leadWidth lead with
  | none => exact Settles.refl _
  | some width =>
    apply (remaining_settles hlength position).bind
    intro count
    apply (Settles.refl _).ite
    apply (parseContinuations_settles position _ 1 _).bind
    intro codePoint
    exact Settles.refl _

theorem parseStringLoop_settles (fuel : Nat) (decoded : Bytes) (position : Nat) :
    Settled input input' (parseStringLoop input fuel decoded position)
      (parseStringLoop input' fuel decoded position) := by
  induction fuel generalizing decoded position with
  | zero => exact Settles.refl _
  | succ fuel ih =>
    unfold parseStringLoop
    rw [atEnd_eq hlength]
    apply (Settles.refl _).ite
    apply (read_settles position).bind
    intro value
    apply (Settles.refl _).ite
    apply Settles.ite
    · apply (Settles.refl _).bind
      intro escape
      apply (parseEscape_settles hlength escape).bind
      rintro ⟨appended, after⟩
      exact ih _ after
    apply (Settles.refl _).ite
    apply Settles.ite
    · apply (Settles.refl _).bind
      intro after
      exact ih _ after
    · apply (parseUtf8CodePoint_settles hlength position).bind
      rintro ⟨codePoint, after⟩
      exact ih _ after

theorem parseString_settles (position : Nat) :
    Settled input input' (parseString input position) (parseString input' position) := by
  unfold parseString loopFuel
  rw [hlength]
  apply (expect_settles hlength _ position).bind
  intro start
  exact parseStringLoop_settles hlength _ _ start

/-! ## Values -/

/-- One level of the recursion: the five functions with this fuel. -/
structure LevelSettles (input input' : Bytes) (fuel : Nat) : Prop where
  value : ∀ depth position, Settled input input' (parseValue input fuel depth position)
    (parseValue input' fuel depth position)
  object : ∀ depth position, Settled input input' (parseObject input fuel depth position)
    (parseObject input' fuel depth position)
  members : ∀ depth names position,
    Settled input input' (parseMembers input fuel depth names position)
      (parseMembers input' fuel depth names position)
  array : ∀ depth position, Settled input input' (parseArray input fuel depth position)
    (parseArray input' fuel depth position)
  elements : ∀ depth position, Settled input input' (parseElements input fuel depth position)
    (parseElements input' fuel depth position)

omit hlength in
theorem LevelSettles.zero : LevelSettles input input' 0 := by
  constructor
  · intro depth position
    rw [parseValue, parseValue]
    exact Settles.refl _
  · intro depth position
    rw [parseObject, parseObject]
    exact Settles.refl _
  · intro depth names position
    rw [parseMembers, parseMembers]
    exact Settles.refl _
  · intro depth position
    rw [parseArray, parseArray]
    exact Settles.refl _
  · intro depth position
    rw [parseElements, parseElements]
    exact Settles.refl _

variable {fuel : Nat}

theorem parseValue_settles (ih : LevelSettles input input' fuel) (depth position : Nat) :
    Settled input input' (parseValue input (fuel + 1) depth position)
      (parseValue input' (fuel + 1) depth position) := by
  rw [parseValue, parseValue]
  apply (Settles.refl _).bind
  intro _
  apply (Settles.refl _).ite
  apply (skipWhitespace_settles hlength position).bind
  intro start
  apply (current_settles hlength start).bind
  intro value
  apply (ih.object _ start).ite
  apply (ih.array _ start).ite
  apply Settles.ite
  · apply (parseString_settles hlength start).bind
    intro _
    exact Settles.refl _
  apply (parseLiteral_settles _ start).ite
  apply (parseLiteral_settles _ start).ite
  apply (parseLiteral_settles _ start).ite
  exact parseNumber_settles hlength start

/-- After an opening byte: an empty container, or what is in it. -/
theorem opened_settles (opening closing : UInt8) (position : Nat) {f f' : Nat → Scan Nat}
    (hf : ∀ after, Settled input input' (f after) (f' after)) :
    Settled input input'
      (do
        let position ← expect input opening position
        let position ← skipWhitespace input position
        if ← atByte input (· == closing) position then moveTo (position + 1) else f position)
      (do
        let position ← expect input' opening position
        let position ← skipWhitespace input' position
        if ← atByte input' (· == closing) position then moveTo (position + 1)
        else f' position) := by
  apply (expect_settles hlength opening position).bind
  intro start
  apply (skipWhitespace_settles hlength start).bind
  intro first
  apply (atByte_settles hlength _ first).bind
  intro closed
  exact (Settles.refl _).ite (hf first)

/-- After an item: the closing byte, or a comma and what follows it. -/
theorem closed_settles (closing : UInt8) (position : Nat) {f f' : Nat → Scan Nat}
    (hf : ∀ after, Settled input input' (f after) (f' after)) :
    Settled input input'
      (do
        let position ← skipWhitespace input position
        if (← current input position) = closing then moveTo (position + 1)
        else
          let position ← expect input Ascii.comma position
          f position)
      (do
        let position ← skipWhitespace input' position
        if (← current input' position) = closing then moveTo (position + 1)
        else
          let position ← expect input' Ascii.comma position
          f' position) := by
  apply (skipWhitespace_settles hlength position).bind
  intro next
  apply (current_settles hlength next).bind
  intro value
  apply (Settles.refl _).ite
  exact (expect_settles hlength Ascii.comma next).bind hf

theorem parseObject_settles (ih : LevelSettles input input' fuel) (depth position : Nat) :
    Settled input input' (parseObject input (fuel + 1) depth position)
      (parseObject input' (fuel + 1) depth position) := by
  rw [parseObject, parseObject]
  apply opened_settles hlength
  intro first
  exact ih.members depth [] first

theorem parseArray_settles (ih : LevelSettles input input' fuel) (depth position : Nat) :
    Settled input input' (parseArray input (fuel + 1) depth position)
      (parseArray input' (fuel + 1) depth position) := by
  rw [parseArray, parseArray]
  apply opened_settles hlength
  intro first
  exact ih.elements depth first

theorem parseElements_settles (ih : LevelSettles input input' fuel) (depth position : Nat) :
    Settled input input' (parseElements input (fuel + 1) depth position)
      (parseElements input' (fuel + 1) depth position) := by
  rw [parseElements, parseElements]
  apply (ih.value depth position).bind
  intro after
  apply closed_settles hlength
  intro next
  exact ih.elements depth next

theorem parseMembers_settles (ih : LevelSettles input input' fuel) (depth : Nat)
    (names : List Bytes) (position : Nat) :
    Settled input input' (parseMembers input (fuel + 1) depth names position)
      (parseMembers input' (fuel + 1) depth names position) := by
  rw [parseMembers, parseMembers]
  apply (skipWhitespace_settles hlength position).bind
  intro start
  apply (current_settles hlength start).bind
  intro value
  apply (Settles.refl _).ite
  apply (parseString_settles hlength start).bind
  rintro ⟨name, afterName⟩
  apply (Settles.refl _).ite
  apply (skipWhitespace_settles hlength afterName).bind
  intro colon
  apply (expect_settles hlength Ascii.colon colon).bind
  intro afterColon
  apply (ih.value depth afterColon).bind
  intro after
  apply closed_settles hlength
  intro next
  exact ih.members depth (name :: names) next

theorem levelSettles (fuel : Nat) : LevelSettles input input' fuel := by
  induction fuel with
  | zero => exact LevelSettles.zero
  | succ fuel ih =>
    exact ⟨parseValue_settles hlength ih, parseObject_settles hlength ih,
      parseMembers_settles hlength ih, parseArray_settles hlength ih,
      parseElements_settles hlength ih⟩

/-- An input of the same length, with the same bytes where the log reads, is
scanned alike. -/
theorem scan_settles : Settled input input' (scan input) (scan input') := by
  unfold scan scanFuel
  rw [hlength]
  apply (Settles.refl _).bind
  intro first
  apply (skipWhitespace_settles hlength first).bind
  intro start
  apply ((levelSettles hlength _).value _ start).bind
  intro after
  apply (skipWhitespace_settles hlength after).bind
  intro finish
  exact Settles.refl _

end

/-- Every entry of `parse_value` is in the log. -/
theorem parseValue_enters (input : Bytes) (fuel depth position : Nat) :
    .enters depth ∈ (parseValue input (fuel + 1) depth position).events := by
  rw [parseValue]
  exact List.mem_cons_self

end ScannerTrace

end MissionWeave
