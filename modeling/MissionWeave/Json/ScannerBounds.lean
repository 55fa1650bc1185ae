import MissionWeave.Json.ScannerEnds
import MissionWeave.Json.ScannerReads
import MissionWeave.Json.ScannerTrace

/-!
# The scanner stays inside its input

Each member function, from a position inside the input: the log follows the
function, what it touches is in bounds, and the position it leaves is inside the
input again.

* `scan_follows`: the log does not change the scan, and all of it is in bounds.
* `scan_ends`: a scan succeeds or throws `StrictJsonError`.
-/

namespace MissionWeave.ScannerTrace

open StrictScanner (maximumDepth atEnd loopFuel isWhitespace isExponentMarker isSign
  isHighSurrogate isLowSurrogate simpleEscape? scanFuel)

variable {α β : Type}

/-- The logging function follows the function, with what it touches in bounds. -/
abbrev Bounded (input : Bytes) (x : Scan α) (y : StrictScanner.Scan α) (q : α → Prop) : Prop :=
  Traced.Follows (ScanEvent.InBounds input) x y q

/-- A result whose position is inside the input. -/
abbrev Inside (input : Bytes) (result : α × Nat) : Prop := result.2 ≤ input.length

open Traced (Follows)

section

variable {input : Bytes} {position : Nat}

/-! ## The steps -/

theorem fail_follows {q : α → Prop} (message : String) (position : Nat) :
    Bounded input (fail message position) (StrictScanner.fail message position) q :=
  Follows.throw _

theorem moveTo_follows (h : position ≤ input.length) :
    Bounded input (moveTo position) (.ok position) (· ≤ input.length) := by
  apply Follows.log
  · exact h
  · intro after hafter
    rw [← Except.ok.inj hafter]
    exact h

theorem moveTo_bind {f : Nat → Scan β} {y : StrictScanner.Scan β} {q : β → Prop}
    (h : position ≤ input.length) (hf : Bounded input (f position) y q) :
    Bounded input (moveTo position >>= f) y q :=
  Follows.log_ok_bind h hf

theorem lt_of_not_atEnd (h : ¬atEnd input position = true) : position < input.length := by
  rw [atEnd, decide_eq_true_eq, not_le] at h
  exact h

theorem read_follows {index : Nat} (h : index < input.length) :
    Bounded input (read input index) (StrictScanner.read input index) fun _ => True := by
  apply Follows.log
  · exact h
  · intro _ _
    trivial

theorem remaining_follows (h : position ≤ input.length) :
    Bounded input (remaining input position) (StrictScanner.remaining input position)
      (· = input.length - position) := by
  apply Follows.log
  · exact h
  · intro count hcount
    rw [StrictScanner.remaining, if_pos h] at hcount
    exact (Except.ok.inj hcount).symm

theorem current_follows :
    Bounded input (current input position) (StrictScanner.current input position)
      fun _ => position < input.length := by
  apply Follows.ite
  · intro _
    exact fail_follows _ _
  · intro hend
    have hlt := lt_of_not_atEnd hend
    apply (read_follows hlt).imp
    intro _ _
    exact hlt

theorem advanceWhile_follows (p : UInt8 → Bool) (fuel : Nat) (h : position ≤ input.length) :
    Bounded input (advanceWhile input p fuel position)
      (StrictScanner.advanceWhile input p fuel position) (· ≤ input.length) := by
  induction fuel generalizing position with
  | zero => exact Follows.throw _
  | succ fuel ih =>
    apply Follows.ite
    · intro _
      exact Follows.ok h
    · intro hend
      have hlt := lt_of_not_atEnd hend
      apply (read_follows hlt).bind
      intro value _
      apply Follows.ite
      · intro _
        exact moveTo_bind hlt (ih hlt)
      · intro _
        exact Follows.ok h

theorem skipWhitespace_follows (h : position ≤ input.length) :
    Bounded input (skipWhitespace input position) (StrictScanner.skipWhitespace input position)
      (· ≤ input.length) :=
  advanceWhile_follows isWhitespace (loopFuel input) h

theorem skipDigits_follows (h : position ≤ input.length) :
    Bounded input (skipDigits input position) (StrictScanner.skipDigits input position)
      (· ≤ input.length) :=
  advanceWhile_follows Ascii.isDigit (loopFuel input) h

theorem expect_follows (expected : UInt8) :
    Bounded input (expect input expected position)
      (StrictScanner.expect input expected position) (· ≤ input.length) := by
  apply current_follows.bind
  intro value hlt
  apply Follows.ite
  · intro _
    exact fail_follows _ _
  · intro _
    exact moveTo_follows hlt

theorem parseLiteral_follows (literal : Bytes) (h : position ≤ input.length) :
    Bounded input (parseLiteral input literal position)
      (StrictScanner.parseLiteral input literal position) (· ≤ input.length) := by
  apply Follows.log_ok_bind
  · exact h
  apply Follows.ite
  · intro _
    exact fail_follows _ _
  · intro heq
    have hlength := congrArg List.length (not_not.mp heq)
    rw [List.length_take, List.length_drop] at hlength
    have hle : position + literal.length ≤ input.length := by omega
    exact moveTo_follows hle

/-- The byte that is tested is inside the input when the test succeeds. -/
theorem atByte_follows (p : UInt8 → Bool) :
    Bounded input (atByte input p position) (StrictScanner.atByte input p position)
      fun found => found = true → position < input.length := by
  apply Follows.ite
  · intro _
    apply Follows.ok
    intro hfalse
    cases hfalse
  · intro _
    apply current_follows.bind
    intro value hlt
    apply Follows.ok
    intro _
    exact hlt

/-! ## Numbers -/

theorem parseInteger_follows (h : position ≤ input.length) :
    Bounded input (parseInteger input position) (StrictScanner.parseInteger input position)
      (· ≤ input.length) := by
  apply Follows.ite
  · intro _
    exact fail_follows _ _
  · intro _
    apply current_follows.bind
    intro value hlt
    apply Follows.ite
    · intro _
      apply moveTo_bind hlt
      apply (atByte_follows Ascii.isDigit).bind
      intro found _
      apply Follows.ite
      · intro _
        exact fail_follows _ _
      · intro _
        exact Follows.ok hlt
    · intro _
      apply Follows.ite
      · intro _
        exact skipDigits_follows h
      · intro _
        exact fail_follows _ _

/-- Digits that must be there. -/
theorem requireDigits_follows (message : String) (h : position ≤ input.length) :
    Bounded input
      (do if ← atByte input Ascii.isDigit position then skipDigits input position
          else fail message position)
      (do if ← StrictScanner.atByte input Ascii.isDigit position then
            StrictScanner.skipDigits input position
          else StrictScanner.fail message position)
      (· ≤ input.length) := by
  apply (atByte_follows Ascii.isDigit).bind
  intro found _
  apply Follows.ite
  · intro _
    exact skipDigits_follows h
  · intro _
    exact fail_follows _ _

theorem parseFraction_follows (h : position ≤ input.length) :
    Bounded input (parseFraction input position) (StrictScanner.parseFraction input position)
      (· ≤ input.length) := by
  apply (atByte_follows _).bind
  intro found hfound
  apply Follows.ite
  · intro htrue
    exact moveTo_bind (hfound htrue) (requireDigits_follows _ (hfound htrue))
  · intro _
    exact Follows.ok h

theorem skipSign_follows (h : position ≤ input.length) :
    Bounded input (skipSign input position) (StrictScanner.skipSign input position)
      (· ≤ input.length) := by
  apply (atByte_follows isSign).bind
  intro found hfound
  apply Follows.ite
  · intro htrue
    exact moveTo_follows (hfound htrue)
  · intro _
    exact Follows.ok h

theorem parseExponent_follows (h : position ≤ input.length) :
    Bounded input (parseExponent input position) (StrictScanner.parseExponent input position)
      (· ≤ input.length) := by
  apply (atByte_follows isExponentMarker).bind
  intro found hfound
  apply Follows.ite
  · intro htrue
    apply moveTo_bind (hfound htrue)
    apply (skipSign_follows (hfound htrue)).bind
    intro after hafter
    exact requireDigits_follows _ hafter
  · intro _
    exact Follows.ok h

theorem parseNumber_follows :
    Bounded input (parseNumber input position) (StrictScanner.parseNumber input position)
      (· ≤ input.length) := by
  have htail (after : Nat) (hafter : after ≤ input.length) :
      Bounded input
        (do
          let position ← parseInteger input after
          let position ← parseFraction input position
          parseExponent input position)
        (do
          let position ← StrictScanner.parseInteger input after
          let position ← StrictScanner.parseFraction input position
          StrictScanner.parseExponent input position)
        (· ≤ input.length) := by
    apply (parseInteger_follows hafter).bind
    intro afterInteger hinteger
    apply (parseFraction_follows hinteger).bind
    intro afterFraction hfraction
    exact parseExponent_follows hfraction
  apply current_follows.bind
  intro value hlt
  dsimp only
  by_cases hsign : value = Ascii.minus
  · rw [if_pos hsign, if_pos hsign]
    exact moveTo_bind hlt (htail _ hlt)
  · rw [if_neg hsign, if_neg hsign]
    exact htail _ hlt.le

/-! ## Strings -/

theorem parseHexDigits_follows (count value : Nat) (h : position + count ≤ input.length) :
    Bounded input (parseHexDigits input count value position)
      (StrictScanner.parseHexDigits input count value position) (Inside input) := by
  induction count generalizing value position with
  | zero => exact Follows.ok h
  | succ count ih =>
    have hlt : position < input.length := by omega
    apply (read_follows hlt).bind
    intro digit _
    apply moveTo_bind hlt
    cases Ascii.hexValue? digit with
    | none => exact fail_follows _ _
    | some v => exact ih _ (by omega)

theorem parseHexQuad_follows (h : position ≤ input.length) :
    Bounded input (parseHexQuad input position) (StrictScanner.parseHexQuad input position)
      (Inside input) := by
  apply (remaining_follows h).bind
  intro count hcount
  apply Follows.ite
  · intro _
    exact fail_follows _ _
  · intro hfour
    exact parseHexDigits_follows 4 0 (by omega)

/-- An escape that follows is inside the input. -/
theorem lacksEscape_follows (h : position ≤ input.length) :
    Bounded input (lacksEscape input position) (StrictScanner.lacksEscape input position)
      fun lacks => lacks = false → position + 6 ≤ input.length := by
  apply (remaining_follows h).bind
  intro count hcount
  apply Follows.ite
  · intro _
    apply Follows.ok
    intro hfalse
    cases hfalse
  · intro hsix
    have hle : position + 6 ≤ input.length := by omega
    apply (read_follows (by omega)).bind
    intro first _
    apply Follows.ite
    · intro _
      apply Follows.ok
      intro _
      exact hle
    · intro _
      apply (read_follows (by omega)).bind
      intro second _
      apply Follows.ok
      intro _
      exact hle

theorem parseUnicodeEscape_follows (h : position ≤ input.length) :
    Bounded input (parseUnicodeEscape input position)
      (StrictScanner.parseUnicodeEscape input position) (Inside input) := by
  apply (parseHexQuad_follows h).bind
  rintro ⟨first, afterFirst⟩ hfirst
  apply Follows.ite
  · intro _
    apply (lacksEscape_follows hfirst).bind
    intro lacks hlacks
    apply Follows.ite
    · intro _
      exact fail_follows _ _
    · intro hescape
      have hsix := hlacks (Bool.eq_false_iff.mpr hescape)
      have htwo : afterFirst + 2 ≤ input.length := by omega
      apply moveTo_bind htwo
      apply (parseHexQuad_follows htwo).bind
      rintro ⟨second, afterSecond⟩ hsecond
      apply Follows.ite
      · intro _
        exact Follows.ok hsecond
      · intro _
        exact fail_follows _ _
  · intro _
    apply Follows.ite
    · intro _
      exact fail_follows _ _
    · intro _
      exact Follows.ok hfirst

theorem parseEscape_follows :
    Bounded input (parseEscape input position) (StrictScanner.parseEscape input position)
      (Inside input) := by
  apply Follows.ite
  · intro _
    exact fail_follows _ _
  · intro hend
    have hlt := lt_of_not_atEnd hend
    apply (read_follows hlt).bind
    intro escape _
    apply moveTo_bind hlt
    cases simpleEscape? escape with
    | some b => exact Follows.ok hlt
    | none =>
      apply Follows.ite
      · intro _
        exact parseUnicodeEscape_follows hlt
      · intro _
        exact fail_follows _ _

theorem parseContinuations_follows (count index codePoint : Nat)
    (h : position + index + count ≤ input.length) :
    Bounded input (parseContinuations input position count index codePoint)
      (StrictScanner.parseContinuations input position count index codePoint)
      fun _ => True := by
  induction count generalizing index codePoint with
  | zero => exact Follows.ok trivial
  | succ count ih =>
    apply (read_follows (by omega)).bind
    intro continuation _
    apply Follows.ite
    · intro _
      exact ih _ _ (by omega)
    · intro _
      exact fail_follows _ _

theorem parseUtf8CodePoint_follows (h : position < input.length) :
    Bounded input (parseUtf8CodePoint input position)
      (StrictScanner.parseUtf8CodePoint input position) (Inside input) := by
  apply (read_follows h).bind
  intro lead _
  cases Utf8.leadWidth lead with
  | none => exact fail_follows _ _
  | some sequence =>
    obtain ⟨width, bits⟩ := sequence
    apply (remaining_follows h.le).bind
    intro count hcount
    apply Follows.ite
    · intro _
      exact fail_follows _ _
    · intro hwidth
      have hle : position + width ≤ input.length := by omega
      apply (parseContinuations_follows (width - 1) 1 bits (by omega)).bind
      intro codePoint _
      apply Follows.ite
      · intro _
        exact fail_follows _ _
      · intro _
        exact moveTo_bind hle (Follows.ok hle)

theorem parseStringLoop_follows (fuel : Nat) (decoded : Bytes) (h : position ≤ input.length) :
    Bounded input (parseStringLoop input fuel decoded position)
      (StrictScanner.parseStringLoop input fuel decoded position) (Inside input) := by
  induction fuel generalizing decoded position with
  | zero => exact Follows.throw _
  | succ fuel ih =>
    apply Follows.ite
    · intro _
      exact fail_follows _ _
    intro hend
    have hlt := lt_of_not_atEnd hend
    apply (read_follows hlt).bind
    intro value _
    apply Follows.ite
    · intro _
      exact moveTo_bind hlt (Follows.ok hlt)
    intro _
    apply Follows.ite
    · intro _
      apply moveTo_bind hlt
      apply parseEscape_follows.bind
      rintro ⟨appended, after⟩ hafter
      exact ih _ hafter
    intro _
    apply Follows.ite
    · intro _
      exact fail_follows _ _
    intro _
    apply Follows.ite
    · intro _
      exact moveTo_bind hlt (ih _ hlt)
    · intro _
      apply (parseUtf8CodePoint_follows hlt).bind
      rintro ⟨codePoint, after⟩ hafter
      exact ih _ hafter

theorem parseString_follows :
    Bounded input (parseString input position) (StrictScanner.parseString input position)
      (Inside input) := by
  apply (expect_follows Ascii.quote).bind
  intro start hstart
  exact parseStringLoop_follows _ _ hstart

/-! ## Values -/

/-- One level of the recursion: what the five functions touch with this fuel.
The functions for objects and arrays are called one level deeper than the value
that they are. -/
structure LevelFollows (input : Bytes) (fuel : Nat) : Prop where
  value : ∀ {depth position}, depth ≤ maximumDepth + 1 → position ≤ input.length →
    Bounded input (parseValue input fuel depth position)
      (StrictScanner.parseValue input fuel depth position) (· ≤ input.length)
  object : ∀ {depth position}, depth ≤ maximumDepth + 1 →
    Bounded input (parseObject input fuel depth position)
      (StrictScanner.parseObject input fuel depth position) (· ≤ input.length)
  members : ∀ {depth names position}, depth ≤ maximumDepth + 1 → position ≤ input.length →
    Bounded input (parseMembers input fuel depth names position)
      (StrictScanner.parseMembers input fuel depth names position) (· ≤ input.length)
  array : ∀ {depth position}, depth ≤ maximumDepth + 1 →
    Bounded input (parseArray input fuel depth position)
      (StrictScanner.parseArray input fuel depth position) (· ≤ input.length)
  elements : ∀ {depth position}, depth ≤ maximumDepth + 1 → position ≤ input.length →
    Bounded input (parseElements input fuel depth position)
      (StrictScanner.parseElements input fuel depth position) (· ≤ input.length)

variable {fuel depth : Nat} {names : List Bytes}

theorem LevelFollows.zero : LevelFollows input 0 := by
  constructor
  · intros
    rw [parseValue, StrictScanner.parseValue]
    exact Follows.throw _
  · intros
    rw [parseObject, StrictScanner.parseObject]
    exact Follows.throw _
  · intros
    rw [parseMembers, StrictScanner.parseMembers]
    exact Follows.throw _
  · intros
    rw [parseArray, StrictScanner.parseArray]
    exact Follows.throw _
  · intros
    rw [parseElements, StrictScanner.parseElements]
    exact Follows.throw _

theorem parseValue_follows (ih : LevelFollows input fuel) (hdepth : depth ≤ maximumDepth + 1)
    (h : position ≤ input.length) :
    Bounded input (parseValue input (fuel + 1) depth position)
      (StrictScanner.parseValue input (fuel + 1) depth position) (· ≤ input.length) := by
  rw [parseValue, StrictScanner.parseValue]
  apply Follows.log_ok_bind
  · exact hdepth
  apply Follows.ite
  · intro _
    exact fail_follows _ _
  intro hshallow
  have hinner : depth + 1 ≤ maximumDepth + 1 := by omega
  apply (skipWhitespace_follows h).bind
  intro start hstart
  apply current_follows.bind
  intro value _
  apply Follows.ite
  · intro _
    exact ih.object hinner
  intro _
  apply Follows.ite
  · intro _
    exact ih.array hinner
  intro _
  apply Follows.ite
  · intro _
    apply parseString_follows.bind
    rintro ⟨text, after⟩ hafter
    exact Follows.ok hafter
  intro _
  apply Follows.ite
  · intro _
    exact parseLiteral_follows _ hstart
  intro _
  apply Follows.ite
  · intro _
    exact parseLiteral_follows _ hstart
  intro _
  apply Follows.ite
  · intro _
    exact parseLiteral_follows _ hstart
  · intro _
    exact parseNumber_follows

/-- After an opening byte: an empty container, or what is in it. -/
theorem opened_follows (opening closing : UInt8) {f : Nat → Scan Nat}
    {g : Nat → StrictScanner.Scan Nat}
    (hf : ∀ after, after ≤ input.length → Bounded input (f after) (g after) (· ≤ input.length)) :
    Bounded input
      (do
        let position ← expect input opening position
        let position ← skipWhitespace input position
        if ← atByte input (· == closing) position then moveTo (position + 1) else f position)
      (do
        let position ← StrictScanner.expect input opening position
        let position ← StrictScanner.skipWhitespace input position
        if ← StrictScanner.atByte input (· == closing) position then .ok (position + 1)
        else g position)
      (· ≤ input.length) := by
  apply (expect_follows opening).bind
  intro start hstart
  apply (skipWhitespace_follows hstart).bind
  intro first hfirst
  apply (atByte_follows _).bind
  intro closed hclosed
  apply Follows.ite
  · intro htrue
    exact moveTo_follows (hclosed htrue)
  · intro _
    exact hf first hfirst

/-- After an item: the closing byte, or a comma and what follows it. -/
theorem closed_follows (closing : UInt8) {f : Nat → Scan Nat} {g : Nat → StrictScanner.Scan Nat}
    (h : position ≤ input.length)
    (hf : ∀ after, after ≤ input.length → Bounded input (f after) (g after) (· ≤ input.length)) :
    Bounded input
      (do
        let position ← skipWhitespace input position
        if (← current input position) = closing then moveTo (position + 1)
        else
          let position ← expect input Ascii.comma position
          f position)
      (do
        let position ← StrictScanner.skipWhitespace input position
        if (← StrictScanner.current input position) = closing then .ok (position + 1)
        else
          let position ← StrictScanner.expect input Ascii.comma position
          g position)
      (· ≤ input.length) := by
  apply (skipWhitespace_follows h).bind
  intro next _
  apply current_follows.bind
  intro value hlt
  apply Follows.ite
  · intro _
    exact moveTo_follows hlt
  · intro _
    exact (expect_follows Ascii.comma).bind hf

theorem parseObject_follows (ih : LevelFollows input fuel) (hdepth : depth ≤ maximumDepth + 1) :
    Bounded input (parseObject input (fuel + 1) depth position)
      (StrictScanner.parseObject input (fuel + 1) depth position) (· ≤ input.length) := by
  rw [parseObject, StrictScanner.parseObject]
  apply opened_follows
  intro first hfirst
  exact ih.members hdepth hfirst

theorem parseArray_follows (ih : LevelFollows input fuel) (hdepth : depth ≤ maximumDepth + 1) :
    Bounded input (parseArray input (fuel + 1) depth position)
      (StrictScanner.parseArray input (fuel + 1) depth position) (· ≤ input.length) := by
  rw [parseArray, StrictScanner.parseArray]
  apply opened_follows
  intro first hfirst
  exact ih.elements hdepth hfirst

theorem parseElements_follows (ih : LevelFollows input fuel) (hdepth : depth ≤ maximumDepth + 1)
    (h : position ≤ input.length) :
    Bounded input (parseElements input (fuel + 1) depth position)
      (StrictScanner.parseElements input (fuel + 1) depth position) (· ≤ input.length) := by
  rw [parseElements, StrictScanner.parseElements]
  apply (ih.value hdepth h).bind
  intro after hafter
  apply closed_follows _ hafter
  intro next hnext
  exact ih.elements hdepth hnext

theorem parseMembers_follows (ih : LevelFollows input fuel) (hdepth : depth ≤ maximumDepth + 1)
    (h : position ≤ input.length) :
    Bounded input (parseMembers input (fuel + 1) depth names position)
      (StrictScanner.parseMembers input (fuel + 1) depth names position) (· ≤ input.length) := by
  rw [parseMembers, StrictScanner.parseMembers]
  apply (skipWhitespace_follows h).bind
  intro start _
  apply current_follows.bind
  intro value _
  apply Follows.ite
  · intro _
    exact fail_follows _ _
  intro _
  apply parseString_follows.bind
  rintro ⟨name, afterName⟩ hname
  apply Follows.ite
  · intro _
    exact fail_follows _ _
  intro _
  apply (skipWhitespace_follows hname).bind
  intro colon _
  apply (expect_follows Ascii.colon).bind
  intro first hfirst
  apply (ih.value hdepth hfirst).bind
  intro after hafter
  apply closed_follows _ hafter
  intro next hnext
  exact ih.members hdepth hnext

theorem levelFollows (input : Bytes) (fuel : Nat) : LevelFollows input fuel := by
  induction fuel with
  | zero => exact LevelFollows.zero
  | succ fuel ih =>
    constructor
    · exact parseValue_follows ih
    · exact parseObject_follows ih
    · exact parseMembers_follows ih
    · exact parseArray_follows ih
    · exact parseElements_follows ih

/-! ## The scan -/

/-- The log follows the scan, and all that the scan touches is in bounds. -/
theorem scan_follows (input : Bytes) :
    Bounded input (scan input) (StrictScanner.scan input) fun _ => True := by
  apply moveTo_bind (Nat.zero_le _)
  apply (skipWhitespace_follows (Nat.zero_le _)).bind
  intro start hstart
  apply ((levelFollows input (scanFuel input)).value (Nat.zero_le _) hstart).bind
  intro after hafter
  apply (skipWhitespace_follows hafter).bind
  intro finish _
  apply Follows.ite
  · intro _
    exact fail_follows _ _
  · intro _
    exact Follows.ok trivial

/-- A scan succeeds or throws `StrictJsonError`. -/
theorem scan_ends (input : Bytes) :
    StrictScanner.scan input = .ok () ∨
      ∃ message position, StrictScanner.scan input = .error (.strict message position) := by
  have hagrees := StrictScanner.scan_agrees input
  have hfuel := StrictScanner.scan_ne_outOfFuel input
  cases hdecode : Decoder.decode input with
  | some v =>
    rw [hdecode] at hagrees
    obtain ⟨result, hresult, _⟩ := hagrees
    exact Or.inl hresult
  | none =>
    rw [hdecode] at hagrees
    obtain ⟨e, he, hrange⟩ := hagrees
    right
    cases e with
    | strict message position => exact ⟨message, position, he⟩
    | outOfBounds index => exact hrange.elim
    | wrapped position => exact hrange.elim
    | outOfFuel => exact absurd he hfuel

end

end MissionWeave.ScannerTrace
