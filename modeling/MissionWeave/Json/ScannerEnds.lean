import MissionWeave.Json.Scanner
import MissionWeave.CodeLib.Except

/-!
# The scanner ends

The loops and the recursion of the scanner are given fuel in the model.  The
fuel is enough: each loop moves the position, and a value of the recursion
starts at least one byte behind the one around it, which is three calls above.

* `scan_ne_outOfFuel`: no scan runs out of fuel.
-/

namespace MissionWeave.StrictScanner

variable {α : Type}

/-! ## Runs that end -/

/-- The run has the fuel that it needs, and what it returns satisfies `q`. -/
abbrev Ends (x : Scan α) (q : α → Prop) : Prop := Except.Avoids .outOfFuel x q

theorem ends_fail {q : α → Prop} (message : String) (position : Nat) :
    Ends (fail message position) q := Except.Avoids.error (by simp)

/-! ## Bytes -/

section

variable {input : Bytes}

theorem ends_read (index : Nat) : Ends (read input index) fun _ => index < input.length := by
  unfold read
  cases h : input[index]? with
  | none => exact .error (by simp)
  | some b => exact .ok (List.getElem?_eq_some_iff.mp h).1

theorem ends_remaining (position : Nat) : Ends (remaining input position) fun _ => True :=
  .ite (fun _ => .ok trivial) fun _ => .error (by simp)

theorem ends_current (position : Nat) :
    Ends (current input position) fun _ => position < input.length :=
  .ite (fun _ => ends_fail _ _) fun _ => ends_read position

theorem ends_advanceWhile (p : UInt8 → Bool) {fuel position : Nat}
    (h : input.length - position < fuel) :
    Ends (advanceWhile input p fuel position) (position ≤ ·) := by
  induction fuel generalizing position with
  | zero => omega
  | succ fuel ih =>
    refine .ite (fun _ => .ok (Nat.le_refl _)) fun _ => ?_
    refine (ends_read position).bind fun value hlt => ?_
    refine .ite (fun _ => ?_) fun _ => .ok (Nat.le_refl _)
    exact (ih (by omega)).imp fun after hle => Nat.le_of_succ_le hle

theorem ends_skipWhitespace (position : Nat) :
    Ends (skipWhitespace input position) (position ≤ ·) :=
  ends_advanceWhile _ (by unfold loopFuel; omega)

theorem ends_skipDigits (position : Nat) : Ends (skipDigits input position) (position ≤ ·) :=
  ends_advanceWhile _ (by unfold loopFuel; omega)

theorem ends_atByte (p : UInt8 → Bool) (position : Nat) :
    Ends (atByte input p position) fun _ => True :=
  .ite (fun _ => .ok trivial) fun _ => (ends_current position).bind fun _ _ => .ok trivial

theorem ends_expect (expected : UInt8) (position : Nat) :
    Ends (expect input expected position)
      fun after => after = position + 1 ∧ position < input.length :=
  (ends_current position).bind fun _ hlt => .ite (fun _ => ends_fail _ _) fun _ => .ok ⟨rfl, hlt⟩

theorem ends_parseLiteral (literal : Bytes) (position : Nat) :
    Ends (parseLiteral input literal position) (position ≤ ·) :=
  .ite (fun _ => ends_fail _ _) fun _ => .ok (Nat.le_add_right _ _)

/-! ## Numbers -/

theorem ends_parseInteger (position : Nat) :
    Ends (parseInteger input position) (position ≤ ·) := by
  refine .ite (fun _ => ends_fail _ _) fun _ => (ends_current position).bind fun value _ => ?_
  refine .ite (fun _ => ?_) fun _ => .ite (fun _ => ends_skipDigits position) fun _ => ends_fail _ _
  refine (ends_atByte _ _).bind fun digit _ => .ite (fun _ => ends_fail _ _) fun _ => ?_
  exact .ok (Nat.le_succ _)

theorem ends_parseFraction (position : Nat) :
    Ends (parseFraction input position) (position ≤ ·) := by
  refine (ends_atByte _ _).bind fun point _ => .ite (fun _ => ?_) fun _ => .ok (Nat.le_refl _)
  refine (ends_atByte _ _).bind fun digit _ => .ite (fun _ => ?_) fun _ => ends_fail _ _
  exact (ends_skipDigits _).imp fun after hle => Nat.le_of_succ_le hle

theorem ends_skipSign (position : Nat) : Ends (skipSign input position) (position ≤ ·) :=
  (ends_atByte _ _).bind fun _ _ => .ite (fun _ => .ok (Nat.le_succ _)) fun _ => .ok (Nat.le_refl _)

theorem ends_parseExponent (position : Nat) :
    Ends (parseExponent input position) (position ≤ ·) := by
  refine (ends_atByte _ _).bind fun marker _ => .ite (fun _ => ?_) fun _ => .ok (Nat.le_refl _)
  refine (ends_skipSign _).bind fun signed hsigned => ?_
  refine (ends_atByte _ _).bind fun digit _ => .ite (fun _ => ?_) fun _ => ends_fail _ _
  exact (ends_skipDigits _).imp fun after hle => (Nat.le_of_succ_le hsigned).trans hle

theorem ends_parseNumber (position : Nat) :
    Ends (parseNumber input position) (position ≤ ·) := by
  refine (ends_current position).bind fun value _ => ?_
  have hsign : position ≤ if value = Ascii.minus then position + 1 else position := by
    split_ifs <;> omega
  refine (ends_parseInteger _).bind fun integer hinteger => ?_
  refine (ends_parseFraction _).bind fun fraction hfraction => ?_
  exact (ends_parseExponent _).imp fun after hle =>
    hsign.trans (hinteger.trans (hfraction.trans hle))

/-! ## Strings -/

theorem ends_parseHexDigits (count value position : Nat) :
    Ends (parseHexDigits input count value position) (position ≤ ·.2) := by
  induction count generalizing value position with
  | zero => exact .ok (Nat.le_refl _)
  | succ count ih =>
    refine (ends_read position).bind fun digit _ => ?_
    cases Ascii.hexValue? digit with
    | none => exact ends_fail _ _
    | some v => exact (ih _ _).imp fun after hle => Nat.le_of_succ_le hle

theorem ends_parseHexQuad (position : Nat) :
    Ends (parseHexQuad input position) (position ≤ ·.2) :=
  (ends_remaining position).bind fun _ _ => .ite (fun _ => ends_fail _ _) fun _ =>
    ends_parseHexDigits _ _ _

theorem ends_lacksEscape (position : Nat) : Ends (lacksEscape input position) fun _ => True := by
  refine (ends_remaining position).bind fun _ _ => .ite (fun _ => .ok trivial) fun _ => ?_
  refine (ends_read position).bind fun _ _ => .ite (fun _ => .ok trivial) fun _ => ?_
  exact (ends_read _).bind fun _ _ => .ok trivial

theorem ends_parseUnicodeEscape (position : Nat) :
    Ends (parseUnicodeEscape input position) (position ≤ ·.2) := by
  refine (ends_parseHexQuad position).bind fun first hfirst => .ite (fun _ => ?_) fun _ => ?_
  · refine (ends_lacksEscape _).bind fun lacks _ => .ite (fun _ => ends_fail _ _) fun _ => ?_
    refine (ends_parseHexQuad _).bind fun second hsecond => ?_
    refine .ite (fun _ => ?_) fun _ => ends_fail _ _
    exact .ok (hfirst.trans ((Nat.le_add_right _ 2).trans hsecond))
  · exact .ite (fun _ => ends_fail _ _) fun _ => .ok hfirst

theorem ends_parseEscape (position : Nat) :
    Ends (parseEscape input position) (position ≤ ·.2) := by
  refine .ite (fun _ => ends_fail _ _) fun _ => (ends_read position).bind fun escape _ => ?_
  cases simpleEscape? escape with
  | some b => exact .ok (Nat.le_succ _)
  | none =>
    refine .ite (fun _ => ?_) fun _ => ends_fail _ _
    exact (ends_parseUnicodeEscape _).imp fun after hle => Nat.le_of_succ_le hle

theorem ends_parseContinuations (position count index codePoint : Nat) :
    Ends (parseContinuations input position count index codePoint) fun _ => True := by
  induction count generalizing index codePoint with
  | zero => exact .ok trivial
  | succ count ih =>
    exact (ends_read _).bind fun _ _ => .ite (fun _ => ih _ _) fun _ => ends_fail _ _

/-- A sequence of more than one byte moves the position past its first byte. -/
theorem ends_parseUtf8CodePoint (position : Nat) :
    Ends (parseUtf8CodePoint input position) (position < ·.2) := by
  refine (ends_read position).bind fun lead _ => ?_
  cases hlead : Utf8.leadWidth lead with
  | none => exact ends_fail _ _
  | some found =>
    have hwidth : 2 ≤ found.1 := by
      rcases Utf8.leadWidth_cases hlead with h | h | h <;> omega
    refine (ends_remaining position).bind fun _ _ => .ite (fun _ => ends_fail _ _) fun _ => ?_
    refine (ends_parseContinuations _ _ _ _).bind fun value _ => ?_
    refine .ite (fun _ => ends_fail _ _) fun _ => ?_
    exact .ok (Nat.lt_add_of_pos_right (by omega))

theorem ends_parseStringLoop {fuel position : Nat} (decoded : Bytes)
    (h : input.length - position < fuel) :
    Ends (parseStringLoop input fuel decoded position) (position ≤ ·.2) := by
  induction fuel generalizing decoded position with
  | zero => omega
  | succ fuel ih =>
    refine .ite (fun _ => ends_fail _ _) fun _ => (ends_read position).bind fun value hlt => ?_
    -- what is taken before the next round is at least one byte
    have hnext (decoded : Bytes) {next : Nat} (hnext : position < next) :
        Ends (parseStringLoop input fuel decoded next) (position ≤ ·.2) :=
      (ih decoded (by omega)).imp fun after hle => (Nat.le_of_lt hnext).trans hle
    refine .ite (fun _ => .ok (Nat.le_succ _)) fun _ => .ite (fun _ => ?_) fun _ => ?_
    · exact (ends_parseEscape _).bind fun escaped hescaped => hnext _ hescaped
    refine .ite (fun _ => ends_fail _ _) fun _ => ?_
    refine .ite (fun _ => hnext _ (Nat.lt_succ_self _)) fun _ => ?_
    exact (ends_parseUtf8CodePoint _).bind fun sequence hsequence => hnext _ hsequence

theorem ends_parseString (position : Nat) :
    Ends (parseString input position) (position < ·.2) := by
  refine (ends_expect _ _).bind fun start hstart => ?_
  refine (ends_parseStringLoop _ (by unfold loopFuel; omega)).imp fun after hle => ?_
  omega

/-! ## Values -/

/-- One level of the recursion, with fuel for what is left of the input. -/
structure LevelEnds (input : Bytes) (fuel : Nat) : Prop where
  value : ∀ {depth position}, 3 * (input.length - position) + 1 ≤ fuel →
    Ends (parseValue input fuel depth position) (position ≤ ·)
  object : ∀ {depth position}, position < input.length → 3 * (input.length - position) ≤ fuel →
    Ends (parseObject input fuel depth position) (position ≤ ·)
  members : ∀ {depth names position}, 3 * (input.length - position) + 2 ≤ fuel →
    Ends (parseMembers input fuel depth names position) (position ≤ ·)
  array : ∀ {depth position}, position < input.length → 3 * (input.length - position) ≤ fuel →
    Ends (parseArray input fuel depth position) (position ≤ ·)
  elements : ∀ {depth position}, 3 * (input.length - position) + 2 ≤ fuel →
    Ends (parseElements input fuel depth position) (position ≤ ·)

theorem LevelEnds.zero : LevelEnds input 0 := by
  constructor <;> intros <;> omega

variable {fuel depth position : Nat} {names : List Bytes}

theorem parseValue_ends (ih : LevelEnds input fuel)
    (h : 3 * (input.length - position) + 1 ≤ fuel + 1) :
    Ends (parseValue input (fuel + 1) depth position) (position ≤ ·) := by
  rw [parseValue]
  refine .ite (fun _ => ends_fail _ _) fun _ => ?_
  refine (ends_skipWhitespace _).bind fun start hstart => ?_
  refine (ends_current start).bind fun value hlt => ?_
  refine .ite (fun _ => (ih.object hlt (by omega)).imp fun _ hle => hstart.trans hle) fun _ => ?_
  refine .ite (fun _ => (ih.array hlt (by omega)).imp fun _ hle => hstart.trans hle) fun _ => ?_
  refine .ite (fun _ => (ends_parseString _).bind fun after hafter => .ok ?_) fun _ => ?_
  · exact hstart.trans (Nat.le_of_lt hafter)
  have hliteral (literal : Bytes) : Ends (parseLiteral input literal start) (position ≤ ·) :=
    (ends_parseLiteral _ _).imp fun _ hle => hstart.trans hle
  refine .ite (fun _ => hliteral _) fun _ => .ite (fun _ => hliteral _) fun _ =>
    .ite (fun _ => hliteral _) fun _ => ?_
  exact (ends_parseNumber _).imp fun _ hle => hstart.trans hle

theorem parseObject_ends (ih : LevelEnds input fuel)
    (h : 3 * (input.length - position) ≤ fuel + 1) :
    Ends (parseObject input (fuel + 1) depth position) (position ≤ ·) := by
  rw [parseObject]
  refine (ends_expect _ _).bind fun start hstart => ?_
  refine (ends_skipWhitespace _).bind fun first hfirst => ?_
  refine (ends_atByte _ _).bind fun closed _ => .ite (fun _ => .ok (by omega)) fun _ => ?_
  exact (ih.members (by omega)).imp fun _ hle => by omega

theorem parseArray_ends (ih : LevelEnds input fuel)
    (h : 3 * (input.length - position) ≤ fuel + 1) :
    Ends (parseArray input (fuel + 1) depth position) (position ≤ ·) := by
  rw [parseArray]
  refine (ends_expect _ _).bind fun start hstart => ?_
  refine (ends_skipWhitespace _).bind fun first hfirst => ?_
  refine (ends_atByte _ _).bind fun closed _ => .ite (fun _ => .ok (by omega)) fun _ => ?_
  exact (ih.elements (by omega)).imp fun _ hle => by omega

theorem parseElements_ends (ih : LevelEnds input fuel)
    (h : 3 * (input.length - position) + 2 ≤ fuel + 1) :
    Ends (parseElements input (fuel + 1) depth position) (position ≤ ·) := by
  rw [parseElements]
  refine (ih.value (by omega)).bind fun read hread => ?_
  refine (ends_skipWhitespace _).bind fun next hnext => ?_
  refine (ends_current next).bind fun value hlt => .ite (fun _ => .ok (by omega)) fun _ => ?_
  refine (ends_expect _ _).bind fun start hstart => ?_
  exact (ih.elements (by omega)).imp fun _ hle => by omega

theorem parseMembers_ends (ih : LevelEnds input fuel)
    (h : 3 * (input.length - position) + 2 ≤ fuel + 1) :
    Ends (parseMembers input (fuel + 1) depth names position) (position ≤ ·) := by
  rw [parseMembers]
  refine (ends_skipWhitespace _).bind fun start hstart => ?_
  refine (ends_current start).bind fun value hlt => .ite (fun _ => ends_fail _ _) fun _ => ?_
  refine (ends_parseString _).bind fun name hname => .ite (fun _ => ends_fail _ _) fun _ => ?_
  refine (ends_skipWhitespace _).bind fun colon hcolon => ?_
  refine (ends_expect _ _).bind fun first hfirst => ?_
  refine (ih.value (by omega)).bind fun read hread => ?_
  refine (ends_skipWhitespace _).bind fun next hnext => ?_
  refine (ends_current next).bind fun value hlt => .ite (fun _ => .ok (by omega)) fun _ => ?_
  refine (ends_expect _ _).bind fun start hstart => ?_
  exact (ih.members (by omega)).imp fun _ hle => by omega

theorem levelEnds (input : Bytes) (fuel : Nat) : LevelEnds input fuel := by
  induction fuel with
  | zero => exact .zero
  | succ fuel ih =>
    exact ⟨parseValue_ends ih, fun _ => parseObject_ends ih, parseMembers_ends ih,
      fun _ => parseArray_ends ih, parseElements_ends ih⟩

/-- A scan ends with success or a failure of its own. -/
theorem scan_ne_outOfFuel (input : Bytes) : scan input ≠ .error .outOfFuel := by
  have h : Ends (scan input) fun _ => True := by
    refine (ends_skipWhitespace 0).bind fun start _ => ?_
    refine ((levelEnds input _).value (by unfold scanFuel; omega)).bind fun after _ => ?_
    refine (ends_skipWhitespace _).bind fun finish _ => ?_
    exact .ite (fun _ => ends_fail _ _) fun _ => .ok trivial
  exact h.1

end

end MissionWeave.StrictScanner
