import MissionWeave.CodeLib.Traced
import MissionWeave.Json.Scanner

/-!
# What the scanner touches

The member functions of `StrictScanner` once more, with a log: each value that
`position_` takes, each index and each start of a substring that is taken from
`input_`, each operand of the unsigned `input_.size() - position_`, and each
depth that `parse_value` is entered at.  Where the source reads one byte several
times in a row, the log has it once.
-/

namespace MissionWeave

/-- What a step of the scanner touches. -/
inductive ScanEvent
  | moved (position : Nat)
  | reads (index : Nat)
  | differs (position : Nat)
  | substring (position count : Nat)
  | enters (depth : Nat)
  deriving DecidableEq, Repr

/-- No access outside the input, no position behind it, no difference that wraps
and no depth that the first check of `parse_value` does not stop. -/
def ScanEvent.InBounds (input : Bytes) : ScanEvent → Prop
  | .moved position => position ≤ input.length
  | .reads index => index < input.length
  | .differs position => position ≤ input.length
  | .substring position _ => position ≤ input.length
  | .enters depth => depth ≤ StrictScanner.maximumDepth + 1

namespace ScannerTrace

open StrictScanner (maximumDepth atEnd loopFuel isWhitespace isExponentMarker isSign
  isHighSurrogate isLowSurrogate combineSurrogates simpleEscape? scanFuel)

abbrev Scan (α : Type) := Traced ScanEvent ScanError α

def fail {α : Type} (message : String) (position : Nat) : Scan α :=
  .throw (.strict message position)

/-- The assignment to `position_`. -/
def moveTo (position : Nat) : Scan Nat := .log (.moved position) (.ok position)

section

variable (input : Bytes)

def read (index : Nat) : Scan UInt8 := .log (.reads index) (StrictScanner.read input index)

def remaining (position : Nat) : Scan Nat :=
  .log (.differs position) (StrictScanner.remaining input position)

/-- `input_.substr(position_, count)`. -/
def substring (position count : Nat) : Scan Bytes :=
  .log (.substring position count) (.ok ((input.drop position).take count))

def current (position : Nat) : Scan UInt8 :=
  if atEnd input position then fail "unexpected end of JSON" position else read input position

def advanceWhile (p : UInt8 → Bool) : Nat → Nat → Scan Nat
  | 0, _ => .throw .outOfFuel
  | fuel + 1, position =>
    if atEnd input position then .ok position
    else do
      let value ← read input position
      if p value then do
        let position ← moveTo (position + 1)
        advanceWhile p fuel position
      else .ok position

def skipWhitespace (position : Nat) : Scan Nat :=
  advanceWhile input isWhitespace (loopFuel input) position

def expect (expected : UInt8) (position : Nat) : Scan Nat := do
  if (← current input position) ≠ expected then fail "unexpected character" position
  else moveTo (position + 1)

def parseLiteral (literal : Bytes) (position : Nat) : Scan Nat := do
  if (← substring input position literal.length) ≠ literal then
    fail "invalid JSON literal" position
  else moveTo (position + literal.length)

/-! ## Numbers -/

def atByte (p : UInt8 → Bool) (position : Nat) : Scan Bool :=
  if atEnd input position then .ok false else do
    let value ← current input position
    .ok (p value)

def skipDigits (position : Nat) : Scan Nat :=
  advanceWhile input Ascii.isDigit (loopFuel input) position

def parseInteger (position : Nat) : Scan Nat := do
  if atEnd input position then fail "incomplete JSON number" position
  else
    let value ← current input position
    if value = Ascii.zero then do
      let position ← moveTo (position + 1)
      if ← atByte input Ascii.isDigit position then
        fail "JSON number has a leading zero" position
      else .ok position
    else if Ascii.one ≤ value ∧ value ≤ Ascii.nine then skipDigits input position
    else fail "invalid JSON number" position

def parseFraction (position : Nat) : Scan Nat := do
  if ← atByte input (· == Ascii.point) position then do
    let position ← moveTo (position + 1)
    if ← atByte input Ascii.isDigit position then skipDigits input position
    else fail "JSON fraction requires a digit" position
  else .ok position

def skipSign (position : Nat) : Scan Nat := do
  if ← atByte input isSign position then moveTo (position + 1) else .ok position

def parseExponent (position : Nat) : Scan Nat := do
  if ← atByte input isExponentMarker position then do
    let position ← moveTo (position + 1)
    let position ← skipSign input position
    if ← atByte input Ascii.isDigit position then skipDigits input position
    else fail "JSON exponent requires a digit" position
  else .ok position

def parseNumber (position : Nat) : Scan Nat := do
  let value ← current input position
  let position ← if value = Ascii.minus then moveTo (position + 1) else .ok position
  let position ← parseInteger input position
  let position ← parseFraction input position
  parseExponent input position

/-! ## Strings -/

def parseHexDigits : Nat → Nat → Nat → Scan (Nat × Nat)
  | 0, value, position => .ok (value, position)
  | count + 1, value, position => do
    let digit ← read input position
    let position ← moveTo (position + 1)
    match Ascii.hexValue? digit with
    | some v => parseHexDigits count ((value <<< 4) % 2 ^ 16 + v) position
    | none => fail "invalid Unicode escape" position

def parseHexQuad (position : Nat) : Scan (Nat × Nat) := do
  if (← remaining input position) < 4 then fail "incomplete Unicode escape" position
  else parseHexDigits input 4 0 position

def lacksEscape (position : Nat) : Scan Bool := do
  if (← remaining input position) < 6 then .ok true
  else if (← read input position) ≠ Ascii.backslash then .ok true
  else do
    let escape ← read input (position + 1)
    .ok (escape != Ascii.lowerU)

def parseUnicodeEscape (position : Nat) : Scan (Bytes × Nat) := do
  let (first, position) ← parseHexQuad input position
  if isHighSurrogate first then
    if ← lacksEscape input position then
      fail "high surrogate requires a low surrogate" position
    else do
      let position ← moveTo (position + 2)
      let (second, position) ← parseHexQuad input position
      if isLowSurrogate second then
        .ok (Utf8.append (combineSurrogates first second), position)
      else fail "invalid low surrogate" position
  else if isLowSurrogate first then fail "isolated low surrogate" position
  else .ok (Utf8.append first, position)

def parseEscape (position : Nat) : Scan (Bytes × Nat) := do
  if atEnd input position then fail "incomplete JSON escape" position
  else
    let escape ← read input position
    let position ← moveTo (position + 1)
    match simpleEscape? escape with
    | some b => .ok ([b], position)
    | none =>
      if escape = Ascii.lowerU then parseUnicodeEscape input position
      else fail "invalid JSON escape" position

def parseContinuations (position : Nat) : Nat → Nat → Nat → Scan Nat
  | 0, _, codePoint => .ok codePoint
  | count + 1, index, codePoint => do
    let continuation ← read input (position + index)
    if Utf8.isContinuation continuation then
      parseContinuations position count (index + 1) (Utf8.pushContinuation codePoint continuation)
    else fail "invalid UTF-8 continuation byte" position

def parseUtf8CodePoint (position : Nat) : Scan (Nat × Nat) := do
  let lead ← read input position
  match Utf8.leadWidth lead with
  | none => fail "invalid UTF-8 leading byte" position
  | some (width, bits) =>
    if (← remaining input position) < width then fail "truncated UTF-8 sequence" position
    else do
      let codePoint ← parseContinuations input position (width - 1) 1 bits
      if Utf8.nonCanonical width codePoint then fail "non-canonical UTF-8 sequence" position
      else do
        let position ← moveTo (position + width)
        .ok (codePoint, position)

def parseStringLoop : Nat → Bytes → Nat → Scan (Bytes × Nat)
  | 0, _, _ => .throw .outOfFuel
  | fuel + 1, decoded, position => do
    if atEnd input position then fail "unterminated JSON string" position
    else
      let value ← read input position
      if value = Ascii.quote then do
        let position ← moveTo (position + 1)
        .ok (decoded, position)
      else if value = Ascii.backslash then do
        let position ← moveTo (position + 1)
        let (appended, position) ← parseEscape input position
        parseStringLoop fuel (decoded ++ appended) position
      else if value < 0x20 then
        fail "unescaped control character in JSON string" position
      else if value < 0x80 then do
        let position ← moveTo (position + 1)
        parseStringLoop fuel (decoded ++ [value]) position
      else do
        let (codePoint, position) ← parseUtf8CodePoint input position
        parseStringLoop fuel (decoded ++ Utf8.append codePoint) position

def parseString (position : Nat) : Scan (Bytes × Nat) := do
  let position ← expect input Ascii.quote position
  parseStringLoop input (loopFuel input) [] position

/-! ## Values -/

/-- The entry of `parse_value`. -/
def enter (depth : Nat) : Scan Unit := .log (.enters depth) (.ok ())

mutual

def parseValue : Nat → Nat → Nat → Scan Nat
  | 0, _, _ => .throw .outOfFuel
  | fuel + 1, depth, position => do
    enter depth
    if maximumDepth < depth then fail "JSON nesting exceeds the supported limit" position
    else
      let position ← skipWhitespace input position
      let value ← current input position
      if value = Ascii.leftBrace then parseObject fuel (depth + 1) position
      else if value = Ascii.leftBracket then parseArray fuel (depth + 1) position
      else if value = Ascii.quote then do
        let (_, position) ← parseString input position
        .ok position
      else if value = Ascii.lowerT then parseLiteral input (ascii "true") position
      else if value = Ascii.lowerF then parseLiteral input (ascii "false") position
      else if value = Ascii.lowerN then parseLiteral input (ascii "null") position
      else parseNumber input position

def parseObject : Nat → Nat → Nat → Scan Nat
  | 0, _, _ => .throw .outOfFuel
  | fuel + 1, depth, position => do
    let position ← expect input Ascii.leftBrace position
    let position ← skipWhitespace input position
    if ← atByte input (· == Ascii.rightBrace) position then moveTo (position + 1)
    else parseMembers fuel depth [] position

def parseMembers : Nat → Nat → List Bytes → Nat → Scan Nat
  | 0, _, _, _ => .throw .outOfFuel
  | fuel + 1, depth, names, position => do
    let position ← skipWhitespace input position
    if (← current input position) ≠ Ascii.quote then
      fail "object member name must be a string" position
    else
      let (name, position) ← parseString input position
      if name ∈ names then fail "duplicate object member" position
      else
        let position ← skipWhitespace input position
        let position ← expect input Ascii.colon position
        let position ← parseValue fuel depth position
        let position ← skipWhitespace input position
        if (← current input position) = Ascii.rightBrace then moveTo (position + 1)
        else
          let position ← expect input Ascii.comma position
          parseMembers fuel depth (name :: names) position

def parseArray : Nat → Nat → Nat → Scan Nat
  | 0, _, _ => .throw .outOfFuel
  | fuel + 1, depth, position => do
    let position ← expect input Ascii.leftBracket position
    let position ← skipWhitespace input position
    if ← atByte input (· == Ascii.rightBracket) position then moveTo (position + 1)
    else parseElements fuel depth position

def parseElements : Nat → Nat → Nat → Scan Nat
  | 0, _, _ => .throw .outOfFuel
  | fuel + 1, depth, position => do
    let position ← parseValue fuel depth position
    let position ← skipWhitespace input position
    if (← current input position) = Ascii.rightBracket then moveTo (position + 1)
    else
      let position ← expect input Ascii.comma position
      parseElements fuel depth position

end

def scan : Scan Unit := do
  let position ← moveTo 0
  let position ← skipWhitespace input position
  let position ← parseValue input (scanFuel input) 0 position
  let position ← skipWhitespace input position
  if position ≠ input.length then fail "unexpected trailing content" position
  else .ok ()

end

end ScannerTrace

end MissionWeave
