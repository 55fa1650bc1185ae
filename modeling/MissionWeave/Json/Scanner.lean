import MissionWeave.CodeLib.Except
import MissionWeave.CodeLib.Utf8

/-!
# `StrictScanner`

The scanner of `json.cpp`, one definition for each of its member functions.
A function takes the current `position_` and returns the one it leaves behind.

Two things that C++ leaves to the programmer are faults here.  `read` faults
on an index outside the input, and `remaining` faults where the unsigned
difference `input_.size() - position_` would wrap.  The loops and the
recursion take a fuel argument, and running out of it is a third fault.
`StrictJsonError` is the only failure that the source has.
-/

namespace MissionWeave

/-- A failure of the scanner: the error that the source throws, or one of the
three faults that no run of it must reach. -/
inductive ScanError
  | strict (message : String) (position : Nat)
  | outOfBounds (index : Nat)
  | wrapped (position : Nat)
  | outOfFuel
  deriving DecidableEq, Repr

namespace StrictScanner

abbrev Scan (α : Type) := Except ScanError α

/-- `maximum_depth`. -/
def maximumDepth : Nat := 512

def fail {α : Type} (message : String) (position : Nat) : Scan α :=
  .error (.strict message position)

section

variable (input : Bytes)

/-- `input_[index]`. -/
def read (index : Nat) : Scan UInt8 :=
  match input[index]? with
  | some b => .ok b
  | none => .error (.outOfBounds index)

/-- `input_.size() - position_`. -/
def remaining (position : Nat) : Scan Nat :=
  if position ≤ input.length then .ok (input.length - position) else .error (.wrapped position)

def atEnd (position : Nat) : Bool := input.length ≤ position

def current (position : Nat) : Scan UInt8 :=
  if atEnd input position then fail "unexpected end of JSON" position else read input position

/-- `while (!at_end() && p(input_[position_])) { ++position_; }`. -/
def advanceWhile (p : UInt8 → Bool) : Nat → Nat → Scan Nat
  | 0, _ => .error .outOfFuel
  | fuel + 1, position =>
    if atEnd input position then .ok position
    else do
      let value ← read input position
      if p value then advanceWhile p fuel (position + 1) else .ok position

/-- Enough fuel for a loop that takes at least one byte each time round. -/
def loopFuel : Nat := input.length + 1

def isWhitespace (value : UInt8) : Bool :=
  value == Ascii.space || value == Ascii.tab || value == Ascii.lineFeed ||
    value == Ascii.carriageReturn

def skipWhitespace (position : Nat) : Scan Nat :=
  advanceWhile input isWhitespace (loopFuel input) position

def expect (expected : UInt8) (position : Nat) : Scan Nat := do
  if (← current input position) ≠ expected then fail "unexpected character" position
  else .ok (position + 1)

def parseLiteral (literal : Bytes) (position : Nat) : Scan Nat :=
  if (input.drop position).take literal.length ≠ literal then
    fail "invalid JSON literal" position
  else .ok (position + literal.length)

/-! ## Numbers -/

/-- `!at_end() && p(current())`. -/
def atByte (p : UInt8 → Bool) (position : Nat) : Scan Bool :=
  if atEnd input position then .ok false else do
    let value ← current input position
    .ok (p value)

def skipDigits (position : Nat) : Scan Nat :=
  advanceWhile input Ascii.isDigit (loopFuel input) position

/-- The integer part of a number, after its sign. -/
def parseInteger (position : Nat) : Scan Nat := do
  if atEnd input position then fail "incomplete JSON number" position
  else
    let value ← current input position
    if value = Ascii.zero then
      if ← atByte input Ascii.isDigit (position + 1) then
        fail "JSON number has a leading zero" (position + 1)
      else .ok (position + 1)
    else if Ascii.one ≤ value ∧ value ≤ Ascii.nine then skipDigits input position
    else fail "invalid JSON number" position

def parseFraction (position : Nat) : Scan Nat := do
  if ← atByte input (· == Ascii.point) position then
    if ← atByte input Ascii.isDigit (position + 1) then skipDigits input (position + 1)
    else fail "JSON fraction requires a digit" (position + 1)
  else .ok position

def isExponentMarker (value : UInt8) : Bool := value == Ascii.lowerE || value == Ascii.upperE

def isSign (value : UInt8) : Bool := value == Ascii.plus || value == Ascii.minus

def skipSign (position : Nat) : Scan Nat := do
  if ← atByte input isSign position then .ok (position + 1) else .ok position

def parseExponent (position : Nat) : Scan Nat := do
  if ← atByte input isExponentMarker position then
    let position ← skipSign input (position + 1)
    if ← atByte input Ascii.isDigit position then skipDigits input position
    else fail "JSON exponent requires a digit" position
  else .ok position

def parseNumber (position : Nat) : Scan Nat := do
  let value ← current input position
  let position := if value = Ascii.minus then position + 1 else position
  let position ← parseInteger input position
  let position ← parseFraction input position
  parseExponent input position

/-! ## Strings -/

/-- The four digits of `parse_hex_quad`, with the value so far. -/
def parseHexDigits : Nat → Nat → Nat → Scan (Nat × Nat)
  | 0, value, position => .ok (value, position)
  | count + 1, value, position => do
    let digit ← read input position
    match Ascii.hexValue? digit with
    | some v => parseHexDigits count ((value <<< 4) % 2 ^ 16 + v) (position + 1)
    | none => fail "invalid Unicode escape" (position + 1)

def parseHexQuad (position : Nat) : Scan (Nat × Nat) := do
  if (← remaining input position) < 4 then fail "incomplete Unicode escape" position
  else parseHexDigits input 4 0 position

def isHighSurrogate (value : Nat) : Bool := 0xD800 ≤ value && value ≤ 0xDBFF

def isLowSurrogate (value : Nat) : Bool := 0xDC00 ≤ value && value ≤ 0xDFFF

/-- `0x10000U + ((first - 0xD800U) << 10U) + (second - 0xDC00U)`. -/
def combineSurrogates (first second : Nat) : Nat :=
  0x10000 + ((first - 0xD800) <<< 10) + (second - 0xDC00)

/-- `input_.size() - position_ < 6 || input_[position_] != '\\' ||
input_[position_ + 1] != 'u'`. -/
def lacksEscape (position : Nat) : Scan Bool := do
  if (← remaining input position) < 6 then .ok true
  else if (← read input position) ≠ Ascii.backslash then .ok true
  else .ok ((← read input (position + 1)) != Ascii.lowerU)

/-- The bytes that a `\u` escape appends to `decoded`, and the position after
it. -/
def parseUnicodeEscape (position : Nat) : Scan (Bytes × Nat) := do
  let (first, position) ← parseHexQuad input position
  if isHighSurrogate first then
    if ← lacksEscape input position then
      fail "high surrogate requires a low surrogate" position
    else
      let (second, position) ← parseHexQuad input (position + 2)
      if isLowSurrogate second then
        .ok (Utf8.append (combineSurrogates first second), position)
      else fail "invalid low surrogate" position
  else if isLowSurrogate first then fail "isolated low surrogate" position
  else .ok (Utf8.append first, position)

/-- The byte that an escape of one letter stands for. -/
def simpleEscape? (escape : UInt8) : Option UInt8 :=
  if escape = Ascii.quote ∨ escape = Ascii.backslash ∨ escape = Ascii.slash then some escape
  else if escape = Ascii.lowerB then some Ascii.backspace
  else if escape = Ascii.lowerF then some Ascii.formFeed
  else if escape = Ascii.lowerN then some Ascii.lineFeed
  else if escape = Ascii.lowerR then some Ascii.carriageReturn
  else if escape = Ascii.lowerT then some Ascii.tab
  else none

def parseEscape (position : Nat) : Scan (Bytes × Nat) := do
  if atEnd input position then fail "incomplete JSON escape" position
  else
    let escape ← read input position
    match simpleEscape? escape with
    | some b => .ok ([b], position + 1)
    | none =>
      if escape = Ascii.lowerU then parseUnicodeEscape input (position + 1)
      else fail "invalid JSON escape" (position + 1)

/-- The continuation bytes at `position + index`, folded into the code point. -/
def parseContinuations (position : Nat) : Nat → Nat → Nat → Scan Nat
  | 0, _, codePoint => .ok codePoint
  | count + 1, index, codePoint => do
    let continuation ← read input (position + index)
    if Utf8.isContinuation continuation then
      parseContinuations position count (index + 1) (Utf8.pushContinuation codePoint continuation)
    else fail "invalid UTF-8 continuation byte" position

def parseUtf8CodePoint (position : Nat) : Scan (Nat × Nat) := do
  let lead ← read input position
  match Utf8.leadWidth lead with
  | none => fail "invalid UTF-8 leading byte" position
  | some (width, bits) =>
    if (← remaining input position) < width then fail "truncated UTF-8 sequence" position
    else
      let codePoint ← parseContinuations input position (width - 1) 1 bits
      if Utf8.nonCanonical width codePoint then fail "non-canonical UTF-8 sequence" position
      else .ok (codePoint, position + width)

/-- The loop of `parse_string`, with `decoded` so far. -/
def parseStringLoop : Nat → Bytes → Nat → Scan (Bytes × Nat)
  | 0, _, _ => .error .outOfFuel
  | fuel + 1, decoded, position => do
    if atEnd input position then fail "unterminated JSON string" position
    else
      let value ← read input position
      if value = Ascii.quote then .ok (decoded, position + 1)
      else if value = Ascii.backslash then
        let (appended, position) ← parseEscape input (position + 1)
        parseStringLoop fuel (decoded ++ appended) position
      else if value < 0x20 then
        fail "unescaped control character in JSON string" position
      else if value < 0x80 then parseStringLoop fuel (decoded ++ [value]) (position + 1)
      else
        let (codePoint, position) ← parseUtf8CodePoint input position
        parseStringLoop fuel (decoded ++ Utf8.append codePoint) position

def parseString (position : Nat) : Scan (Bytes × Nat) := do
  let position ← expect input Ascii.quote position
  parseStringLoop input (loopFuel input) [] position

/-! ## Values -/

mutual

def parseValue : Nat → Nat → Nat → Scan Nat
  | 0, _, _ => .error .outOfFuel
  | fuel + 1, depth, position => do
    if maximumDepth < depth then fail "JSON nesting exceeds the supported limit" position
    else
      let position ← skipWhitespace input position
      let value ← current input position
      if value = Ascii.leftBrace then parseObject fuel (depth + 1) position
      else if value = Ascii.leftBracket then parseArray fuel (depth + 1) position
      else if value = Ascii.quote then do
        let (_, position) ← parseString input position
        .ok position
      else if value = Ascii.lowerT then parseLiteral input (ascii "true") position
      else if value = Ascii.lowerF then parseLiteral input (ascii "false") position
      else if value = Ascii.lowerN then parseLiteral input (ascii "null") position
      else parseNumber input position

def parseObject : Nat → Nat → Nat → Scan Nat
  | 0, _, _ => .error .outOfFuel
  | fuel + 1, depth, position => do
    let position ← expect input Ascii.leftBrace position
    let position ← skipWhitespace input position
    if ← atByte input (· == Ascii.rightBrace) position then .ok (position + 1)
    else parseMembers fuel depth [] position

/-- The loop of `parse_object`, with the names seen so far. -/
def parseMembers : Nat → Nat → List Bytes → Nat → Scan Nat
  | 0, _, _, _ => .error .outOfFuel
  | fuel + 1, depth, names, position => do
    let position ← skipWhitespace input position
    if (← current input position) ≠ Ascii.quote then
      fail "object member name must be a string" position
    else
      let (name, position) ← parseString input position
      if name ∈ names then fail "duplicate object member" position
      else
        let position ← skipWhitespace input position
        let position ← expect input Ascii.colon position
        let position ← parseValue fuel depth position
        let position ← skipWhitespace input position
        if (← current input position) = Ascii.rightBrace then .ok (position + 1)
        else
          let position ← expect input Ascii.comma position
          parseMembers fuel depth (name :: names) position

def parseArray : Nat → Nat → Nat → Scan Nat
  | 0, _, _ => .error .outOfFuel
  | fuel + 1, depth, position => do
    let position ← expect input Ascii.leftBracket position
    let position ← skipWhitespace input position
    if ← atByte input (· == Ascii.rightBracket) position then .ok (position + 1)
    else parseElements fuel depth position

/-- The loop of `parse_array`. -/
def parseElements : Nat → Nat → Nat → Scan Nat
  | 0, _, _ => .error .outOfFuel
  | fuel + 1, depth, position => do
    let position ← parseValue fuel depth position
    let position ← skipWhitespace input position
    if (← current input position) = Ascii.rightBracket then .ok (position + 1)
    else
      let position ← expect input Ascii.comma position
      parseElements fuel depth position

end

/-- Enough fuel for the recursion: three calls for each byte. -/
def scanFuel : Nat := 3 * input.length + 1

def scan : Scan Unit := do
  let position ← skipWhitespace input 0
  let position ← parseValue input (scanFuel input) 0 position
  let position ← skipWhitespace input position
  if position ≠ input.length then fail "unexpected trailing content" position
  else .ok ()

end

end StrictScanner

end MissionWeave
