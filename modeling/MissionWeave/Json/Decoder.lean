import MissionWeave.Json.Grammar
import MissionWeave.Json.Scanner

/-!
# A reader over what is left of the text

`StrictScanner` moves an index through its input and keeps nothing of what it
reads but the decoded strings.  The functions below read the same grammar off
the front of a list and return the value with the bytes after it.  They are
the middle layer of the scanner's correctness.  `Json.ScannerReads` shows that
the scanner at a position does what `value` does with the bytes from there on,
and `Json.DecoderSound` and `Json.DecoderComplete` relate the reading to the
grammar, where there is no position left to reason about.

`decode` is a reference decoder: what `Json::parse` returns for the texts that
the scanner accepts.
-/

namespace MissionWeave.Decoder

open StrictScanner (isWhitespace isExponentMarker isSign isHighSurrogate isLowSurrogate
  combineSurrogates simpleEscape? maximumDepth)

def skipWhitespace (rest : Bytes) : Bytes := rest.dropWhile isWhitespace

/-- The rest after the byte `b`. -/
def byte (b : UInt8) : Bytes → Option Bytes
  | [] => none
  | c :: rest => if c = b then some rest else none

def literal (text : Bytes) (v : Json) (rest : Bytes) : Option (Json × Bytes) :=
  if rest.take text.length = text then some (v, rest.drop text.length) else none

/-! ## Numbers -/

/-- A run of one or more digits. -/
def digits (rest : Bytes) : Option (Bytes × Bytes) :=
  if rest.takeWhile Ascii.isDigit = [] then none
  else some (rest.takeWhile Ascii.isDigit, rest.dropWhile Ascii.isDigit)

def sign : Bytes → Bool × Bytes
  | [] => (false, [])
  | b :: rest => if b = Ascii.minus then (true, rest) else (false, b :: rest)

def integer : Bytes → Option (Bytes × Bytes)
  | [] => none
  | b :: rest =>
    if b = Ascii.zero then
      if rest.head?.any Ascii.isDigit then none else some ([Ascii.zero], rest)
    else digits (b :: rest)

def fraction (rest : Bytes) : Option (Option Bytes × Bytes) :=
  match byte Ascii.point rest with
  | some rest => do
    let (ds, rest) ← digits rest
    some (some ds, rest)
  | none => some (none, rest)

def exponentSign : Bytes → Option UInt8 × Bytes
  | [] => (none, [])
  | b :: rest => if isSign b then (some b, rest) else (none, b :: rest)

def exponent : Bytes → Option (Option ExponentText × Bytes)
  | [] => some (none, [])
  | b :: rest =>
    if isExponentMarker b then do
      let (ds, after) ← digits (exponentSign rest).2
      some (some ⟨b, (exponentSign rest).1, ds⟩, after)
    else some (none, b :: rest)

def number (rest : Bytes) : Option (NumberText × Bytes) := do
  let (int, after) ← integer (sign rest).2
  let (frac, after) ← fraction after
  let (exp, after) ← exponent after
  some (⟨(sign rest).1, int, frac, exp⟩, after)

/-! ## Strings -/

def hexQuad : Bytes → Option (Nat × Bytes)
  | a :: b :: c :: d :: rest => (hexQuad? [a, b, c, d]).map (·, rest)
  | _ => none

/-- The escape that has to follow that of a high surrogate. -/
def secondEscape (rest : Bytes) : Option (Nat × Bytes) := do
  let rest ← byte Ascii.backslash rest
  let rest ← byte Ascii.lowerU rest
  hexQuad rest

def unicodeEscape (rest : Bytes) : Option (Bytes × Bytes) := do
  let (first, rest) ← hexQuad rest
  if isHighSurrogate first then
    let (second, rest) ← secondEscape rest
    if isLowSurrogate second then some (Utf8.append (combineSurrogates first second), rest)
    else none
  else if isLowSurrogate first then none
  else some (Utf8.append first, rest)

def escape : Bytes → Option (Bytes × Bytes)
  | [] => none
  | b :: rest =>
    match simpleEscape? b with
    | some c => some ([c], rest)
    | none => if b = Ascii.lowerU then unicodeEscape rest else none

/-- A UTF-8 sequence of more than one byte. -/
def codePoint : Bytes → Option (Nat × Bytes)
  | [] => none
  | lead :: rest => do
    let (width, bits) ← Utf8.leadWidth lead
    let continuations := rest.take (width - 1)
    if continuations.length + 1 = width ∧ continuations.all Utf8.isContinuation then
      let value := continuations.foldl Utf8.pushContinuation bits
      if Utf8.nonCanonical width value then none else some (value, rest.drop (width - 1))
    else none

def stringLoop : Nat → Bytes → Bytes → Option (Bytes × Bytes)
  | 0, _, _ => none
  | _ + 1, _, [] => none
  | fuel + 1, decoded, b :: rest =>
    if b = Ascii.quote then some (decoded, rest)
    else if b = Ascii.backslash then do
      let (appended, rest) ← escape rest
      stringLoop fuel (decoded ++ appended) rest
    else if b < 0x20 then none
    else if b < 0x80 then stringLoop fuel (decoded ++ [b]) rest
    else do
      let (value, rest) ← codePoint (b :: rest)
      stringLoop fuel (decoded ++ Utf8.append value) rest

def string (loop : Nat) (rest : Bytes) : Option (Bytes × Bytes) := do
  let rest ← byte Ascii.quote rest
  stringLoop loop [] rest

/-! ## Values -/

mutual

/-- A value of the given depth.  `loop` is the fuel of each string. -/
def value (loop : Nat) : Nat → Nat → Bytes → Option (Json × Bytes)
  | 0, _, _ => none
  | fuel + 1, depth, rest =>
    if maximumDepth < depth then none
    else
      match skipWhitespace rest with
      | [] => none
      | b :: after =>
        if b = Ascii.leftBrace then do
          let (ms, rest) ← object loop fuel (depth + 1) (b :: after)
          some (Json.ofMembers ms, rest)
        else if b = Ascii.leftBracket then do
          let (xs, rest) ← array loop fuel (depth + 1) (b :: after)
          some (.array xs, rest)
        else if b = Ascii.quote then do
          let (s, rest) ← string loop (b :: after)
          some (.string s, rest)
        else if b = Ascii.lowerT then literal (ascii "true") (.bool true) (b :: after)
        else if b = Ascii.lowerF then literal (ascii "false") (.bool false) (b :: after)
        else if b = Ascii.lowerN then literal (ascii "null") .null (b :: after)
        else do
          let (n, rest) ← number (b :: after)
          some (n.toJson, rest)

def object (loop : Nat) : Nat → Nat → Bytes → Option (List (Bytes × Json) × Bytes)
  | 0, _, _ => none
  | fuel + 1, depth, rest => do
    let rest ← byte Ascii.leftBrace rest
    match byte Ascii.rightBrace (skipWhitespace rest) with
    | some rest => some ([], rest)
    | none => members loop fuel depth [] (skipWhitespace rest)

def members (loop : Nat) : Nat → Nat → List Bytes → Bytes → Option (List (Bytes × Json) × Bytes)
  | 0, _, _, _ => none
  | fuel + 1, depth, names, rest => do
    let (name, rest) ← string loop (skipWhitespace rest)
    if name ∈ names then none
    else
      let rest ← byte Ascii.colon (skipWhitespace rest)
      let (v, rest) ← value loop fuel depth rest
      match byte Ascii.rightBrace (skipWhitespace rest) with
      | some rest => some ([(name, v)], rest)
      | none => do
        let rest ← byte Ascii.comma (skipWhitespace rest)
        let (ms, rest) ← members loop fuel depth (name :: names) rest
        some ((name, v) :: ms, rest)

def array (loop : Nat) : Nat → Nat → Bytes → Option (List Json × Bytes)
  | 0, _, _ => none
  | fuel + 1, depth, rest => do
    let rest ← byte Ascii.leftBracket rest
    match byte Ascii.rightBracket (skipWhitespace rest) with
    | some rest => some ([], rest)
    | none => elements loop fuel depth (skipWhitespace rest)

def elements (loop : Nat) : Nat → Nat → Bytes → Option (List Json × Bytes)
  | 0, _, _ => none
  | fuel + 1, depth, rest => do
    let (v, rest) ← value loop fuel depth rest
    match byte Ascii.rightBracket (skipWhitespace rest) with
    | some rest => some ([v], rest)
    | none => do
      let rest ← byte Ascii.comma (skipWhitespace rest)
      let (vs, rest) ← elements loop fuel depth rest
      some (v :: vs, rest)

end

/-- The value of a whole text. -/
def decode (text : Bytes) : Option Json := do
  let (v, rest) ← value (text.length + 1) (3 * text.length + 1) 0 (skipWhitespace text)
  if skipWhitespace rest = [] then some v else none

end MissionWeave.Decoder
