import MissionWeave.Canonical.Number
import MissionWeave.Json.Grammar
import Mathlib.Data.List.Sort

/-!
# `canonical_json`

The serializer of `canonical.cpp`.  A C++ loop over the positions of a string
is a recursion over the list of its bytes here: `skip` counts the bytes of the
sequence at hand that the loop has passed already.

The members of an object are sorted by the UTF-16 code units of their names.
All names are converted before the first member is written, so a name that is
not UTF-8 is reported before anything that is wrong with a value.
-/

namespace MissionWeave.Canonical

/-- `CodePoint`. -/
structure CodePoint where
  value : Nat
  width : Nat
  deriving DecidableEq

/-- `unicode_error`. -/
def unicodeError {α : Type} (position : Nat) : Except Thrown α :=
  .error (.canonicalError ("invalid UTF-8 at byte " ++ toString position))

/-- The loop of `decode_code_point` over the continuation bytes. -/
def foldContinuations (position : Nat) : Nat → Nat → Bytes → Except Thrown Nat
  | _, codePoint, [] => .ok codePoint
  | index, codePoint, continuation :: rest =>
    if Utf8.isContinuation continuation then
      foldContinuations position (index + 1) (Utf8.pushContinuation codePoint continuation) rest
    else unicodeError (position + index)

/-- `decode_code_point` at a position with the given rest of the text. -/
def decodeCodePoint (position : Nat) : Bytes → Except Thrown CodePoint
  | [] => unicodeError position
  | lead :: rest =>
    if lead < 0x80 then .ok ⟨lead.toNat, 1⟩
    else
      match Utf8.leadWidth lead with
      | none => unicodeError position
      | some (width, bits) =>
        if rest.length + 1 < width then unicodeError position
        else do
          let codePoint ← foldContinuations position 1 bits (rest.take (width - 1))
          if Utf8.nonCanonical width codePoint then unicodeError position
          else .ok ⟨codePoint, width⟩

/-- The UTF-16 code units of a code point. -/
def codePointUnits (codePoint : Nat) : List UInt16 :=
  if codePoint ≤ 0xFFFF then [UInt16.ofNat codePoint]
  else
    let supplementary := codePoint - 0x10000
    [UInt16.ofNat (0xD800 + (supplementary >>> 10)),
      UInt16.ofNat (0xDC00 + (supplementary &&& 0x3FF))]

def utf16UnitsFrom : Nat → Nat → Bytes → Except Thrown (List UInt16)
  | _, _, [] => .ok []
  | skip + 1, position, _ :: rest => utf16UnitsFrom skip (position + 1) rest
  | 0, position, lead :: rest => do
    let decoded ← decodeCodePoint position (lead :: rest)
    let units ← utf16UnitsFrom (decoded.width - 1) (position + 1) rest
    .ok (codePointUnits decoded.value ++ units)

/-- `utf16_units`. -/
def utf16Units (text : Bytes) : Except Thrown (List UInt16) := utf16UnitsFrom 0 0 text

/-- `hexadecimal[value]`. -/
def hexDigit (value : UInt8) : UInt8 := if value < 10 then 0x30 + value else 0x57 + value

/-- What the `switch` of `append_escaped_string` writes for an ASCII byte. -/
def escapedByte (value : UInt8) : Bytes :=
  if value = Ascii.quote then [Ascii.backslash, Ascii.quote]
  else if value = Ascii.backslash then [Ascii.backslash, Ascii.backslash]
  else if value = Ascii.backspace then [Ascii.backslash, Ascii.lowerB]
  else if value = Ascii.tab then [Ascii.backslash, Ascii.lowerT]
  else if value = Ascii.lineFeed then [Ascii.backslash, Ascii.lowerN]
  else if value = Ascii.formFeed then [Ascii.backslash, Ascii.lowerF]
  else if value = Ascii.carriageReturn then [Ascii.backslash, Ascii.lowerR]
  else if value < 0x20 then
    [Ascii.backslash, Ascii.lowerU, Ascii.zero, Ascii.zero, hexDigit (value >>> 4),
      hexDigit (value &&& 0x0F)]
  else [value]

def escapedFrom : Nat → Nat → Bytes → Except Thrown Bytes
  | _, _, [] => .ok []
  | skip + 1, position, _ :: rest => escapedFrom skip (position + 1) rest
  | 0, position, value :: rest =>
    if 0x80 ≤ value then do
      let decoded ← decodeCodePoint position (value :: rest)
      let output ← escapedFrom (decoded.width - 1) (position + 1) rest
      .ok ((value :: rest).take decoded.width ++ output)
    else do
      let output ← escapedFrom 0 (position + 1) rest
      .ok (escapedByte value ++ output)

/-- `append_escaped_string`. -/
def escapedString (text : Bytes) : Except Thrown Bytes := do
  let output ← escapedFrom 0 0 text
  .ok (Ascii.quote :: (output ++ [Ascii.quote]))

/-- `ObjectMember`, with the text of the value or what its serialization
throws. -/
structure ObjectMember where
  key : Bytes
  order : List UInt16
  text : Except Thrown Bytes

/-- The comparison that sorts the members. -/
def ObjectMember.less (left right : ObjectMember) : Bool :=
  if left.order = right.order then compare left.key right.key == .lt
  else compare left.order right.order == .lt

/-- `std::ranges::sort`. -/
def sortMembers (members : List ObjectMember) : List ObjectMember :=
  members.insertionSort fun left right => !right.less left

/-- The `ObjectMember` of each member, in the order of the object. -/
def objectMembers : List (Bytes × Except Thrown Bytes) → Except Thrown (List ObjectMember)
  | [] => .ok []
  | (key, text) :: rest => do
    let order ← utf16Units key
    let members ← objectMembers rest
    .ok (⟨key, order, text⟩ :: members)

/-- Items with a comma between each two, or what the first failing one throws. -/
def separated : List (Except Thrown Bytes) → Except Thrown Bytes
  | [] => .ok []
  | [item] => item
  | item :: next :: items => do
    let first ← item
    let output ← separated (next :: items)
    .ok (first ++ Ascii.comma :: output)

def ObjectMember.output (member : ObjectMember) : Except Thrown Bytes := do
  let key ← escapedString member.key
  let text ← member.text
  .ok (key ++ Ascii.colon :: text)

mutual

/-- `serialize`. -/
def serialize : Json → Except Thrown Bytes
  | .null => .ok (ascii "null")
  | .bool b => .ok (if b then ascii "true" else ascii "false")
  | .int64 n => canonicalNumber (nearest n.toInt)
  | .uint64 n => canonicalNumber (nearest n.toNat)
  | .bigint n => canonicalNumber (nearest n)
  | .double x => canonicalNumber x
  | .string text => escapedString text
  | .array xs => do
    let output ← separated (serializeElements xs)
    .ok (Ascii.leftBracket :: (output ++ [Ascii.rightBracket]))
  | .object ms => do
    let members ← objectMembers (serializeMembers ms)
    let output ← separated ((sortMembers members).map ObjectMember.output)
    .ok (Ascii.leftBrace :: (output ++ [Ascii.rightBrace]))

def serializeElements : List Json → List (Except Thrown Bytes)
  | [] => []
  | x :: xs => serialize x :: serializeElements xs

def serializeMembers : List (Bytes × Json) → List (Bytes × Except Thrown Bytes)
  | [] => []
  | (key, value) :: ms => (key, serialize value) :: serializeMembers ms

end

/-- `canonical_json`. -/
def canonicalJson (value : Json) : Except Thrown Bytes := serialize value

end MissionWeave.Canonical
