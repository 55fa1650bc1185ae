import MissionWeave.Json.Value

/-!
# The JSON grammar of RFC 8259

`JsonText bytes v` says that the byte string is a JSON text of RFC 8259 that
denotes the value `v`.  It is a relation between texts and values: it has no
position, no fuel and no order of reading.

The grammar is that of the RFC with the restrictions that the SDK documents
for strict JSON.  Unescaped characters are UTF-8 encoded Unicode scalar values
from U+0020 on, a `\u` escape of a surrogate is half of a pair, and the decoded
names of an object are distinct.  The depth of nesting is not part of the
grammar: `Json.nesting` measures it on the value.

An integer literal denotes a value that holds the integer exactly, and every
other number denotes its nearest `double`.
-/

namespace MissionWeave

open Json

/-- `ws`: spaces, tabs, line feeds and carriage returns. -/
def Whitespace (w : Bytes) : Prop :=
  ∀ b ∈ w, b = Ascii.space ∨ b = Ascii.tab ∨ b = Ascii.lineFeed ∨ b = Ascii.carriageReturn

/-! ## Numbers -/

/-- `exp = e [ minus / plus ] 1*DIGIT`. -/
structure ExponentText where
  marker : UInt8
  sign : Option UInt8
  digits : Bytes
  deriving DecidableEq

/-- `number = [ minus ] int [ frac ] [ exp ]`, by its parts. -/
structure NumberText where
  negative : Bool
  integer : Bytes
  fraction : Option Bytes
  exponent : Option ExponentText
  deriving DecidableEq

/-- `1*DIGIT`. -/
def Digits (ds : Bytes) : Prop := ds ≠ [] ∧ ∀ d ∈ ds, Ascii.isDigit d = true

/-- `int = zero / ( digit1-9 *DIGIT )`. -/
def IntegerPart (ds : Bytes) : Prop :=
  ds = [Ascii.zero] ∨ Digits ds ∧ ds.head? ≠ some Ascii.zero

structure ExponentText.Valid (e : ExponentText) : Prop where
  marker : e.marker = Ascii.lowerE ∨ e.marker = Ascii.upperE
  sign : ∀ s ∈ e.sign, s = Ascii.plus ∨ s = Ascii.minus
  digits : Digits e.digits

structure NumberText.Valid (n : NumberText) : Prop where
  integer : IntegerPart n.integer
  fraction : ∀ ds ∈ n.fraction, Digits ds
  exponent : ∀ e ∈ n.exponent, e.Valid

def ExponentText.render (e : ExponentText) : Bytes :=
  e.marker :: (e.sign.toList ++ e.digits)

def renderFraction (fraction : Option Bytes) : Bytes :=
  match fraction with
  | some ds => Ascii.point :: ds
  | none => []

def renderExponent (exponent : Option ExponentText) : Bytes :=
  match exponent with
  | some e => e.render
  | none => []

def NumberText.render (n : NumberText) : Bytes :=
  (if n.negative then [Ascii.minus] else []) ++
    (n.integer ++ (renderFraction n.fraction ++ renderExponent n.exponent))

/-- The power of ten that an exponent part stands for. -/
def ExponentText.value (e : ExponentText) : Int :=
  if e.sign = some Ascii.minus then -(digitsValue e.digits : Int) else digitsValue e.digits

/-- The exponent of the power of ten, zero where there is no exponent part. -/
def NumberText.power (n : NumberText) : Int :=
  match n.exponent with
  | some e => e.value
  | none => 0

/-- The absolute value of the number that the text denotes. -/
def NumberText.magnitude (n : NumberText) : ℚ :=
  digitsValue (n.integer ++ n.fraction.getD []) *
    10 ^ (n.power - (n.fraction.getD []).length)

/-- The number that the text denotes. -/
def NumberText.value (n : NumberText) : ℚ :=
  if n.negative then -n.magnitude else n.magnitude

/-- The value that holds an integer literal: 64 bits wide where it fits. -/
def integerJson (negative : Bool) (magnitude : Nat) : Json :=
  if negative then
    if magnitude ≤ 2 ^ 63 then .int64 (Int64.ofInt (-magnitude)) else .bigint (-magnitude)
  else
    if magnitude < 2 ^ 64 then .uint64 (UInt64.ofNat magnitude) else .bigint magnitude

/-- The value that a number text denotes. -/
def NumberText.toJson (n : NumberText) : Json :=
  if n.fraction = none ∧ n.exponent = none then integerJson n.negative (digitsValue n.integer)
  else .double (nearest n.value)

/-! ## Strings -/

/-- The value of `4HEXDIG`. -/
def hexQuad? : Bytes → Option Nat
  | [a, b, c, d] => do
    let a ← Ascii.hexValue? a
    let b ← Ascii.hexValue? b
    let c ← Ascii.hexValue? c
    let d ← Ascii.hexValue? d
    some (((a * 16 + b) * 16 + c) * 16 + d)
  | _ => none

/-- The character that an escape of one letter stands for. -/
def escapedChar? (letter : UInt8) : Option Char :=
  if letter = Ascii.quote then some '"'
  else if letter = Ascii.backslash then some '\\'
  else if letter = Ascii.slash then some '/'
  else if letter = Ascii.lowerB then some (Char.ofNat 0x08)
  else if letter = Ascii.lowerF then some (Char.ofNat 0x0C)
  else if letter = Ascii.lowerN then some (Char.ofNat 0x0A)
  else if letter = Ascii.lowerR then some (Char.ofNat 0x0D)
  else if letter = Ascii.lowerT then some (Char.ofNat 0x09)
  else none

/-- `char`, with the Unicode scalar value that it denotes.  A Lean `Char` is
never a surrogate, so an escape of one denotes nothing on its own. -/
inductive CharText : Bytes → Char → Prop
  | unescaped {c : Char} (control : 0x20 ≤ c.toNat) (quote : c ≠ '"') (backslash : c ≠ '\\') :
      CharText (String.utf8EncodeChar c) c
  | escape {letter : UInt8} {c : Char} (letter_eq : escapedChar? letter = some c) :
      CharText [Ascii.backslash, letter] c
  | unicode {quad : Bytes} {c : Char} (quad_eq : hexQuad? quad = some c.toNat) :
      CharText (Ascii.backslash :: Ascii.lowerU :: quad) c
  | surrogates {high low : Bytes} {first second : Nat} {c : Char}
      (high_eq : hexQuad? high = some first) (low_eq : hexQuad? low = some second)
      (first_high : 0xD800 ≤ first ∧ first ≤ 0xDBFF)
      (second_low : 0xDC00 ≤ second ∧ second ≤ 0xDFFF)
      (pair : c.toNat = 0x10000 + (first - 0xD800) * 0x400 + (second - 0xDC00)) :
      CharText (Ascii.backslash :: Ascii.lowerU :: (high ++
        (Ascii.backslash :: Ascii.lowerU :: low))) c

/-- `*char`. -/
inductive StringText : Bytes → List Char → Prop
  | nil : StringText [] []
  | cons {t ts : Bytes} {c : Char} {cs : List Char} (head : CharText t c)
      (tail : StringText ts cs) : StringText (t ++ ts) (c :: cs)

/-! ## Values -/

/-- Items with a comma between each two. -/
def commaSeparated : List Bytes → Bytes
  | [] => []
  | [item] => item
  | item :: next :: items => item ++ Ascii.comma :: commaSeparated (next :: items)

/-- An element of an array, with the whitespace around it. -/
structure ElementText where
  before : Bytes
  text : Bytes
  after : Bytes
  value : Json

def ElementText.render (e : ElementText) : Bytes := e.before ++ (e.text ++ e.after)

/-- A member of an object, with the whitespace around its name and its value. -/
structure MemberText where
  beforeName : Bytes
  nameText : Bytes
  name : List Char
  afterName : Bytes
  beforeValue : Bytes
  text : Bytes
  afterValue : Bytes
  value : Json

def MemberText.render (m : MemberText) : Bytes :=
  m.beforeName ++ Ascii.quote :: (m.nameText ++ Ascii.quote ::
    (m.afterName ++ Ascii.colon :: (m.beforeValue ++ (m.text ++ m.afterValue))))

def MemberText.member (m : MemberText) : Bytes × Json := (Utf8.encodeAll m.name, m.value)

/-- The parts of a member that are not its value. -/
structure MemberText.Lexical (m : MemberText) : Prop where
  beforeName : Whitespace m.beforeName
  name : StringText m.nameText m.name
  afterName : Whitespace m.afterName
  beforeValue : Whitespace m.beforeValue
  afterValue : Whitespace m.afterValue

/-- `value`, with the value that it denotes. -/
inductive ValueText : Bytes → Json → Prop
  | null : ValueText (ascii "null") .null
  | true : ValueText (ascii "true") (.bool true)
  | false : ValueText (ascii "false") (.bool false)
  | number (n : NumberText) (valid : n.Valid) : ValueText n.render n.toJson
  | string {t : Bytes} {cs : List Char} (text : StringText t cs) :
      ValueText (Ascii.quote :: (t ++ [Ascii.quote])) (.string (Utf8.encodeAll cs))
  | emptyArray {w : Bytes} (space : Whitespace w) :
      ValueText (Ascii.leftBracket :: (w ++ [Ascii.rightBracket])) (.array [])
  | array (items : List ElementText) (nonempty : items ≠ [])
      (space : ∀ e ∈ items, Whitespace e.before ∧ Whitespace e.after)
      (values : ∀ e ∈ items, ValueText e.text e.value) :
      ValueText
        (Ascii.leftBracket :: (commaSeparated (items.map (·.render)) ++ [Ascii.rightBracket]))
        (.array (items.map (·.value)))
  | emptyObject {w : Bytes} (space : Whitespace w) :
      ValueText (Ascii.leftBrace :: (w ++ [Ascii.rightBrace])) (.object [])
  | object (items : List MemberText) (nonempty : items ≠ [])
      (lexical : ∀ m ∈ items, m.Lexical) (values : ∀ m ∈ items, ValueText m.text m.value)
      (distinct : (items.map (·.member.1)).Nodup) :
      ValueText
        (Ascii.leftBrace :: (commaSeparated (items.map (·.render)) ++ [Ascii.rightBrace]))
        (ofMembers (items.map (·.member)))

/-- `JSON-text = ws value ws`. -/
def JsonText (bytes : Bytes) (v : Json) : Prop :=
  ∃ before text after, Whitespace before ∧ ValueText text v ∧ Whitespace after ∧
    bytes = before ++ (text ++ after)

end MissionWeave
