import MissionWeave.CodeLib.ToChars
import MissionWeave.Errors

/-!
# `canonical_number`

The number texts of `canonical.cpp`: the digits come from `std::to_chars`, and
`layout` writes them the way ECMAScript does.  `layout` takes any text of the
forms that `std::to_chars` may return.
-/

namespace MissionWeave.Canonical

/-- `parse_exponent`.  The `int` of the source is assumed to hold the exponent,
as it does for the text of every `double` (`markedExponent_toChars`). -/
def parseExponent (value : Bytes) : Except Thrown Int :=
  let signed := value.head?.any fun b => b == Ascii.plus || b == Ascii.minus
  let digits := if signed then value.drop 1 else value
  if digits = [] then .error (.canonicalError "invalid floating-point exponent")
  else if digits.all Ascii.isDigit then
    .ok ((if value.head? = some Ascii.minus then -1 else 1) * digitsValue digits)
  else .error (.canonicalError "invalid floating-point exponent")

/-- `while (digits.size() > 1 && digits.back() == '0') { digits.pop_back(); }`
on the digits in reverse. -/
def popZeros : Bytes → Bytes
  | d :: e :: rest => if d = Ascii.zero then popZeros (e :: rest) else d :: e :: rest
  | ds => ds

/-- The four layouts of the digits `0.d₁d₂…` times `10 ^ n`. -/
def layoutDigits (digits : Bytes) (n : Int) : Bytes :=
  let k : Int := digits.length
  if k ≤ n ∧ n ≤ 21 then digits ++ List.replicate (n - k).toNat Ascii.zero
  else if 0 < n ∧ n ≤ 21 then digits.take n.toNat ++ Ascii.point :: digits.drop n.toNat
  else if -6 < n ∧ n ≤ 0 then
    Ascii.zero :: Ascii.point :: (List.replicate (-n).toNat Ascii.zero ++ digits)
  else
    let scientificExponent := n - 1
    digits.take 1 ++ ((if 1 < digits.length then Ascii.point :: digits.drop 1 else []) ++
      Ascii.lowerE :: (if scientificExponent < 0 then Ascii.minus else Ascii.plus) ::
        natText scientificExponent.natAbs)

def isExponentMarker (b : UInt8) : Bool := b == Ascii.lowerE || b == Ascii.upperE

/-- The exponent of a text, from its marker on. -/
def markedExponent : Bytes → Except Thrown Int
  | [] => .ok 0
  | _ :: text => parseExponent text

/-- The text of `std::to_chars` in the layout of ECMAScript. -/
def layout (representation : Bytes) : Except Thrown Bytes := do
  let negative := representation.head? = some Ascii.minus
  let representation := if negative then representation.drop 1 else representation
  let mantissa := representation.takeWhile fun b => !isExponentMarker b
  let exponent ← markedExponent (representation.dropWhile fun b => !isExponentMarker b)
  let decimalPosition := (mantissa.takeWhile (· != Ascii.point)).length + exponent
  let digits := mantissa.filter (· != Ascii.point)
  let firstNonzero := (digits.takeWhile (· == Ascii.zero)).length
  if firstNonzero = digits.length then .ok [Ascii.zero]
  else
    let n := decimalPosition - firstNonzero
    let digits := (popZeros (digits.drop firstNonzero).reverse).reverse
    .ok ((if negative then [Ascii.minus] else []) ++ layoutDigits digits n)

/-- `canonical_number`. -/
def canonicalNumber (number : Double) : Except Thrown Bytes :=
  match number with
  | .finite x => if x.value = 0 then .ok [Ascii.zero] else layout (toChars x)
  | _ => .error (.canonicalError "RFC 8785 cannot encode a non-finite number")

end MissionWeave.Canonical
