import MissionWeave.CodeLib.ModularPower
import MissionWeave.SignedDocument.Base64Url
import MissionWeave.SignedDocument.Types

/-!
# Edwards25519 points

The checks of the Signed Document codec on the encoding of a public key and of
a signature.  A `BIGNUM` is a `Nat`: the sources never store a negative one.

* `exponentiate_eq`: the square-and-multiply loop that stands for
  `BN_mod_exp` computes the power.
* `decodeStrictEd25519PublicKey_eq_ok`: what a decoded public key is.
-/

namespace MissionWeave

/-! ## Field arithmetic -/

/-- `2^255 - 19`. -/
def field : Nat :=
  57896044618658097711785492504343953926634992332820282019728792003956564819949

/-- The order of the prime subgroup. -/
def order : Nat :=
  7237005577332262213973186563042994240857116359379907606001950938285454250989

def curveD : Nat :=
  37095705934669439343138083508754565189542113879843219016388785533085940283555

def sqrtM1 : Nat :=
  19681161376707505956807079304988542015446066515923890162744021073123829784752

def fieldMinusTwo : Nat := field - 2

def squareRootExponent : Nat := (field + 3) >>> 3

def add (left right : Nat) : Nat := (left + right) % field

/-- `BN_mod_sub`: the result is never negative. -/
def subtract (left right : Nat) : Nat := (left + (field - right % field)) % field

def multiply (left right : Nat) : Nat := left * right % field

/-- `BN_num_bits`. -/
def numBits (value : Nat) : Nat := if value = 0 then 0 else value.log2 + 1

/-- Square and multiply, over the low `count` bits of the exponent. -/
def exponentiateLoop (exponent : Nat) : Nat → Nat → Nat → Nat
  | 0, _, result => result
  | count + 1, value, result =>
    exponentiateLoop (exponent / 2) count (multiply value value)
      (if exponent % 2 = 1 then multiply result value else result)

/-- `BN_mod_exp`. -/
def exponentiate (value exponent : Nat) : Nat :=
  exponentiateLoop exponent (numBits exponent) (value % field) 1

/-- `BN_lebin2bn`. -/
def littleInteger (bytes : Bytes) : Nat := bytes.foldr (fun b value => b.toNat + 256 * value) 0

/-! ## Points -/

/-- A point in extended coordinates. -/
structure Point where
  x : Nat
  y : Nat
  z : Nat
  t : Nat
  deriving DecidableEq, Repr

def pointAdd (left right : Point) : Point :=
  let a := multiply (subtract left.y left.x) (subtract right.y right.x)
  let b := multiply (add left.y left.x) (add right.y right.x)
  let c := multiply (multiply (multiply 2 curveD) left.t) right.t
  let d := multiply (multiply 2 left.z) right.z
  let e := subtract b a
  let f := subtract d c
  let g := add d c
  let h := add b a
  ⟨multiply e f, multiply g h, multiply f g, multiply e h⟩

def identity (point : Point) : Bool := point.x == 0 && point.y == point.z

/-- The loop of `scalar_multiply` over the bits of the scalar, low bit first. -/
def scalarMultiplyLoop (scalar : Nat) : Nat → Nat → Point → Point → Point
  | 0, _, _, result => result
  | count + 1, bit, point, result =>
    scalarMultiplyLoop scalar count (bit + 1) (pointAdd point point)
      (if scalar.testBit bit then pointAdd result point else result)

def scalarMultiply (point : Point) (scalar : Nat) : Point :=
  scalarMultiplyLoop scalar (numBits scalar) 0 point ⟨0, 1, 1, 0⟩

/-! ## The encoding of a point -/

/-- The `x` coordinate with the given square, before its sign is chosen. -/
def squareRoot (xSquared : Nat) : Nat :=
  let x := exponentiate xSquared squareRootExponent
  if subtract (multiply x x) xSquared ≠ 0 then multiply x sqrtM1 else x

def validatePoint (encoded : Bytes) (allowIdentity : Bool) (label : String) :
    Except Thrown Unit :=
  if encoded.length ≠ 32 then
    .error (.invalidArgument (label ++ " is not a 32-byte Ed25519 point"))
  else
    let back := encoded.getLastD 0
    let xSign := (back >>> 7).toNat
    let y := littleInteger (encoded.dropLast ++ [back &&& 0x7F])
    if field ≤ y then .error (.invalidArgument (label ++ " is not canonically encoded"))
    else
      let ySquared := multiply y y
      let numerator := subtract ySquared 1
      let denominator := add (multiply curveD ySquared) 1
      let xSquared := multiply numerator (exponentiate denominator fieldMinusTwo)
      let x := squareRoot xSquared
      if subtract (multiply x x) xSquared ≠ 0 then
        .error (.invalidArgument (label ++ " is off the Edwards25519 curve"))
      else if x = 0 ∧ xSign ≠ 0 then
        .error (.invalidArgument (label ++ " uses negative-zero encoding"))
      else
        let x := if x % 2 ≠ xSign then subtract field x else x
        let point := ⟨x, y, 1, multiply x y⟩
        if identity point ∧ allowIdentity = false then
          .error (.invalidArgument (label ++ " is the Ed25519 identity point"))
        else if ¬identity (scalarMultiply point order) then
          .error (.invalidArgument (label ++ " is not in the prime-order subgroup"))
        else .ok ()

def validateSignatureEncoding (signature : Ed25519Signature) : Except Thrown Unit := do
  validatePoint (signature.take 32) true "signature R"
  if order ≤ littleInteger (signature.drop 32) then
    .error (.invalidArgument "signature S is outside the Ed25519 scalar range")
  else .ok ()

/-- `detail::decode_strict_ed25519_public_key`. -/
def decodeStrictEd25519PublicKey (encoded : Bytes) : Except Thrown Ed25519PublicKey := do
  let decoded ← base64urlDecode encoded "resolved public key"
  if decoded.length ≠ 32 then
    .error (.invalidArgument "resolved public key does not decode to 32 bytes")
  else
    validatePoint decoded false "resolved public key"
    .ok decoded

/-! ## What the functions compute -/

theorem exponentiateLoop_eq_loop (exponent count value result : Nat) :
    exponentiateLoop exponent count value result =
      ModularPower.loop field exponent count value result := by
  induction count generalizing exponent value result with
  | zero => rfl
  | succ count ih =>
    rw [exponentiateLoop, ModularPower.loop, ih]
    rfl

theorem lt_two_pow_numBits (value : Nat) : value < 2 ^ numBits value := by
  rw [numBits]
  split_ifs with h
  · rw [h]
    exact Nat.one_pos
  · exact Nat.lt_log2_self

/-- The modular power. -/
theorem exponentiate_eq (value exponent : Nat) :
    exponentiate value exponent = value ^ exponent % field := by
  rw [exponentiate, exponentiateLoop_eq_loop,
    ModularPower.loop_eq _ _ _ _ _ (lt_two_pow_numBits exponent) (by decide), Nat.one_mul,
    ← Nat.pow_mod]

/-- A decoded public key is 32 bytes that encode a point of the prime-order
subgroup other than the identity, and the text is their encoding. -/
theorem decodeStrictEd25519PublicKey_eq_ok {encoded : Bytes} {key : Ed25519PublicKey}
    (h : decodeStrictEd25519PublicKey encoded = .ok key) :
    key.length = 32 ∧ encoded = base64urlEncode key ∧
      validatePoint key false "resolved public key" = .ok () := by
  obtain ⟨decoded, hdecoded, h⟩ := Except.bind_eq_ok.mp h
  split_ifs at h with hlength
  obtain ⟨⟨⟩, hpoint, h⟩ := Except.bind_eq_ok.mp h
  rw [Except.ok.injEq] at h
  subst h
  exact ⟨not_not.mp hlength, base64urlEncode_of_decode hdecoded, hpoint⟩

theorem validateSignatureEncoding_eq_ok {signature : Ed25519Signature} :
    validateSignatureEncoding signature = .ok () ↔
      validatePoint (signature.take 32) true "signature R" = .ok () ∧
        littleInteger (signature.drop 32) < order := by
  rw [validateSignatureEncoding, Except.bind_eq_ok]
  constructor
  · rintro ⟨⟨⟩, hpoint, h⟩
    split_ifs at h with hle
    exact ⟨hpoint, not_le.mp hle⟩
  · rintro ⟨hpoint, hlt⟩
    exact ⟨(), hpoint, if_neg (not_le.mpr hlt)⟩

end MissionWeave
