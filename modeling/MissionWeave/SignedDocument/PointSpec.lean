import MissionWeave.CodeLib.Except
import MissionWeave.CodeLib.SquareRoot
import MissionWeave.SignedDocument.Edwards25519

/-!
# The encodings that are points

An encoding is the little-endian number `y + 2^255 s` of the second coordinate
and the parity of the first.

* `decoded_onCurve_iff`: the quotient that `validatePoint` takes the root of is
  the square of the first coordinate.
* `validatePoint_eq_ok_iff`: which byte strings pass.
* `validatePoint_iff_order_nsmul`: they are the encodings of the points that
  `order` takes to zero.
-/

namespace MissionWeave

/-- The number without the top bit. -/
def encodedY (encoded : Bytes) : Nat := littleInteger encoded % 2 ^ 255

/-- The top bit. -/
def encodedSign (encoded : Bytes) : Nat := littleInteger encoded / 2 ^ 255

/-! ## The bytes of the encoding -/

theorem littleInteger_lt (bytes : Bytes) : littleInteger bytes < 256 ^ bytes.length := by
  induction bytes with
  | nil => exact Nat.one_pos
  | cons b bytes ih =>
    have hb : b.toNat < 256 := b.toNat_lt
    show b.toNat + 256 * littleInteger bytes < 256 ^ (bytes.length + 1)
    rw [pow_succ]
    omega

theorem littleInteger_append_singleton (bytes : Bytes) (b : UInt8) :
    littleInteger (bytes ++ [b]) = littleInteger bytes + 256 ^ bytes.length * b.toNat := by
  induction bytes with
  | nil =>
    show b.toNat + 256 * 0 = 0 + 256 ^ 0 * b.toNat
    omega
  | cons a bytes ih =>
    show a.toNat + 256 * littleInteger (bytes ++ [b]) =
      a.toNat + 256 * littleInteger bytes + 256 ^ (bytes.length + 1) * b.toNat
    rw [ih, pow_succ]
    ring

/-- The top bit of the last byte is the top bit of the number. -/
theorem encoded_split {encoded : Bytes} (h : encoded.length = 32) :
    littleInteger (encoded.dropLast ++ [encoded.getLastD 0 &&& 0x7F]) = encodedY encoded ∧
      (encoded.getLastD 0 >>> 7).toNat = encodedSign encoded := by
  obtain ⟨front, back, rfl⟩ : ∃ front back, encoded = front ++ [back] := by
    refine ⟨encoded.dropLast, encoded.getLast ?_, (List.dropLast_append_getLast _).symm⟩
    rintro rfl
    cases h
  rw [List.length_append, List.length_singleton] at h
  have hfront : front.length = 31 := by omega
  have hlt := littleInteger_lt front
  have hlow : (back &&& 0x7F).toNat = back.toNat % 128 := by
    rw [UInt8.toNat_and]
    exact Nat.and_two_pow_sub_one_eq_mod back.toNat 7
  have hhigh : (back >>> 7).toNat = back.toNat / 128 := by
    rw [UInt8.toNat_shiftRight]
    exact Nat.shiftRight_eq_div_pow back.toNat 7
  rw [hfront] at hlt
  rw [List.dropLast_concat, List.getLastD_concat, encodedY, encodedSign,
    littleInteger_append_singleton, littleInteger_append_singleton, hlow, hhigh, hfront]
  omega

/-! ## The first coordinate -/

theorem cast_exponentiate (value exponent : Nat) :
    ((exponentiate value exponent : Nat) : ZMod field) = (value : ZMod field) ^ exponent := by
  rw [exponentiate_eq, ZMod.natCast_mod, Nat.cast_pow]

theorem subtract_lt (left right : Nat) : subtract left right < field := Nat.mod_lt _ field_pos

theorem exponentiate_lt (value exponent : Nat) : exponentiate value exponent < field := by
  rw [exponentiate_eq]
  exact Nat.mod_lt _ field_pos

theorem subtract_eq_zero_iff (left right : Nat) :
    subtract left right = 0 ↔ (left : ZMod field) = right := by
  have hcast := Represents.natCast_eq_natCast (subtract_lt left right) field_pos
  rw [Nat.cast_zero, cast_subtract, sub_eq_zero] at hcast
  exact hcast.symm

/-- The quotient that stands for the square of the first coordinate. -/
def decodedXSquared (y : Nat) : Nat :=
  multiply (subtract (multiply y y) 1)
    (exponentiate (add (multiply curveD (multiply y y)) 1) fieldMinusTwo)

/-- The curve has no point where the quotient would divide by zero. -/
theorem denominator_ne_zero (y : ZMod field) : (curveD : ZMod field) * (y * y) + 1 ≠ 0 := by
  intro h
  have hy : y ≠ 0 := by
    rintro rfl
    rw [mul_zero, mul_zero, zero_add] at h
    exact one_ne_zero h
  apply not_isSquare_curveD
  apply Edwards.isSquare_of_sq_eq (u := (sqrtM1 : ZMod field)) ?_ hy
  linear_combination sqrtM1_mul_self - h

theorem onCurve_iff (x y : ZMod field) :
    edwards25519.OnCurve x y ↔ -x ^ 2 + y ^ 2 = 1 + curveD * x ^ 2 * y ^ 2 := by
  rw [neg_eq_neg_one_mul]
  rfl

theorem decoded_onCurve_iff (x y : Nat) :
    (x : ZMod field) * x = decodedXSquared y ↔ edwards25519.OnCurve x y := by
  have hinverse := SquareRoot.pow_sub_two (denominator_ne_zero y)
  have hcast : ((decodedXSquared y : Nat) : ZMod field) =
      ((y : ZMod field) * y - 1) * ((curveD : ZMod field) * (y * y) + 1)⁻¹ := by
    rw [← hinverse, decodedXSquared, fieldMinusTwo, cast_multiply, cast_subtract,
      cast_exponentiate, cast_add_field, cast_multiply, cast_multiply curveD, cast_multiply,
      Nat.cast_one]
  rw [hcast, eq_mul_inv_iff_mul_eq₀ (denominator_ne_zero y)]
  rw [onCurve_iff]
  constructor
  · intro h
    linear_combination -h
  · intro h
    linear_combination -h

theorem squareRootExponent_eq : squareRootExponent = (field + 3) / 8 := rfl

/-- The code's root is the candidate. -/
theorem cast_squareRoot (xSquared : Nat) :
    ((squareRoot xSquared : Nat) : ZMod field) = SquareRoot.root sqrtM1 xSquared := by
  unfold squareRoot SquareRoot.root
  rw [← squareRootExponent_eq, ← cast_exponentiate, ← cast_multiply]
  by_cases h : subtract (multiply (exponentiate xSquared squareRootExponent)
      (exponentiate xSquared squareRootExponent)) xSquared = 0
  · rw [if_neg (not_not.mpr h), if_pos ((subtract_eq_zero_iff _ _).mp h)]
  · rw [if_pos h, if_neg (mt (subtract_eq_zero_iff _ _).mpr h), cast_multiply]

theorem squareRoot_lt (xSquared : Nat) : squareRoot xSquared < field := by
  unfold squareRoot
  dsimp only
  split_ifs
  · exact multiply_lt _ _
  · exact exponentiate_lt _ _

/-- The root passes the check on its square just when there is one. -/
theorem squareRoot_check_iff (xSquared : Nat) :
    subtract (multiply (squareRoot xSquared) (squareRoot xSquared)) xSquared = 0 ↔
      IsSquare (xSquared : ZMod field) := by
  rw [subtract_eq_zero_iff, cast_multiply, cast_squareRoot]
  exact SquareRoot.root_mul_self_iff (by decide) sqrtM1_mul_self _

/-- The root with the parity of the sign bit. -/
def signedRoot (x sign : Nat) : Nat := if x % 2 ≠ sign then subtract field x else x

theorem signedRoot_spec {x sign : Nat} (hx : x < field) (hsign : sign < 2)
    (hzero : ¬(x = 0 ∧ sign ≠ 0)) :
    signedRoot x sign < field ∧ signedRoot x sign % 2 = sign ∧
      (signedRoot x sign : ZMod field) * signedRoot x sign = (x : ZMod field) * x := by
  unfold signedRoot
  by_cases h : x % 2 = sign
  · rw [if_neg (not_not.mpr h)]
    exact ⟨hx, h, rfl⟩
  · have hpos : 0 < x := by
      rcases Nat.eq_zero_or_pos x with rfl | hpos
      · omega
      · exact hpos
    have hodd : field % 2 = 1 := by decide
    have hvalue : subtract field x = field - x := by
      rw [subtract, Nat.mod_eq_of_lt hx, Nat.add_mod_left, Nat.mod_eq_of_lt (by omega)]
    rw [if_pos h, cast_subtract, ZMod.natCast_self, hvalue]
    refine ⟨by omega, by omega, ?_⟩
    ring

/-! ## Acceptance -/

/-- The last two checks on a decoded point. -/
def Admits (allowIdentity : Bool) (x y : Nat) : Prop :=
  (¬(x = 0 ∧ y = 1) ∨ allowIdentity = true) ∧
    identity (scalarMultiply ⟨x, y, 1, multiply x y⟩ order) = true

theorem admits_iff (allowIdentity : Bool) (x y : Nat) :
    Admits allowIdentity x y ↔
      ¬(identity ⟨x, y, 1, multiply x y⟩ = true ∧ allowIdentity = false) ∧
        ¬¬identity (scalarMultiply ⟨x, y, 1, multiply x y⟩ order) = true := by
  have hidentity : identity ⟨x, y, 1, multiply x y⟩ = true ↔ x = 0 ∧ y = 1 := by
    rw [identity, Bool.and_eq_true, beq_iff_eq, beq_iff_eq]
  unfold Admits
  rw [not_not, hidentity, ← imp_iff_not_or, not_and, Bool.not_eq_false]

/-- The guards of `validatePoint`, one after the other. -/
theorem validatePoint_guards (encoded : Bytes) (allowIdentity : Bool) (label : String)
    (hlength : encoded.length = 32) :
    validatePoint encoded allowIdentity label = .ok () ↔
      encodedY encoded < field ∧
      IsSquare (decodedXSquared (encodedY encoded) : ZMod field) ∧
      ¬(squareRoot (decodedXSquared (encodedY encoded)) = 0 ∧ encodedSign encoded ≠ 0) ∧
      Admits allowIdentity
        (signedRoot (squareRoot (decodedXSquared (encodedY encoded))) (encodedSign encoded))
        (encodedY encoded) := by
  obtain ⟨hy, hsign⟩ := encoded_split hlength
  rw [validatePoint, if_neg (not_not.mpr hlength)]
  dsimp only
  rw [hy, hsign, Except.ite_error_eq_ok, Except.ite_error_eq_ok, Except.ite_error_eq_ok,
    Except.ite_error_eq_ok, Except.ite_error_eq_ok, not_le, ne_eq, not_not]
  show _ ∧ subtract (multiply (squareRoot (decodedXSquared _)) (squareRoot (decodedXSquared _)))
    (decodedXSquared _) = 0 ∧ _ ↔ _
  rw [squareRoot_check_iff, admits_iff, and_iff_left rfl]
  rfl

/-- The root that is decoded is the only first coordinate with the sign. -/
theorem signedRoot_eq_iff {x y sign : Nat} (hsign : sign < 2)
    (hsquare : IsSquare (decodedXSquared y : ZMod field))
    (hzero : ¬(squareRoot (decodedXSquared y) = 0 ∧ sign ≠ 0)) :
    signedRoot (squareRoot (decodedXSquared y)) sign = x ↔
      x < field ∧ edwards25519.OnCurve x y ∧ x % 2 = sign := by
  obtain ⟨hlt, hparity, hroot⟩ := signedRoot_spec (squareRoot_lt _) hsign hzero
  rw [cast_squareRoot, (SquareRoot.root_mul_self_iff (by decide) sqrtM1_mul_self _).mpr hsquare]
    at hroot
  constructor
  · rintro rfl
    exact ⟨hlt, (decoded_onCurve_iff _ _).mp hroot, hparity⟩
  · rintro ⟨hx, honCurve, hxsign⟩
    apply SquareRoot.eq_of_mul_self_eq (by decide) hlt hx (hparity.trans hxsign.symm)
    rw [hroot, (decoded_onCurve_iff _ _).mpr honCurve]

theorem encodedSign_lt {encoded : Bytes} (hlength : encoded.length = 32) :
    encodedSign encoded < 2 := by
  have hlt := littleInteger_lt encoded
  rw [hlength] at hlt
  unfold encodedSign
  omega

/-- Some first coordinate passes the last checks when the decoded one does. -/
theorem validatePoint_iff_admits (encoded : Bytes) (allowIdentity : Bool) (label : String) :
    validatePoint encoded allowIdentity label = .ok () ↔
      encoded.length = 32 ∧ encodedY encoded < field ∧
        ∃ x < field, edwards25519.OnCurve x (encodedY encoded) ∧ x % 2 = encodedSign encoded ∧
          Admits allowIdentity x (encodedY encoded) := by
  by_cases hlength : encoded.length = 32
  · have hsign := encodedSign_lt hlength
    rw [validatePoint_guards encoded allowIdentity label hlength, and_iff_right hlength]
    constructor
    · rintro ⟨hy, hsquare, hzero, hadmits⟩
      obtain ⟨hlt, honCurve, hparity⟩ := (signedRoot_eq_iff hsign hsquare hzero).mp rfl
      exact ⟨hy, _, hlt, honCurve, hparity, hadmits⟩
    · rintro ⟨hy, x, hx, honCurve, hparity, hadmits⟩
      have hroot := (decoded_onCurve_iff _ _).mpr honCurve
      have hsquare : IsSquare (decodedXSquared (encodedY encoded) : ZMod field) :=
        ⟨x, hroot.symm⟩
      have hzero : ¬(squareRoot (decodedXSquared (encodedY encoded)) = 0 ∧
          encodedSign encoded ≠ 0) := by
        -- A zero root is the root of zero, and the sign of zero is even.
        rintro ⟨hzero, hne⟩
        have hcheck := (squareRoot_check_iff _).mpr hsquare
        rw [hzero, subtract_eq_zero_iff, cast_multiply, Nat.cast_zero, mul_zero, ← hroot,
          eq_comm, mul_self_eq_zero, ← Nat.cast_zero,
          Represents.natCast_eq_natCast hx field_pos] at hcheck
        rw [hcheck] at hparity
        exact hne hparity.symm
      refine ⟨hy, hsquare, hzero, ?_⟩
      rw [(signedRoot_eq_iff hsign hsquare hzero).mpr ⟨hx, honCurve, hparity⟩]
      exact hadmits
  · rw [validatePoint, if_pos hlength]
    constructor
    · intro h
      cases h
    · rintro ⟨h, -⟩
      exact absurd h hlength

/-- The byte strings that pass: the canonical encodings of the points of the
prime-order subgroup, the identity only where it is allowed. -/
theorem validatePoint_eq_ok_iff (encoded : Bytes) (allowIdentity : Bool) (label : String) :
    validatePoint encoded allowIdentity label = .ok () ↔
      encoded.length = 32 ∧ encodedY encoded < field ∧
        ∃ x < field,
          -(x : ZMod field) ^ 2 + (encodedY encoded : ZMod field) ^ 2 =
            1 + curveD * (x : ZMod field) ^ 2 * (encodedY encoded : ZMod field) ^ 2 ∧
          x % 2 = encodedSign encoded ∧
          (¬(x = 0 ∧ encodedY encoded = 1) ∨ allowIdentity = true) ∧
          identity (scalarMultiply ⟨x, encodedY encoded, 1, multiply x (encodedY encoded)⟩
            order) = true := by
  rw [validatePoint_iff_admits]
  simp only [onCurve_iff, Admits]

example : (validatePoint (0x58 :: List.replicate 31 0x66) false "base point").isOk = true := by
  decide +kernel

/-! ## The subgroup -/

/-- The number of an encoding is made of the second coordinate and the parity of
the first. -/
structure Encodes (encoded : Bytes) (P : Edwards.Point edwards25519) : Prop where
  length_eq : encoded.length = 32
  littleInteger_eq : littleInteger encoded = P.y.val + 2 ^ 255 * (P.x.val % 2)

/-- The coordinates that the check of the order starts from. -/
theorem represents_decoded {x y : Nat} (hx : x < field) (hy : y < field)
    {P : Edwards.Point edwards25519} (hPx : P.x = x) (hPy : P.y = y) :
    Represents ⟨x, y, 1, multiply x y⟩ P where
  reduced := by
    have hone : 1 < field := by decide
    exact ⟨hx, hy, hone, multiply_lt x y⟩
  extended := by
    unfold Point.extended
    rw [cast_multiply, Nat.cast_one]
    refine ⟨one_ne_zero, ?_, ?_, ?_⟩
    · exact (one_mul _).symm
    · rw [hPx]
      exact div_one _
    · rw [hPy]
      exact div_one _

theorem admits_iff_order_nsmul {allowIdentity : Bool} {x y : Nat} (hx : x < field) (hy : y < field)
    {P : Edwards.Point edwards25519} (hPx : P.x = x) (hPy : P.y = y) :
    Admits allowIdentity x y ↔ (P ≠ 0 ∨ allowIdentity = true) ∧ order • P = 0 := by
  have hrepresents := represents_decoded hx hy hPx hPy
  have hzero : P = 0 ↔ x = 0 ∧ y = 1 := by
    rw [← hrepresents.identity, identity, Bool.and_eq_true, beq_iff_eq, beq_iff_eq]
  unfold Admits
  rw [(hrepresents.scalarMultiply order).identity, ne_eq, hzero]

/-- The points that pass are those that `order` takes to zero. -/
theorem validatePoint_iff_order_nsmul (encoded : Bytes) (allowIdentity : Bool) (label : String) :
    validatePoint encoded allowIdentity label = .ok () ↔
      ∃ P : Edwards.Point edwards25519,
        Encodes encoded P ∧ (P ≠ 0 ∨ allowIdentity = true) ∧ order • P = 0 := by
  have hfield : field < 2 ^ 255 := by decide
  rw [validatePoint_iff_admits]
  constructor
  · rintro ⟨hlength, hy, x, hx, honCurve, hparity, hadmits⟩
    refine ⟨⟨x, encodedY encoded, honCurve⟩, ⟨hlength, ?_⟩,
      (admits_iff_order_nsmul hx hy rfl rfl).mp hadmits⟩
    rw [ZMod.val_natCast_of_lt hx, ZMod.val_natCast_of_lt hy, hparity]
    exact (Nat.mod_add_div _ _).symm
  · rintro ⟨P, ⟨hlength, hvalue⟩, hP⟩
    have hx : P.x.val < field := ZMod.val_lt P.x
    have hy : P.y.val < field := ZMod.val_lt P.y
    have hencodedY : encodedY encoded = P.y.val := by
      unfold encodedY
      omega
    have hencodedSign : encodedSign encoded = P.x.val % 2 := by
      unfold encodedSign
      omega
    have hPx : P.x = (P.x.val : ZMod field) := (ZMod.natCast_zmod_val P.x).symm
    have hPy : P.y = (P.y.val : ZMod field) := (ZMod.natCast_zmod_val P.y).symm
    rw [hencodedY, hencodedSign]
    refine ⟨hlength, hy, P.x.val, hx, ?_, rfl, (admits_iff_order_nsmul hx hy hPx hPy).mpr hP⟩
    rw [← hPx, ← hPy]
    exact P.onCurve

end MissionWeave
