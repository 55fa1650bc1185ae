import MissionWeave.SignedDocument.PointSpec
import MissionWeave.SignedDocument.Verify
import Mathlib.GroupTheory.OrderOfElement

/-!
# Strict public keys and signatures

The order of the subgroup is a prime, so a point that passes without being the
identity has exactly this order.  Together with the strict encodings this leaves
one text for each key and one for each signature.

* `prime_order`: the order is prime, by a chain of witnesses.
* `publicKey_text_bijective`: the texts of public keys are those of the points
  of prime order.
* `signature_text_bijective`: the texts of signatures are those of the pairs of
  a point of the subgroup and a scalar.
-/

namespace MissionWeave

open ModularPower

/-! ## The order -/

/-- The witnesses of the chain pass their tests. -/
theorem passes_order_chain :
    Passes 1257559732178653 2 [2, 2, 3, 7, 23, 531581, 1224481] ∧
    Passes 4434155615661930479 17 [2, 41, 43, 1257559732178653] ∧
    Passes 172054593956031949258510691 2 [2, 5, 1361, 2851, 4434155615661930479] ∧
    Passes 292386187 2 [2, 3, 3, 3, 3, 307, 5879] ∧
    Passes 213441916511 13 [2, 5, 73, 292386187] ∧
    Passes 19757330305831588566944191468367130476339 2
      [2, 269, 213441916511, 172054593956031949258510691] ∧
    Passes 276602624281642239937218680557139826668747 2
      [2, 7, 19757330305831588566944191468367130476339] ∧
    Passes 3044861653679985063343 5 [2, 3, 11, 30703, 82163, 132667, 137849] ∧
    Passes 198211423230930754013084525763697 5
      [2, 2, 2, 2, 3, 23, 58964693, 3044861653679985063343] ∧
    Passes order 2 [2, 2, 3, 11, 198211423230930754013084525763697,
      276602624281642239937218680557139826668747] := by
  decide +kernel

theorem prime_1257559732178653 : Nat.Prime 1257559732178653 :=
  prime_of_witness 2 [2, 2, 3, 7, 23, 531581, 1224481] (by norm_num) passes_order_chain.1

theorem prime_4434155615661930479 : Nat.Prime 4434155615661930479 :=
  prime_of_witness 17 [2, 41, 43, 1257559732178653]
    (by
      simp only [List.forall_cons, prime_1257559732178653]
      norm_num)
    passes_order_chain.2.1

theorem prime_172054593956031949258510691 : Nat.Prime 172054593956031949258510691 :=
  prime_of_witness 2 [2, 5, 1361, 2851, 4434155615661930479]
    (by
      simp only [List.forall_cons, prime_4434155615661930479]
      norm_num)
    passes_order_chain.2.2.1

theorem prime_292386187 : Nat.Prime 292386187 :=
  prime_of_witness 2 [2, 3, 3, 3, 3, 307, 5879] (by norm_num) passes_order_chain.2.2.2.1

theorem prime_213441916511 : Nat.Prime 213441916511 :=
  prime_of_witness 13 [2, 5, 73, 292386187]
    (by
      simp only [List.forall_cons, prime_292386187]
      norm_num)
    passes_order_chain.2.2.2.2.1

theorem prime_19757330305831588566944191468367130476339 :
    Nat.Prime 19757330305831588566944191468367130476339 :=
  prime_of_witness 2 [2, 269, 213441916511, 172054593956031949258510691]
    (by
      simp only [List.forall_cons, prime_213441916511, prime_172054593956031949258510691]
      norm_num)
    passes_order_chain.2.2.2.2.2.1

theorem prime_276602624281642239937218680557139826668747 :
    Nat.Prime 276602624281642239937218680557139826668747 :=
  prime_of_witness 2 [2, 7, 19757330305831588566944191468367130476339]
    (by
      simp only [List.forall_cons, prime_19757330305831588566944191468367130476339]
      norm_num)
    passes_order_chain.2.2.2.2.2.2.1

theorem prime_3044861653679985063343 : Nat.Prime 3044861653679985063343 :=
  prime_of_witness 5 [2, 3, 11, 30703, 82163, 132667, 137849] (by norm_num)
    passes_order_chain.2.2.2.2.2.2.2.1

theorem prime_198211423230930754013084525763697 :
    Nat.Prime 198211423230930754013084525763697 :=
  prime_of_witness 5 [2, 2, 2, 2, 3, 23, 58964693, 3044861653679985063343]
    (by
      simp only [List.forall_cons, prime_3044861653679985063343]
      norm_num)
    passes_order_chain.2.2.2.2.2.2.2.2.1

theorem prime_order : order.Prime :=
  prime_of_witness 2 [2, 2, 3, 11, 198211423230930754013084525763697,
    276602624281642239937218680557139826668747]
    (by
      simp only [List.forall_cons, prime_198211423230930754013084525763697,
        prime_276602624281642239937218680557139826668747]
      norm_num)
    passes_order_chain.2.2.2.2.2.2.2.2.2

instance : Fact order.Prime := ⟨prime_order⟩

/-! ## Little-endian numbers -/

/-- Strings of the same length are told apart by their numbers. -/
theorem eq_of_littleInteger {bytes bytes' : Bytes} (hlength : bytes.length = bytes'.length)
    (h : littleInteger bytes = littleInteger bytes') : bytes = bytes' := by
  induction bytes generalizing bytes' with
  | nil => exact (List.eq_nil_of_length_eq_zero hlength.symm).symm
  | cons b bytes ih =>
    cases bytes' with
    | nil => cases hlength
    | cons b' bytes' =>
      have hb : b.toNat < 256 := b.toNat_lt
      have hb' : b'.toNat < 256 := b'.toNat_lt
      have hnumbers : b.toNat + 256 * littleInteger bytes =
          b'.toNat + 256 * littleInteger bytes' := h
      have hhead : b = b' := UInt8.toNat_inj.mp (by omega)
      rw [hhead, ih (Nat.succ.inj hlength) (by omega)]

theorem exists_littleInteger {count value : Nat} (h : value < 256 ^ count) :
    ∃ bytes : Bytes, bytes.length = count ∧ littleInteger bytes = value := by
  induction count generalizing value with
  | zero =>
    rw [pow_zero, Nat.lt_one_iff] at h
    exact ⟨[], rfl, h.symm⟩
  | succ count ih =>
    obtain ⟨bytes, hlength, hvalue⟩ := @ih (value / 256) (by rw [pow_succ] at h; omega)
    refine ⟨UInt8.ofNat (value % 256) :: bytes, by rw [List.length_cons, hlength], ?_⟩
    have hbyte : (UInt8.ofNat (value % 256)).toNat = value % 256 :=
      UInt8.toNat_ofNat_of_lt' (Nat.mod_lt _ (by decide))
    show (UInt8.ofNat (value % 256)).toNat + 256 * littleInteger bytes = value
    rw [hbyte, hvalue]
    exact Nat.mod_add_div value 256

/-! ## One encoding for each point -/

variable {encoded encoded' : Bytes} {P Q : Edwards.Point edwards25519}

theorem Encodes.unique (h : Encodes encoded P) (h' : Encodes encoded' P) : encoded = encoded' :=
  eq_of_littleInteger (h.length_eq.trans h'.length_eq.symm)
    (h.littleInteger_eq.trans h'.littleInteger_eq.symm)

theorem exists_encodes (P : Edwards.Point edwards25519) : ∃ encoded, Encodes encoded P := by
  have hfield : field < 2 ^ 255 := by decide
  have hy : P.y.val < field := ZMod.val_lt P.y
  have hvalue : P.y.val + 2 ^ 255 * (P.x.val % 2) < 256 ^ 32 := by omega
  obtain ⟨encoded, hlength, hnumber⟩ := exists_littleInteger hvalue
  exact ⟨encoded, hlength, hnumber⟩

/-- The second coordinate and the parity of the first are enough. -/
theorem Encodes.point_eq (h : Encodes encoded P) (h' : Encodes encoded Q) : P = Q := by
  have hfield : field < 2 ^ 255 := by decide
  have hPy : P.y.val < field := ZMod.val_lt P.y
  have hQy : Q.y.val < field := ZMod.val_lt Q.y
  have hnumber := h.littleInteger_eq.symm.trans h'.littleInteger_eq
  have hval : P.y.val = Q.y.val := by omega
  have hparity : P.x.val % 2 = Q.x.val % 2 := by omega
  have hy : P.y = Q.y := ZMod.val_injective field hval
  have hsquare {R : Edwards.Point edwards25519} :
      R.x * R.x = decodedXSquared R.y.val := by
    have honCurve := (decoded_onCurve_iff R.x.val R.y.val).mpr (by
      rw [ZMod.natCast_zmod_val, ZMod.natCast_zmod_val]
      exact R.onCurve)
    rwa [ZMod.natCast_zmod_val] at honCurve
  have hx : P.x.val = Q.x.val := by
    apply SquareRoot.eq_of_mul_self_eq (by decide) (ZMod.val_lt P.x) (ZMod.val_lt Q.x) hparity
    rw [ZMod.natCast_zmod_val, ZMod.natCast_zmod_val, hsquare, hsquare, hval]
  exact Edwards.Point.ext (ZMod.val_injective field hx) hy

/-! ## Public keys -/

/-- A point that is not zero has the order of the subgroup. -/
theorem ne_zero_and_order_nsmul_iff : (P ≠ 0 ∧ order • P = 0) ↔ addOrderOf P = order := by
  constructor
  · rintro ⟨hne, hzero⟩
    exact addOrderOf_eq_prime hzero hne
  · intro h
    constructor
    · rintro rfl
      rw [addOrderOf_zero] at h
      exact absurd h (by decide)
    · rw [← h]
      exact addOrderOf_nsmul_eq_zero P

theorem validatePoint_false_iff (label : String) :
    validatePoint encoded false label = .ok () ↔
      ∃ P : Edwards.Point edwards25519, Encodes encoded P ∧ addOrderOf P = order := by
  rw [validatePoint_iff_order_nsmul]
  apply exists_congr
  intro P
  rw [← ne_zero_and_order_nsmul_iff]
  simp

theorem decodeStrictEd25519PublicKey_iff {text : Bytes} {key : Ed25519PublicKey} :
    decodeStrictEd25519PublicKey text = .ok key ↔
      text = base64urlEncode key ∧ ∃ P, Encodes key P ∧ addOrderOf P = order := by
  constructor
  · intro h
    obtain ⟨_, htext, hpoint⟩ := decodeStrictEd25519PublicKey_eq_ok h
    exact ⟨htext, (validatePoint_false_iff _).mp hpoint⟩
  · rintro ⟨rfl, P, hencodes, horder⟩
    have hne : key ≠ [] := by
      rintro rfl
      cases hencodes.length_eq
    rw [decodeStrictEd25519PublicKey, base64urlDecode_encode hne, Except.ok_bind,
      if_neg (not_not.mpr hencodes.length_eq),
      (validatePoint_false_iff _).mpr ⟨P, hencodes, horder⟩, Except.ok_bind]

/-- The texts that are read as public keys are in one-to-one correspondence with
the points of prime order: a key stands for one such point, and each of them has
one text.  No multiple of a key is zero but for the multiples of the order. -/
theorem publicKey_text_bijective :
    (∀ text key, decodeStrictEd25519PublicKey text = .ok key →
      ∃! P, Encodes key P ∧ addOrderOf P = order ∧ ∀ n : Nat, n • P = 0 ↔ order ∣ n) ∧
    ∀ P : Edwards.Point edwards25519, addOrderOf P = order →
      ∃! text, ∃ key, decodeStrictEd25519PublicKey text = .ok key ∧ Encodes key P := by
  constructor
  · intro text key h
    obtain ⟨_, P, hencodes, horder⟩ := decodeStrictEd25519PublicKey_iff.mp h
    refine ⟨P, ⟨hencodes, horder, fun n => ?_⟩, fun Q hQ => hQ.1.point_eq hencodes⟩
    rw [← horder, addOrderOf_dvd_iff_nsmul_eq_zero]
  · intro P horder
    obtain ⟨key, hencodes⟩ := exists_encodes P
    refine ⟨base64urlEncode key,
      ⟨key, decodeStrictEd25519PublicKey_iff.mpr ⟨rfl, P, hencodes, horder⟩, hencodes⟩, ?_⟩
    rintro text ⟨key', h, hencodes'⟩
    obtain ⟨htext, _⟩ := decodeStrictEd25519PublicKey_iff.mp h
    rw [htext, hencodes'.unique hencodes]

/-! ## Signatures -/

/-- What the stage of the signature envelope makes of `signature.value`. -/
structure ReadsSignatureText (text : Bytes) (signature : Ed25519Signature) : Prop where
  decoded : base64urlDecode text "signature.value" = .ok signature
  length : signature.length = 64
  encoding : validateSignatureEncoding signature = .ok ()

/-- The signature is the encoding of a point with a scalar behind it. -/
structure EncodesPair (signature : Ed25519Signature) (R : Edwards.Point edwards25519)
    (S : ZMod order) : Prop where
  point : Encodes (signature.take 32) R
  length : signature.length = 64
  scalar : littleInteger (signature.drop 32) = S.val

theorem exists_encodesPair_of_validate {signature : Ed25519Signature}
    (hlength : signature.length = 64) (h : validateSignatureEncoding signature = .ok ()) :
    ∃ R S, EncodesPair signature R S ∧ order • R = 0 := by
  obtain ⟨hpoint, hscalar⟩ := validateSignatureEncoding_eq_ok.mp h
  obtain ⟨R, hencodes, _, hzero⟩ := (validatePoint_iff_order_nsmul _ _ _).mp hpoint
  refine ⟨R, littleInteger (signature.drop 32), ⟨hencodes, hlength, ?_⟩, hzero⟩
  rw [ZMod.val_natCast_of_lt hscalar]

theorem readsSignatureText_iff {text : Bytes} {signature : Ed25519Signature} :
    ReadsSignatureText text signature ↔
      text = base64urlEncode signature ∧ ∃ R S, EncodesPair signature R S ∧ order • R = 0 := by
  constructor
  · intro h
    exact ⟨base64urlEncode_of_decode h.decoded, exists_encodesPair_of_validate h.length h.encoding⟩
  · rintro ⟨rfl, R, S, hpair, hzero⟩
    have hne : signature ≠ [] := by
      rintro rfl
      cases hpair.length
    refine ⟨base64urlDecode_encode hne _, hpair.length, validateSignatureEncoding_eq_ok.mpr ?_⟩
    refine ⟨(validatePoint_iff_order_nsmul _ _ _).mpr ⟨R, hpair.point, .inr rfl, hzero⟩, ?_⟩
    rw [hpair.scalar]
    exact ZMod.val_lt S

theorem EncodesPair.unique {signature signature' : Ed25519Signature}
    {R : Edwards.Point edwards25519} {S : ZMod order} (h : EncodesPair signature R S)
    (h' : EncodesPair signature' R S) : signature = signature' := by
  have hscalar : signature.drop 32 = signature'.drop 32 :=
    eq_of_littleInteger (by rw [List.length_drop, List.length_drop, h.length, h'.length])
      (h.scalar.trans h'.scalar.symm)
  rw [← List.take_append_drop 32 signature, h.point.unique h'.point, hscalar,
    List.take_append_drop]

theorem EncodesPair.pair_eq {signature : Ed25519Signature} {R R' : Edwards.Point edwards25519}
    {S S' : ZMod order} (h : EncodesPair signature R S) (h' : EncodesPair signature R' S') :
    R = R' ∧ S = S' :=
  ⟨h.point.point_eq h'.point, ZMod.val_injective order (h.scalar.symm.trans h'.scalar)⟩

theorem exists_encodesPair (R : Edwards.Point edwards25519) (S : ZMod order) :
    ∃ signature, EncodesPair signature R S := by
  have horder : order < 256 ^ 32 := by decide
  obtain ⟨point, hpoint⟩ := exists_encodes R
  obtain ⟨scalar, hlength, hscalar⟩ := exists_littleInteger ((ZMod.val_lt S).trans horder)
  refine ⟨point ++ scalar, ?_, ?_, ?_⟩
  · rwa [List.take_left' hpoint.length_eq]
  · rw [List.length_append, hpoint.length_eq, hlength]
  · rwa [List.drop_left' hpoint.length_eq]

theorem readsSignatureText_of_verify {env : Environment} {kind : SignedDocumentKind}
    {receivedBytes : Bytes} {resolver : KeyResolver} {verified : VerifiedSignedDocument}
    (h : SignedDocumentCodec.verify env kind receivedBytes resolver = .ok verified) :
    ReadsSignatureText verified.signature.value verified.signature.bytes := by
  obtain ⟨opened, hopens, hcompletes⟩ := SignedDocumentCodec.verify_eq_ok.mp h
  obtain ⟨_, _, hsignature⟩ := hopens.envelope.signature
  rw [hcompletes.signature, readsSignatureText_iff]
  exact ⟨hsignature.encoded,
    exists_encodesPair_of_validate hsignature.length hsignature.encoding⟩

/-- Signatures are not malleable: the texts that are read as signatures, among
them those of all accepted documents, are in one-to-one correspondence with the
pairs of a point of the subgroup and a scalar modulo its order. -/
theorem signature_text_bijective :
    (∀ text signature, ReadsSignatureText text signature →
      ∃! pair : Edwards.Point edwards25519 × ZMod order,
        EncodesPair signature pair.1 pair.2 ∧ order • pair.1 = 0) ∧
    (∀ (R : Edwards.Point edwards25519) (S : ZMod order), order • R = 0 →
      ∃! text, ∃ signature, ReadsSignatureText text signature ∧ EncodesPair signature R S) ∧
    ∀ env kind receivedBytes resolver verified,
      SignedDocumentCodec.verify env kind receivedBytes resolver = .ok verified →
        ReadsSignatureText verified.signature.value verified.signature.bytes := by
  refine ⟨?_, ?_, fun _ _ _ _ _ => readsSignatureText_of_verify⟩
  · intro text signature h
    obtain ⟨_, R, S, hpair, hzero⟩ := readsSignatureText_iff.mp h
    refine ⟨(R, S), ⟨hpair, hzero⟩, ?_⟩
    rintro ⟨R', S'⟩ ⟨hpair', _⟩
    obtain ⟨hR, hS⟩ := hpair'.pair_eq hpair
    exact Prod.ext hR hS
  · intro R S hzero
    obtain ⟨signature, hpair⟩ := exists_encodesPair R S
    refine ⟨base64urlEncode signature,
      ⟨signature, readsSignatureText_iff.mpr ⟨rfl, R, S, hpair, hzero⟩, hpair⟩, ?_⟩
    rintro text ⟨signature', h, hpair'⟩
    obtain ⟨htext, _⟩ := readsSignatureText_iff.mp h
    rw [htext, hpair'.unique hpair]

end MissionWeave
