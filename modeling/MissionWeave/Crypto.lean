import MissionWeave.Environment
import MissionWeave.SignedDocument.Base64Url

/-!
# Detached Ed25519 signatures

`Ed25519::verify_base64url` with the `base64url_decode` of `crypto.cpp`.  The
decoder makes the tests of the one of the Signed Document codec, except that it
accepts the empty text and does not encode the result again.  Both files have
the same `base64url_encode`.

* `strict_iff`: what the codec accepts is what this decoder accepts without
  unused bits.
* `signature_text_canonical_iff`: when the text of a signature that verifies is
  its only one.
-/

namespace MissionWeave.Crypto

/-- `base64url_decode` of `crypto.cpp`. -/
def base64urlDecode (encoded : Bytes) : Except Thrown Bytes :=
  if encoded.length % 4 = 1 ∨ Ascii.equals ∈ encoded then
    .error (.cryptoError "invalid unpadded base64url signature")
  else
    match encoded.mapM fromUrl with
    | none => .error (.cryptoError "invalid unpadded base64url signature")
    | some unpadded =>
      let padding := (4 - unpadded.length % 4) % 4
      match decodeBlock (unpadded ++ List.replicate padding Ascii.equals) with
      | none => .error (.cryptoError "invalid unpadded base64url signature")
      | some decoded =>
        if decoded.length < padding then
          .error (.cryptoError "invalid unpadded base64url signature")
        else .ok (decoded.take (decoded.length - padding))

/-- `Ed25519::verify_base64url`. -/
def verifyBase64url (env : Environment) (publicKey : Ed25519PublicKey)
    (message signature : Bytes) : Except Thrown Bool :=
  match base64urlDecode signature with
  | .error (.cryptoError _) => .ok false
  | .error thrown => .error thrown
  | .ok decoded =>
    if decoded.length ≠ 64 then .ok false
    else env.ed25519Verify publicKey message decoded

/-! ## The unused bits -/

/-- The value of a character of the URL alphabet. -/
def urlValue? (b : UInt8) : Option Nat := (fromUrl b).bind base64Value?

/-- The low bits of the last character that are part of no byte: four when two
characters are left over, two when three are. -/
def unusedBits (text : Bytes) : Nat :=
  let value := (text.getLast?.bind urlValue?).getD 0
  if text.length % 4 = 2 then value % 16
  else if text.length % 4 = 3 then value % 4
  else 0

private theorem fromUrl_nat : ∀ n, n < 256 →
    (fromUrl (UInt8.ofNat n)).all (fun c => (base64Value? c).any fun v =>
      decide (v < 64 ∧ base64Char v = c ∧ toUrl c = UInt8.ofNat n)) = true := by
  decide +kernel

theorem exists_value_of_fromUrl {b c : UInt8} (h : fromUrl b = some c) :
    ∃ v, v < 64 ∧ c = base64Char v ∧ b = toUrl c := by
  have hall := fromUrl_nat b.toNat b.toNat_lt
  rw [UInt8.ofNat_toNat, h, Option.all_some] at hall
  obtain ⟨v, _, hv⟩ := (Option.any_eq_true _ _).mp hall
  obtain ⟨hlt, hchar, hurl⟩ := of_decide_eq_true hv
  exact ⟨v, hlt, hchar.symm, hurl.symm⟩

theorem urlValue?_char {v : Nat} (h : v < 64) : urlValue? (toUrl (base64Char v)) = some v := by
  rw [urlValue?, fromUrl_toUrl_char h, Option.bind_some, base64Value?_char h]

/-- The text of a list of values. -/
def urlText (values : List Nat) : Bytes := (values.map base64Char).map toUrl

/-- A text that leaves the URL alphabet is the text of values below 64. -/
theorem exists_values {text unpadded : Bytes} (h : text.mapM fromUrl = some unpadded) :
    ∃ values : List Nat, (∀ v ∈ values, v < 64) ∧ unpadded = values.map base64Char ∧
      text = urlText values := by
  induction text generalizing unpadded with
  | nil =>
    rw [List.mapM_nil] at h
    cases h
    exact ⟨[], by simp, rfl, rfl⟩
  | cons b rest ih =>
    rw [List.mapM_cons] at h
    obtain ⟨c, hc, h⟩ := Option.bind_eq_some_iff.mp h
    obtain ⟨cs, hcs, h⟩ := Option.bind_eq_some_iff.mp h
    cases h
    obtain ⟨v, hlt, hchar, hurl⟩ := exists_value_of_fromUrl hc
    obtain ⟨values, hall, hunpadded, htext⟩ := ih hcs
    refine ⟨v :: values, List.forall_mem_cons.mpr ⟨hlt, hall⟩, ?_, ?_⟩
    · rw [hchar, hunpadded]
      rfl
    · rw [hurl, htext, hchar]
      rfl

/-- The unused bits of a list of values. -/
def unusedOf (values : List Nat) : Nat :=
  let value := values.getLast?.getD 0
  if values.length % 4 = 2 then value % 16
  else if values.length % 4 = 3 then value % 4
  else 0

theorem unusedBits_urlText {values : List Nat} (h : ∀ v ∈ values, v < 64) :
    unusedBits (urlText values) = unusedOf values := by
  have hlast : (urlText values).getLast?.bind urlValue? = values.getLast? := by
    rw [urlText, List.getLast?_map, List.getLast?_map]
    cases hlast : values.getLast? with
    | none => rfl
    | some v => exact urlValue?_char (h v (List.mem_of_getLast? hlast))
  unfold unusedBits unusedOf
  rw [hlast, urlText, List.length_map, List.length_map]

theorem unusedOf_group (w x y z : Nat) (rest : List Nat) :
    unusedOf (w :: x :: y :: z :: rest) = unusedOf rest := by
  have hlength : (w :: x :: y :: z :: rest).length % 4 = rest.length % 4 := by
    simp only [List.length_cons]
    omega
  unfold unusedOf
  rw [hlength]
  cases rest with
  | nil => rfl
  | cons v rest => rfl

/-! ## Encoding what was decoded -/

/-- The number of padding characters. -/
def paddingOf (length : Nat) : Nat := (4 - length % 4) % 4

theorem paddingOf_le (length : Nat) : paddingOf length ≤ 3 := by
  unfold paddingOf
  omega

/-- What was decoded has the padding as its last bytes, and encoding the rest
gives the characters back when no unused bit is set. -/
structure Reencodes (values : List Nat) (decoded : Bytes) : Prop where
  padding_le : paddingOf values.length ≤ decoded.length
  encode_iff : encodeBlock (decoded.take (decoded.length - paddingOf values.length)) =
    values.map base64Char ++ List.replicate (paddingOf values.length) Ascii.equals ↔
      unusedOf values = 0

theorem base64Char_inj {v w : Nat} (hv : v < 64) (hw : w < 64)
    (h : base64Char v = base64Char w) : v = w := by
  have heq := congrArg base64Value? h
  rw [base64Value?_char hv, base64Value?_char hw] at heq
  exact Option.some.inj heq

private theorem toNat_byte {n : Nat} (h : n < 256) : (UInt8.ofNat n).toNat = n :=
  UInt8.toNat_ofNat_of_lt' h

/-- Three bytes from the values of four characters. -/
theorem decodeBlock_values {w x y z : Nat} {cw cx cy cz : UInt8} {rest decoded : Bytes}
    (hw : base64Value? cw = some w) (hx : base64Value? cx = some x)
    (hy : base64Value? cy = some y) (hz : base64Value? cz = some z)
    (h : decodeBlock (cw :: cx :: cy :: cz :: rest) = some decoded) :
    ∃ tail, decodeBlock rest = some tail ∧ decoded =
      UInt8.ofNat (w * 4 + x / 16) :: UInt8.ofNat (x % 16 * 16 + y / 4) ::
        UInt8.ofNat (y % 4 * 64 + z) :: tail := by
  rw [decodeBlock, hw, hx, hy, hz] at h
  simp only [Option.bind_eq_bind, Option.bind_some] at h
  obtain ⟨tail, htail, heq⟩ := Option.bind_eq_some_iff.mp h
  exact ⟨tail, htail, (Option.some.inj heq).symm⟩

/-! The regrouping of six and of eight bits. -/

theorem encodeBlock_one {v w : Nat} (hv : v < 64) (hw : w < 64) :
    encodeBlock [UInt8.ofNat (v * 4 + w / 16)] =
      [base64Char v, base64Char (w / 16 * 16), Ascii.equals, Ascii.equals] := by
  have hbyte : (UInt8.ofNat (v * 4 + w / 16)).toNat = v * 4 + w / 16 := toNat_byte (by omega)
  have h1 : (v * 4 + w / 16) / 4 = v := by omega
  have h2 : (v * 4 + w / 16) % 4 * 16 = w / 16 * 16 := by omega
  rw [encodeBlock, hbyte, h1, h2]

theorem encodeBlock_two {v w x : Nat} (hv : v < 64) (hw : w < 64) (hx : x < 64) :
    encodeBlock [UInt8.ofNat (v * 4 + w / 16), UInt8.ofNat (w % 16 * 16 + x / 4)] =
      [base64Char v, base64Char w, base64Char (x / 4 * 4), Ascii.equals] := by
  have hbyte1 : (UInt8.ofNat (v * 4 + w / 16)).toNat = v * 4 + w / 16 := toNat_byte (by omega)
  have hbyte2 : (UInt8.ofNat (w % 16 * 16 + x / 4)).toNat = w % 16 * 16 + x / 4 :=
    toNat_byte (by omega)
  have h1 : (v * 4 + w / 16) / 4 = v := by omega
  have h2 : (v * 4 + w / 16) % 4 * 16 + (w % 16 * 16 + x / 4) / 16 = w := by omega
  have h3 : (w % 16 * 16 + x / 4) % 16 * 4 = x / 4 * 4 := by omega
  rw [encodeBlock, hbyte1, hbyte2, h1, h2, h3]

theorem encodeBlock_group {v w x y : Nat} (hv : v < 64) (hw : w < 64) (hx : x < 64)
    (hy : y < 64) (rest : Bytes) :
    encodeBlock (UInt8.ofNat (v * 4 + w / 16) :: UInt8.ofNat (w % 16 * 16 + x / 4) ::
        UInt8.ofNat (x % 4 * 64 + y) :: rest) =
      base64Char v :: base64Char w :: base64Char x :: base64Char y :: encodeBlock rest := by
  have hbyte1 : (UInt8.ofNat (v * 4 + w / 16)).toNat = v * 4 + w / 16 := toNat_byte (by omega)
  have hbyte2 : (UInt8.ofNat (w % 16 * 16 + x / 4)).toNat = w % 16 * 16 + x / 4 :=
    toNat_byte (by omega)
  have hbyte3 : (UInt8.ofNat (x % 4 * 64 + y)).toNat = x % 4 * 64 + y := toNat_byte (by omega)
  have h1 : (v * 4 + w / 16) / 4 = v := by omega
  have h2 : (v * 4 + w / 16) % 4 * 16 + (w % 16 * 16 + x / 4) / 16 = w := by omega
  have h3 : (w % 16 * 16 + x / 4) % 16 * 4 + (x % 4 * 64 + y) / 64 = x := by omega
  have h4 : (x % 4 * 64 + y) % 64 = y := by omega
  rw [encodeBlock, hbyte1, hbyte2, hbyte3, h1, h2, h3, h4]

/-- A character is the one without its low bits when these are zero. -/
theorem base64Char_clear_iff {v : Nat} (h : v < 64) (unit : Nat) :
    base64Char (v / unit * unit) = base64Char v ↔ v % unit = 0 := by
  have hsplit := Nat.div_add_mod' v unit
  constructor
  · intro heq
    have hvalue := base64Char_inj (by omega) h heq
    omega
  · intro hzero
    rw [hzero, Nat.add_zero] at hsplit
    rw [hsplit]

theorem Reencodes.two {v w : Nat} (hv : v < 64) (hw : w < 64) {decoded : Bytes}
    (h : decodeBlock [base64Char v, base64Char w, Ascii.equals, Ascii.equals] = some decoded) :
    Reencodes [v, w] decoded := by
  obtain ⟨tail, htail, hdecoded⟩ := decodeBlock_values (base64Value?_char hv)
    (base64Value?_char hw) base64Value?_equals base64Value?_equals h
  cases htail
  rw [hdecoded]
  refine ⟨paddingOf_le _, ?_⟩
  show encodeBlock [UInt8.ofNat (v * 4 + w / 16)] = [_, _, _, _] ↔ w % 16 = 0
  rw [encodeBlock_one hv hw, ← base64Char_clear_iff hw]
  simp only [List.cons.injEq, true_and, and_true]

theorem Reencodes.three {v w x : Nat} (hv : v < 64) (hw : w < 64) (hx : x < 64)
    {decoded : Bytes}
    (h : decodeBlock [base64Char v, base64Char w, base64Char x, Ascii.equals] = some decoded) :
    Reencodes [v, w, x] decoded := by
  obtain ⟨tail, htail, hdecoded⟩ := decodeBlock_values (base64Value?_char hv)
    (base64Value?_char hw) (base64Value?_char hx) base64Value?_equals h
  cases htail
  rw [hdecoded]
  refine ⟨paddingOf_le _, ?_⟩
  show encodeBlock [UInt8.ofNat (v * 4 + w / 16), UInt8.ofNat (w % 16 * 16 + x / 4)] =
    [_, _, _, _] ↔ x % 4 = 0
  rw [encodeBlock_two hv hw hx, ← base64Char_clear_iff hx]
  simp only [List.cons.injEq, true_and, and_true]

theorem paddingOf_group (w x y z : Nat) (rest : List Nat) :
    paddingOf (w :: x :: y :: z :: rest).length = paddingOf rest.length := by
  simp only [paddingOf, List.length_cons]
  omega

theorem Reencodes.group {v w x y : Nat} (hv : v < 64) (hw : w < 64) (hx : x < 64) (hy : y < 64)
    {rest : List Nat} {tail : Bytes} (h : Reencodes rest tail) :
    Reencodes (v :: w :: x :: y :: rest) (UInt8.ofNat (v * 4 + w / 16) ::
      UInt8.ofNat (w % 16 * 16 + x / 4) :: UInt8.ofNat (x % 4 * 64 + y) :: tail) where
  padding_le := by
    have hle := h.padding_le
    rw [paddingOf_group]
    simp only [List.length_cons]
    omega
  encode_iff := by
    have hle := h.padding_le
    have htake : tail.length + 1 + 1 + 1 - paddingOf rest.length =
        tail.length - paddingOf rest.length + 3 := by omega
    rw [paddingOf_group, unusedOf_group, ← h.encode_iff]
    simp only [List.length_cons, htake, List.take_succ_cons]
    rw [encodeBlock_group hv hw hx hy]
    simp only [List.map_cons, List.cons_append, List.cons.injEq, true_and]

theorem reencodes : ∀ {values : List Nat} {decoded : Bytes}, (∀ v ∈ values, v < 64) →
    values.length % 4 ≠ 1 →
    decodeBlock (values.map base64Char ++
      List.replicate (paddingOf values.length) Ascii.equals) = some decoded →
    Reencodes values decoded := by
  intro values decoded hvalues hlength h
  match values with
  | [] =>
    cases h
    exact ⟨Nat.le_refl _, by simp [encodeBlock, unusedOf, paddingOf]⟩
  | [v] => simp at hlength
  | [v, w] => exact .two (hvalues v (by simp)) (hvalues w (by simp)) h
  | [v, w, x] => exact .three (hvalues v (by simp)) (hvalues w (by simp)) (hvalues x (by simp)) h
  | v :: w :: x :: y :: rest =>
    have hv : v < 64 := hvalues v (by simp)
    have hw : w < 64 := hvalues w (by simp)
    have hx : x < 64 := hvalues x (by simp)
    have hy : y < 64 := hvalues y (by simp)
    rw [paddingOf_group] at h
    obtain ⟨tail, htail, hdecoded⟩ := decodeBlock_values (base64Value?_char hv)
      (base64Value?_char hw) (base64Value?_char hx) (base64Value?_char hy) h
    rw [hdecoded]
    apply Reencodes.group hv hw hx hy
    apply reencodes (fun u hu => hvalues u (by simp [hu])) _ htail
    simp only [List.length_cons] at hlength
    omega

/-- The values behind a text that is decoded, with what `EVP_DecodeBlock`
returned. -/
theorem exists_of_decode {text bytes : Bytes} (h : base64urlDecode text = .ok bytes) :
    ∃ values decoded, (∀ v ∈ values, v < 64) ∧ text = urlText values ∧ Reencodes values decoded ∧
      bytes = decoded.take (decoded.length - paddingOf values.length) := by
  rw [base64urlDecode] at h
  split_ifs at h with hguard
  split at h
  · cases h
  · rename_i unpadded hunpadded
    dsimp only at h
    split at h
    · cases h
    · rename_i decoded hdecoded
      split_ifs at h
      obtain ⟨values, hvalues, hchars, htext⟩ := exists_values hunpadded
      have hlength : unpadded.length = values.length := by rw [hchars, List.length_map]
      have hcount : values.length % 4 ≠ 1 := by
        intro hone
        apply hguard
        left
        rw [htext, urlText, List.length_map, List.length_map]
        exact hone
      rw [hlength] at hdecoded h
      rw [hchars] at hdecoded
      exact ⟨values, decoded, hvalues, htext, reencodes hvalues hcount hdecoded,
        (Except.ok.inj h).symm⟩

theorem chars_of_values {values : List Nat} (hvalues : ∀ v ∈ values, v < 64) :
    ∀ b ∈ values.map base64Char, ∃ value, value < 64 ∧ b = base64Char value := by
  intro b hb
  obtain ⟨v, hv, heq⟩ := List.mem_map.mp hb
  exact ⟨v, hvalues v hv, heq.symm⟩

/-- A text is the encoding of a byte string when its padded form in the
standard alphabet is. -/
theorem base64urlEncode_eq_urlText {values : List Nat} {bytes : Bytes}
    (hvalues : ∀ v ∈ values, v < 64) :
    base64urlEncode bytes = urlText values ↔ encodeBlock bytes = values.map base64Char ++
      List.replicate (paddingOf values.length) Ascii.equals := by
  have hchars := chars_of_values hvalues
  constructor
  · intro h
    obtain ⟨unpadded, padding, hencoded⟩ := exists_encodedAs bytes
    have hsame : unpadded = values.map base64Char := by
      apply Option.some.inj
      rw [← mapM_fromUrl hencoded.chars, ← mapM_fromUrl hchars, ← hencoded.base64urlEncode, h,
        urlText]
    have hpadding : padding = paddingOf values.length := by
      rw [← hencoded.count, hsame, List.length_map]
      rfl
    rw [hencoded.encode, hsame, hpadding]
  · intro h
    exact base64urlEncode_eq hchars h

/-- What is decoded is encoded as the same text when no unused bit is set. -/
theorem encode_iff_of_decode {text bytes : Bytes} (h : base64urlDecode text = .ok bytes) :
    base64urlEncode bytes = text ↔ unusedBits text = 0 := by
  obtain ⟨values, decoded, hvalues, htext, hreencodes, hbytes⟩ := exists_of_decode h
  rw [htext, base64urlEncode_eq_urlText hvalues, unusedBits_urlText hvalues, hbytes]
  exact hreencodes.encode_iff

/-- The codec accepts what is accepted here, is not empty and is encoded as
the same text. -/
theorem strict_eq_ok {text bytes : Bytes} {label : String} :
    MissionWeave.base64urlDecode text label = .ok bytes ↔
      text ≠ [] ∧ base64urlDecode text = .ok bytes ∧ base64urlEncode bytes = text := by
  unfold MissionWeave.base64urlDecode base64urlDecode
  by_cases hnil : text = []
  · simp [hnil]
  by_cases hguard : text.length % 4 = 1 ∨ Ascii.equals ∈ text
  · simp [hguard, hnil]
  rw [if_neg (not_or.mpr ⟨hnil, hguard⟩), if_neg hguard]
  cases text.mapM fromUrl with
  | none => simp
  | some unpadded =>
    dsimp only
    cases decodeBlock (unpadded ++
        List.replicate ((4 - unpadded.length % 4) % 4) Ascii.equals) with
    | none => simp
    | some decoded =>
      dsimp only
      split_ifs with hshort hcanonical
      · simp
      · simp only [Except.ok.injEq, false_iff]
        rintro ⟨_, heq, hsame⟩
        rw [heq] at hcanonical
        exact hcanonical hsame
      · simp only [Except.ok.injEq]
        constructor
        · intro heq
          rw [heq] at hcanonical
          exact ⟨hnil, heq, not_not.mp hcanonical⟩
        · intro h
          exact h.2.1

/-- The codec accepts the texts that are accepted here without unused bits,
except for the empty one. -/
theorem strict_iff {text bytes : Bytes} {label : String} :
    MissionWeave.base64urlDecode text label = .ok bytes ↔
      text ≠ [] ∧ base64urlDecode text = .ok bytes ∧ unusedBits text = 0 := by
  rw [strict_eq_ok]
  constructor
  · intro h
    exact ⟨h.1, h.2.1, (encode_iff_of_decode h.2.1).mp h.2.2⟩
  · intro h
    exact ⟨h.1, h.2.1, (encode_iff_of_decode h.2.1).mpr h.2.2⟩

/-! ## The text of a signature -/

/-- A signature that verifies was decoded to 64 bytes. -/
theorem decode_of_verifyBase64url {env : Environment} {publicKey : Ed25519PublicKey}
    {message signature : Bytes}
    (h : verifyBase64url env publicKey message signature = .ok true) :
    ∃ bytes, base64urlDecode signature = .ok bytes ∧ bytes.length = 64 ∧
      env.ed25519Verify publicKey message bytes = .ok true := by
  unfold verifyBase64url at h
  split at h
  · cases h
  · cases h
  · rename_i decoded hdecoded
    by_cases hlength : decoded.length = 64
    · rw [if_neg (not_not.mpr hlength)] at h
      exact ⟨decoded, hdecoded, hlength, h⟩
    · rw [if_pos hlength] at h
      cases h

theorem ne_nil_of_decode {text bytes : Bytes} (h : base64urlDecode text = .ok bytes)
    (hlength : bytes.length = 64) : text ≠ [] := by
  intro hnil
  rw [hnil] at h
  cases h
  cases hlength

/-- A text that is decoded to the 64 bytes of a signature is the one that the
codec accepts for them, and the one that they are encoded as, if and only if
its last character has no unused bit set.  With it a signature that verifies is
in its only form. -/
theorem signature_text_canonical_iff (text : Bytes) :
    (∀ bytes, base64urlDecode text = .ok bytes → bytes.length = 64 → ∀ label,
      (MissionWeave.base64urlDecode text label = .ok bytes ↔ unusedBits text = 0)) ∧
    ∀ env publicKey message, verifyBase64url env publicKey message text = .ok true →
      ∃ bytes, base64urlDecode text = .ok bytes ∧ bytes.length = 64 ∧
        (text = base64urlEncode bytes ↔ unusedBits text = 0) := by
  constructor
  · intro bytes hdecode hlength label
    rw [strict_iff]
    constructor
    · intro h
      exact h.2.2
    · intro hunused
      exact ⟨ne_nil_of_decode hdecode hlength, hdecode, hunused⟩
  · intro env publicKey message h
    obtain ⟨bytes, hdecode, hlength, _⟩ := decode_of_verifyBase64url h
    refine ⟨bytes, hdecode, hlength, ?_⟩
    rw [eq_comm]
    exact encode_iff_of_decode hdecode

/-! ## A second text of one signature -/

/-- A public key. -/
def samplePublicKey : Ed25519PublicKey :=
  [0xD7, 0x5A, 0x98, 0x01, 0x82, 0xB1, 0x0A, 0xB7, 0xD5, 0x4B, 0xFE, 0xD3, 0xC9, 0x64,
    0x07, 0x3A, 0x0E, 0xE1, 0x72, 0xF3, 0xDA, 0xA6, 0x23, 0x25, 0xAF, 0x02, 0x1A, 0x68,
    0xF7, 0x07, 0x51, 0x1A]

/-- The signature of the empty message under `samplePublicKey`. -/
def sampleSignature : Ed25519Signature :=
  [0xE5, 0x56, 0x43, 0x00, 0xC3, 0x60, 0xAC, 0x72, 0x90, 0x86, 0xE2, 0xCC, 0x80, 0x6E,
    0x82, 0x8A, 0x84, 0x87, 0x7F, 0x1E, 0xB8, 0xE5, 0xD9, 0x74, 0xD8, 0x73, 0xE0, 0x65,
    0x22, 0x49, 0x01, 0x55, 0x5F, 0xB8, 0x82, 0x15, 0x90, 0xA3, 0x3B, 0xAC, 0xC6, 0x1E,
    0x39, 0x70, 0x1C, 0xF9, 0xB4, 0x6B, 0xD2, 0x5B, 0xF5, 0xF0, 0x59, 0x5B, 0xBE, 0x24,
    0x65, 0x51, 0x41, 0x43, 0x8E, 0x7A, 0x10, 0x0B]

/-- A library that knows this one signature. -/
def sampleEnvironment : Environment :=
  { Environment.reference with
    evpDigestVerify := fun publicKey message signature =>
      if publicKey = samplePublicKey ∧ message = [] ∧ signature = sampleSignature then .ok 1
      else .ok 0 }

/-- The encoding of the signature with `'x'` for its last character `'w'`. -/
def noncanonicalText : Bytes :=
  List.flatMap ascii ["5VZDAMNgrHKQhuLMgG6CioSHfx645dl02HPgZSJJAVVfuIIV",
    "kKM7rMYeOXAc-bRr0lv18FlbviRlUUFDjnoQCx"]

/-- The text verifies, and the codec rejects it. -/
theorem exists_noncanonical_signature :
    verifyBase64url sampleEnvironment samplePublicKey [] noncanonicalText = .ok true ∧
      base64urlDecode noncanonicalText = .ok sampleSignature ∧
      noncanonicalText ≠ base64urlEncode sampleSignature ∧
      MissionWeave.base64urlDecode noncanonicalText "signature.value" =
        .error (.invalidArgument "signature.value is not canonical base64url") := by
  decide +kernel

end MissionWeave.Crypto
