import MissionWeave.CodeLib.Bytes
import MissionWeave.CodeLib.Except
import MissionWeave.Errors

/-!
# Base64url

`base64url_encode` and the strict `base64url_decode` of the Signed Document
codec, over the block functions of OpenSSL: `encodeBlock` is padded base64 of
RFC 4648, and `decodeBlock` reads groups of four characters, where a padding
character stands for six zero bits.  The lengths are assumed to fit the `int`
that the source casts them to.

* `base64urlDecode_encode`: what was encoded is decoded.
* `base64urlEncode_of_decode`: what is decoded is the encoding of the result.
* `base64url_bijective`: the two functions are a bijection between the byte
  strings that are not empty and the texts that are accepted.
-/

namespace MissionWeave

/-! ## `EVP_EncodeBlock` and `EVP_DecodeBlock` -/

/-- The character of a value below 64. -/
def base64Char (value : Nat) : UInt8 :=
  if value < 26 then UInt8.ofNat (value + 0x41)
  else if value < 52 then UInt8.ofNat (value - 26 + 0x61)
  else if value < 62 then UInt8.ofNat (value - 52 + 0x30)
  else if value = 62 then Ascii.plus
  else Ascii.slash

/-- The value of a character, zero for the padding character. -/
def base64Value? (b : UInt8) : Option Nat :=
  if 0x41 ≤ b ∧ b ≤ 0x5A then some (b.toNat - 0x41)
  else if 0x61 ≤ b ∧ b ≤ 0x7A then some (b.toNat - 0x61 + 26)
  else if Ascii.isDigit b then some (b.toNat - 0x30 + 52)
  else if b = Ascii.plus then some 62
  else if b = Ascii.slash then some 63
  else if b = Ascii.equals then some 0
  else none

/-- `EVP_EncodeBlock`. -/
def encodeBlock : Bytes → Bytes
  | a :: b :: c :: rest =>
    base64Char (a.toNat / 4) :: base64Char (a.toNat % 4 * 16 + b.toNat / 16) ::
      base64Char (b.toNat % 16 * 4 + c.toNat / 64) :: base64Char (c.toNat % 64) ::
        encodeBlock rest
  | [a, b] =>
    [base64Char (a.toNat / 4), base64Char (a.toNat % 4 * 16 + b.toNat / 16),
      base64Char (b.toNat % 16 * 4), Ascii.equals]
  | [a] => [base64Char (a.toNat / 4), base64Char (a.toNat % 4 * 16), Ascii.equals, Ascii.equals]
  | [] => []

/-- `EVP_DecodeBlock`, `none` for a negative result. -/
def decodeBlock : Bytes → Option Bytes
  | [] => some []
  | w :: x :: y :: z :: rest => do
    let w ← base64Value? w
    let x ← base64Value? x
    let y ← base64Value? y
    let z ← base64Value? z
    let decoded ← decodeBlock rest
    some (UInt8.ofNat (w * 4 + x / 16) :: UInt8.ofNat (x % 16 * 16 + y / 4) ::
      UInt8.ofNat (y % 4 * 64 + z) :: decoded)
  | _ => none

/-! ## The URL alphabet -/

def isAlnum (b : UInt8) : Bool := Ascii.isAlpha b || Ascii.isDigit b

/-- `'+'` and `'/'` in the URL alphabet. -/
def toUrl (b : UInt8) : UInt8 :=
  if b = Ascii.plus then Ascii.minus else if b = Ascii.slash then Ascii.underscore else b

/-- The loop of `base64url_decode` that leaves the URL alphabet. -/
def fromUrl (b : UInt8) : Option UInt8 :=
  if b = Ascii.minus then some Ascii.plus
  else if b = Ascii.underscore then some Ascii.slash
  else if isAlnum b then some b
  else none

/-- `while (!text.empty() && text.back() == '=') { text.pop_back(); }`. -/
def trimPadding (text : Bytes) : Bytes :=
  (text.reverse.dropWhile (· == Ascii.equals)).reverse

/-- `base64url_encode`. -/
def base64urlEncode (bytes : Bytes) : Bytes := trimPadding ((encodeBlock bytes).map toUrl)

/-- `base64url_decode`. -/
def base64urlDecode (text : Bytes) (label : String) : Except Thrown Bytes :=
  if text = [] ∨ text.length % 4 = 1 ∨ Ascii.equals ∈ text then
    .error (.invalidArgument (label ++ " is not unpadded base64url"))
  else
    match text.mapM fromUrl with
    | none => .error (.invalidArgument (label ++ " is not unpadded base64url"))
    | some unpadded =>
      let padding := (4 - unpadded.length % 4) % 4
      match decodeBlock (unpadded ++ List.replicate padding Ascii.equals) with
      | none => .error (.invalidArgument (label ++ " cannot be decoded"))
      | some decoded =>
        if decoded.length < padding then
          .error (.invalidArgument (label ++ " cannot be decoded"))
        else
          let decoded := decoded.take (decoded.length - padding)
          if base64urlEncode decoded ≠ text then
            .error (.invalidArgument (label ++ " is not canonical base64url"))
          else .ok decoded

/-! ## The characters of an encoding -/

private theorem base64Char_nat : ∀ value, value < 64 →
    base64Value? (base64Char value) = some value ∧ base64Char value ≠ Ascii.equals ∧
      toUrl (base64Char value) ≠ Ascii.equals ∧
        fromUrl (toUrl (base64Char value)) = some (base64Char value) := by
  decide

variable {value : Nat} (h : value < 64)

include h

theorem base64Value?_char : base64Value? (base64Char value) = some value :=
  (base64Char_nat value h).1

theorem toUrl_char_ne : toUrl (base64Char value) ≠ Ascii.equals :=
  (base64Char_nat value h).2.2.1

theorem fromUrl_toUrl_char : fromUrl (toUrl (base64Char value)) = some (base64Char value) :=
  (base64Char_nat value h).2.2.2

omit h

theorem base64Value?_equals : base64Value? Ascii.equals = some 0 := rfl

/-! ## Decoding what was encoded -/

/-- The encoding without its padding, the number of padding characters, and
what is decoded from it with them. -/
structure EncodedAs (bytes unpadded : Bytes) (padding : Nat) : Prop where
  encode : encodeBlock bytes = unpadded ++ List.replicate padding Ascii.equals
  count : (4 - unpadded.length % 4) % 4 = padding
  decode : decodeBlock (unpadded ++ List.replicate padding Ascii.equals) =
    some (bytes ++ List.replicate padding 0)
  chars : ∀ b ∈ unpadded, ∃ value, value < 64 ∧ b = base64Char value
  length : unpadded.length % 4 ≠ 1
  size : unpadded.length = (4 * bytes.length + 2) / 3
  nonempty : bytes ≠ [] → unpadded ≠ []

/-- One group of four characters, read as the three bytes it was written from. -/
theorem decodeBlock_group (a b c : UInt8) {w x y z : UInt8} {rest decoded : Bytes}
    (hw : base64Value? w = some (a.toNat / 4))
    (hx : base64Value? x = some (a.toNat % 4 * 16 + b.toNat / 16))
    (hy : base64Value? y = some (b.toNat % 16 * 4 + c.toNat / 64))
    (hz : base64Value? z = some (c.toNat % 64)) (hrest : decodeBlock rest = some decoded) :
    decodeBlock (w :: x :: y :: z :: rest) = some (a :: b :: c :: decoded) := by
  have ha := a.toNat_lt
  have hb := b.toNat_lt
  have hc := c.toNat_lt
  have h1 : a.toNat / 4 * 4 + (a.toNat % 4 * 16 + b.toNat / 16) / 16 = a.toNat := by omega
  have h2 : (a.toNat % 4 * 16 + b.toNat / 16) % 16 * 16 +
      (b.toNat % 16 * 4 + c.toNat / 64) / 4 = b.toNat := by omega
  have h3 : (b.toNat % 16 * 4 + c.toNat / 64) % 4 * 64 + c.toNat % 64 = c.toNat := by omega
  simp only [decodeBlock, hw, hx, hy, hz, hrest, Option.bind_eq_bind, Option.bind_some, h1, h2,
    h3, UInt8.ofNat_toNat]

theorem exists_encodedAs (bytes : Bytes) :
    ∃ unpadded padding, EncodedAs bytes unpadded padding := by
  match bytes with
  | [] => exact ⟨[], 0, ⟨rfl, rfl, rfl, by simp, by simp, rfl, by simp⟩⟩
  | [a] =>
    have ha := a.toNat_lt
    have h1 : a.toNat / 4 < 64 := by omega
    have h2 : a.toNat % 4 * 16 < 64 := by omega
    refine ⟨[base64Char (a.toNat / 4), base64Char (a.toNat % 4 * 16)], 2,
      ⟨rfl, rfl, ?_, ?_, by simp, by simp, by simp⟩⟩
    · exact decodeBlock_group a 0 0 (base64Value?_char h1) (base64Value?_char h2) rfl rfl rfl
    · simp only [List.forall_mem_cons, List.not_mem_nil, false_implies, implies_true, and_true]
      exact ⟨⟨_, h1, rfl⟩, ⟨_, h2, rfl⟩⟩
  | [a, b] =>
    have ha := a.toNat_lt
    have hb := b.toNat_lt
    have h1 : a.toNat / 4 < 64 := by omega
    have h2 : a.toNat % 4 * 16 + b.toNat / 16 < 64 := by omega
    have h3 : b.toNat % 16 * 4 < 64 := by omega
    refine ⟨[base64Char (a.toNat / 4), base64Char (a.toNat % 4 * 16 + b.toNat / 16),
      base64Char (b.toNat % 16 * 4)], 1, ⟨rfl, rfl, ?_, ?_, by simp, by simp, by simp⟩⟩
    · exact decodeBlock_group a b 0 (base64Value?_char h1) (base64Value?_char h2)
        (base64Value?_char h3) rfl rfl
    · simp only [List.forall_mem_cons, List.not_mem_nil, false_implies, implies_true, and_true]
      exact ⟨⟨_, h1, rfl⟩, ⟨_, h2, rfl⟩, ⟨_, h3, rfl⟩⟩
  | a :: b :: c :: rest =>
    have ha := a.toNat_lt
    have hb := b.toNat_lt
    have hc := c.toNat_lt
    have h1 : a.toNat / 4 < 64 := by omega
    have h2 : a.toNat % 4 * 16 + b.toNat / 16 < 64 := by omega
    have h3 : b.toNat % 16 * 4 + c.toNat / 64 < 64 := by omega
    have h4 : c.toNat % 64 < 64 := by omega
    obtain ⟨unpadded, padding, ih⟩ := exists_encodedAs rest
    refine ⟨base64Char (a.toNat / 4) :: base64Char (a.toNat % 4 * 16 + b.toNat / 16) ::
      base64Char (b.toNat % 16 * 4 + c.toNat / 64) :: base64Char (c.toNat % 64) :: unpadded,
      padding, ⟨?_, ?_, ?_, ?_, ?_, ?_, by simp⟩⟩
    · rw [encodeBlock, ih.encode]
      rfl
    · have := ih.count
      simp only [List.length_cons]
      omega
    · exact decodeBlock_group a b c (base64Value?_char h1) (base64Value?_char h2)
        (base64Value?_char h3) (base64Value?_char h4) ih.decode
    · simp only [List.forall_mem_cons]
      exact ⟨⟨_, h1, rfl⟩, ⟨_, h2, rfl⟩, ⟨_, h3, rfl⟩, ⟨_, h4, rfl⟩, ih.chars⟩
    · have := ih.length
      simp only [List.length_cons]
      omega
    · have := ih.size
      simp only [List.length_cons]
      omega

theorem trimPadding_append {text : Bytes} (h : ∀ b ∈ text, b ≠ Ascii.equals) (padding : Nat) :
    trimPadding (text ++ List.replicate padding Ascii.equals) = text := by
  rw [trimPadding, List.reverse_append, List.reverse_replicate,
    List.dropWhile_append_of_pos (by
      intro b hb
      rw [List.eq_of_mem_replicate hb]
      rfl)]
  cases hrev : text.reverse with
  | nil =>
    rw [List.reverse_eq_nil_iff.mp hrev]
    rfl
  | cons b rest =>
    have hb : b ∈ text := List.mem_reverse.mp (by rw [hrev]; exact List.mem_cons_self)
    rw [List.dropWhile_cons_of_neg (by simpa using h b hb), ← hrev, List.reverse_reverse]

/-- The padding is trimmed off, whatever its length. -/
theorem base64urlEncode_eq {bytes chars : Bytes} {padding : Nat}
    (hchars : ∀ b ∈ chars, ∃ value, value < 64 ∧ b = base64Char value)
    (h : encodeBlock bytes = chars ++ List.replicate padding Ascii.equals) :
    base64urlEncode bytes = chars.map toUrl := by
  have hmap : (List.replicate padding Ascii.equals).map toUrl =
      List.replicate padding Ascii.equals := by
    rw [List.map_replicate]
    rfl
  rw [base64urlEncode, h, List.map_append, hmap]
  refine trimPadding_append (fun b hb => ?_) padding
  obtain ⟨c, hc, rfl⟩ := List.mem_map.mp hb
  obtain ⟨value, hvalue, rfl⟩ := hchars c hc
  exact toUrl_char_ne hvalue

/-- The unpadded encoding of a byte string. -/
theorem EncodedAs.base64urlEncode {bytes unpadded : Bytes} {padding : Nat}
    (h : EncodedAs bytes unpadded padding) :
    base64urlEncode bytes = unpadded.map toUrl :=
  base64urlEncode_eq h.chars h.encode

/-- The unpadded encoding has four characters for three bytes. -/
theorem length_base64urlEncode (bytes : Bytes) :
    (base64urlEncode bytes).length = (4 * bytes.length + 2) / 3 := by
  obtain ⟨unpadded, padding, h⟩ := exists_encodedAs bytes
  rw [h.base64urlEncode, List.length_map, h.size]

/-- The last group of a text that is one byte longer than whole groups. -/
theorem exists_mem_encodeBlock {bytes : Bytes} (h : bytes.length % 3 = 1) :
    ∃ value < 4, base64Char (value * 16) ∈ encodeBlock bytes := by
  match bytes with
  | [] => cases h
  | [a] => exact ⟨a.toNat % 4, Nat.mod_lt _ (by decide), by simp [encodeBlock]⟩
  | [a, b] => cases h
  | a :: b :: c :: rest =>
    rw [List.length_cons, List.length_cons, List.length_cons, Nat.add_assoc, Nat.add_assoc,
      Nat.add_mod_right] at h
    obtain ⟨value, hvalue, hmem⟩ := exists_mem_encodeBlock h
    refine ⟨value, hvalue, ?_⟩
    rw [encodeBlock]
    simp only [List.mem_cons]
    exact .inr (.inr (.inr (.inr hmem)))

theorem exists_mem_base64urlEncode {bytes : Bytes} (h : bytes.length % 3 = 1) :
    ∃ value < 4, toUrl (base64Char (value * 16)) ∈ base64urlEncode bytes := by
  obtain ⟨value, hvalue, hmem⟩ := exists_mem_encodeBlock h
  obtain ⟨unpadded, padding, hencoded⟩ := exists_encodedAs bytes
  refine ⟨value, hvalue, ?_⟩
  rw [hencoded.encode, List.mem_append] at hmem
  rw [hencoded.base64urlEncode]
  refine List.mem_map_of_mem (hmem.resolve_right fun hpadding => ?_)
  exact (base64Char_nat _ (by omega)).2.1 (List.eq_of_mem_replicate hpadding)

/-- The characters of the URL alphabet. -/
def isBase64url (b : UInt8) : Bool := (fromUrl b).isSome

theorem isBase64url_of_mem_encode {bytes : Bytes} {b : UInt8}
    (h : b ∈ base64urlEncode bytes) : isBase64url b = true := by
  obtain ⟨unpadded, padding, hencoded⟩ := exists_encodedAs bytes
  rw [hencoded.base64urlEncode] at h
  obtain ⟨c, hc, rfl⟩ := List.mem_map.mp h
  obtain ⟨value, hvalue, rfl⟩ := hencoded.chars c hc
  rw [isBase64url, fromUrl_toUrl_char hvalue]
  rfl

theorem lt_of_isBase64url {b : UInt8} (h : isBase64url b = true) : b < 0x80 := by
  rw [isBase64url, fromUrl] at h
  split_ifs at h with hminus hunderscore halnum
  · rw [hminus]
    decide
  · rw [hunderscore]
    decide
  · simp only [isAlnum, Ascii.isAlpha, Ascii.isDigit, Bool.or_eq_true, Bool.and_eq_true,
      decide_eq_true_eq, UInt8.le_iff_toNat_le] at halnum
    rw [UInt8.lt_iff_toNat_lt]
    rcases halnum with (⟨_, h⟩ | ⟨_, h⟩) | ⟨_, h⟩ <;> exact Nat.lt_of_le_of_lt h (by decide)
  · cases h

/-- The characters of an encoding leave the URL alphabet as they entered it. -/
theorem mapM_fromUrl {chars : Bytes}
    (hchars : ∀ b ∈ chars, ∃ value, value < 64 ∧ b = base64Char value) :
    (chars.map toUrl).mapM fromUrl = some chars := by
  induction chars with
  | nil => rfl
  | cons c cs ih =>
    obtain ⟨⟨value, hvalue, rfl⟩, hcs⟩ := List.forall_mem_cons.mp hchars
    rw [List.map_cons, List.mapM_cons, fromUrl_toUrl_char hvalue, ih hcs]
    rfl

/-- What was encoded is decoded. -/
theorem base64urlDecode_encode {bytes : Bytes} (hne : bytes ≠ []) (label : String) :
    base64urlDecode (base64urlEncode bytes) label = .ok bytes := by
  obtain ⟨unpadded, padding, h⟩ := exists_encodedAs bytes
  have hencode := h.base64urlEncode
  have hequals : Ascii.equals ∉ unpadded.map toUrl := by
    intro hmem
    obtain ⟨c, hc, heq⟩ := List.mem_map.mp hmem
    obtain ⟨value, hvalue, rfl⟩ := h.chars c hc
    exact toUrl_char_ne hvalue heq
  have hguard : ¬(unpadded.map toUrl = [] ∨ (unpadded.map toUrl).length % 4 = 1 ∨
      Ascii.equals ∈ unpadded.map toUrl) := by
    rw [List.map_eq_nil_iff, List.length_map]
    rintro (hnil | hlen | hmem)
    · exact h.nonempty hne hnil
    · exact h.length hlen
    · exact hequals hmem
  have hlen : (bytes ++ List.replicate padding (0 : UInt8)).length = bytes.length + padding := by
    rw [List.length_append, List.length_replicate]
  rw [hencode, base64urlDecode, if_neg hguard, mapM_fromUrl h.chars]
  dsimp only
  rw [h.count, h.decode]
  dsimp only
  rw [hlen, if_neg (by omega), Nat.add_sub_cancel, List.take_left,
    if_neg (not_not.mpr hencode)]

/-- What is decoded is the encoding of the result, which is not empty. -/
theorem base64urlEncode_of_decode {text decoded : Bytes} {label : String}
    (h : base64urlDecode text label = .ok decoded) : text = base64urlEncode decoded := by
  rw [base64urlDecode] at h
  split_ifs at h with hguard
  split at h
  · cases h
  · dsimp only at h
    split at h
    · cases h
    · split_ifs at h with hshort hcanonical
      rw [Except.ok.injEq] at h
      rw [← h]
      exact (not_not.mp hcanonical).symm

theorem text_ne_nil_of_decode {text decoded : Bytes} {label : String}
    (h : base64urlDecode text label = .ok decoded) : text ≠ [] := by
  intro hnil
  rw [hnil, base64urlDecode, if_pos (.inl rfl)] at h
  cases h

/-- The text that is accepted for a byte string is its encoding. -/
theorem base64urlDecode_eq_ok {text bytes : Bytes} {label : String} :
    base64urlDecode text label = .ok bytes ↔ bytes ≠ [] ∧ text = base64urlEncode bytes := by
  constructor
  · intro h
    have htext := base64urlEncode_of_decode h
    refine ⟨?_, htext⟩
    intro hnil
    apply text_ne_nil_of_decode h
    rw [htext, hnil]
    rfl
  · intro h
    rw [h.2]
    exact base64urlDecode_encode h.1 label

/-- Decoding inverts encoding, and accepts nothing but encodings. -/
theorem base64url_bijective (label : String) :
    (∀ bytes : Bytes, bytes ≠ [] → base64urlDecode (base64urlEncode bytes) label = .ok bytes) ∧
      ∀ text bytes : Bytes, base64urlDecode text label = .ok bytes ↔
        bytes ≠ [] ∧ text = base64urlEncode bytes :=
  ⟨fun _ hne => base64urlDecode_encode hne label, fun _ _ => base64urlDecode_eq_ok⟩

end MissionWeave
