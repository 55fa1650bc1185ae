import MissionWeave.Canonical.Serialize
import MissionWeave.Json.DecoderComplete

/-!
# What the serializer does with strings

* `decodeCodePoint_encode`, `decodeCodePoint_sound`: the second UTF-8 decoder
  of the sources accepts the encoding of a character and nothing else.
* `escapedString_encode`: the escaped text of a UTF-8 string is a JSON string
  of the same characters.
* `escapedString_sound`: a string that is escaped without an error is UTF-8.
* `utf16Units_encode`: the code units of a UTF-8 string are those of its
  characters.
-/

namespace MissionWeave.Canonical

open Decoder (ascii_char lead_ge_of_sequence)

/-! ## `decode_code_point` -/

theorem foldContinuations_eq_ok {position index codePoint value : Nat} {bs : Bytes} :
    foldContinuations position index codePoint bs = .ok value ↔
      (∀ b ∈ bs, Utf8.isContinuation b = true) ∧
        bs.foldl Utf8.pushContinuation codePoint = value := by
  induction bs generalizing index codePoint with
  | nil => simp [foldContinuations]
  | cons b bs ih =>
    rw [foldContinuations, List.forall_mem_cons, List.foldl_cons]
    cases hb : Utf8.isContinuation b with
    | true => rw [if_pos rfl, ih, and_iff_right rfl]
    | false => simp [unicodeError]

/-- The decoder reads the encoding of a character off the text. -/
theorem decodeCodePoint_encode (c : Char) (position : Nat) (rest : Bytes) :
    decodeCodePoint position (String.utf8EncodeChar c ++ rest) =
      .ok ⟨c.toNat, (String.utf8EncodeChar c).length⟩ := by
  by_cases hascii : c.toNat < 0x80
  · have hval : (UInt8.ofNat c.toNat).toNat = c.toNat := by
      rw [UInt8.toNat_ofNat']
      omega
    have hlt : UInt8.ofNat c.toNat < 0x80 := by
      rw [UInt8.lt_iff_toNat_lt, hval]
      exact hascii
    rw [Utf8.encode_ascii hascii, List.singleton_append, decodeCodePoint, if_pos hlt, hval]
    rfl
  · obtain ⟨lead, continuations, hencode, hsequence⟩ := Utf8.sequence_encode (Nat.not_lt.mp hascii)
    have hge := lead_ge_of_sequence hsequence
    obtain ⟨⟨bits, hwidth, hfold⟩, hcont, hcanon⟩ := hsequence
    rw [hencode, List.cons_append, decodeCodePoint, if_neg (UInt8.not_lt.mpr hge), hwidth]
    dsimp only
    rw [if_neg (by rw [List.length_append]; omega), Nat.add_sub_cancel, List.take_left,
      foldContinuations_eq_ok.mpr ⟨hcont, hfold⟩, Except.ok_bind,
      if_neg (by rw [hcanon]; exact Bool.false_ne_true), List.length_cons]

/-- What the decoder reads is the encoding of a character. -/
theorem decodeCodePoint_sound {position : Nat} {text : Bytes} {decoded : CodePoint}
    (h : decodeCodePoint position text = .ok decoded) :
    ∃ (c : Char) (rest : Bytes), text = String.utf8EncodeChar c ++ rest ∧
      decoded = ⟨c.toNat, (String.utf8EncodeChar c).length⟩ := by
  suffices hchar : ∃ (c : Char) (rest : Bytes), text = String.utf8EncodeChar c ++ rest by
    obtain ⟨c, rest, rfl⟩ := hchar
    rw [decodeCodePoint_encode] at h
    exact ⟨c, rest, rfl, (Except.ok.inj h).symm⟩
  cases text with
  | nil => cases h
  | cons lead rest =>
    rw [decodeCodePoint] at h
    by_cases hascii : lead < 0x80
    · obtain ⟨c, _, hencode⟩ := ascii_char hascii
      exact ⟨c, rest, by rw [hencode]; rfl⟩
    · rw [if_neg hascii] at h
      cases hwidth : Utf8.leadWidth lead with
      | none =>
        rw [hwidth] at h
        cases h
      | some lead' =>
        obtain ⟨width, bits⟩ := lead'
        rw [hwidth] at h
        dsimp only at h
        by_cases hshort : rest.length + 1 < width
        · rw [if_pos hshort] at h
          cases h
        rw [if_neg hshort] at h
        obtain ⟨value, hfold, h⟩ := Except.bind_eq_ok.mp h
        obtain ⟨hcont, hvalue⟩ := foldContinuations_eq_ok.mp hfold
        cases hcanon : Utf8.nonCanonical width value with
        | true =>
          rw [hcanon] at h
          cases h
        | false =>
          have hwidth_pos : 2 ≤ width := by
            rcases Utf8.leadWidth_cases hwidth with h | h | h <;> omega
          have hlen : (rest.take (width - 1)).length + 1 = width := by
            rw [List.length_take]
            omega
          obtain ⟨c, _, _, hencode⟩ := Utf8.encode_decode
            ⟨⟨bits, by rw [hlen]; exact hwidth, hvalue⟩, hcont, by rw [hlen]; exact hcanon⟩
          exact ⟨c, rest.drop (width - 1), by
            rw [hencode, List.cons_append, List.take_append_drop]⟩

/-! ## The loops -/

theorem escapedFrom_skip (xs : Bytes) (position : Nat) (rest : Bytes) :
    escapedFrom xs.length position (xs ++ rest) = escapedFrom 0 (position + xs.length) rest := by
  induction xs generalizing position with
  | nil => rfl
  | cons x xs ih =>
    rw [List.length_cons, List.cons_append, escapedFrom, ih]
    congr 1
    omega

theorem utf16UnitsFrom_skip (xs : Bytes) (position : Nat) (rest : Bytes) :
    utf16UnitsFrom xs.length position (xs ++ rest) =
      utf16UnitsFrom 0 (position + xs.length) rest := by
  induction xs generalizing position with
  | nil => rfl
  | cons x xs ih =>
    rw [List.length_cons, List.cons_append, utf16UnitsFrom, ih]
    congr 1
    omega

private theorem hexDigits_nat : ∀ n, n < 0x20 →
    hexQuad? [Ascii.zero, Ascii.zero, hexDigit (UInt8.ofNat n >>> 4),
      hexDigit (UInt8.ofNat n &&& 0x0F)] = some n := by
  decide

/-- What the serializer writes for an ASCII character denotes it. -/
theorem charText_escapedByte {c : Char} (h : c.toNat < 0x80) :
    CharText (escapedByte (UInt8.ofNat c.toNat)) c := by
  have hval : (UInt8.ofNat c.toNat).toNat = c.toNat := by
    rw [UInt8.toNat_ofNat']
    omega
  have hchar {d : Char} (hd : d.toNat < 0x80) (heq : UInt8.ofNat c.toNat = UInt8.ofNat d.toNat) :
      c = d := by
    have hnat := congrArg UInt8.toNat heq
    rw [UInt8.toNat_ofNat', UInt8.toNat_ofNat'] at hnat
    exact Char.toNat_inj.mp (by omega)
  have hescape {letter : UInt8} {d : Char} (hd : d.toNat < 0x80)
      (heq : UInt8.ofNat c.toNat = UInt8.ofNat d.toNat) (hletter : escapedChar? letter = some d) :
      CharText [Ascii.backslash, letter] c :=
    .escape (by rw [hletter, hchar hd heq])
  rw [escapedByte]
  by_cases hquote : UInt8.ofNat c.toNat = Ascii.quote
  · rw [if_pos hquote]
    exact hescape (by decide : ('"' : Char).toNat < 0x80) hquote rfl
  rw [if_neg hquote]
  by_cases hbackslash : UInt8.ofNat c.toNat = Ascii.backslash
  · rw [if_pos hbackslash]
    exact hescape (by decide : ('\\' : Char).toNat < 0x80) hbackslash rfl
  rw [if_neg hbackslash]
  split_ifs with h1 h2 h3 h4 h5 hcontrol
  · exact hescape (by decide : (Char.ofNat 0x08).toNat < 0x80) h1 rfl
  · exact hescape (by decide : (Char.ofNat 0x09).toNat < 0x80) h2 rfl
  · exact hescape (by decide : (Char.ofNat 0x0A).toNat < 0x80) h3 rfl
  · exact hescape (by decide : (Char.ofNat 0x0C).toNat < 0x80) h4 rfl
  · exact hescape (by decide : (Char.ofNat 0x0D).toNat < 0x80) h5 rfl
  · rw [UInt8.lt_iff_toNat_lt, hval] at hcontrol
    exact .unicode (hexDigits_nat c.toNat hcontrol)
  · rw [← Utf8.encode_ascii h]
    rw [UInt8.lt_iff_toNat_lt, hval] at hcontrol
    refine .unescaped (Nat.not_lt.mp hcontrol) ?_ ?_
    · rintro rfl
      exact hquote rfl
    · rintro rfl
      exact hbackslash rfl

/-- One round of the loop writes one `char`. -/
theorem escapedFrom_char (c : Char) (position : Nat) (rest : Bytes) :
    ∃ t, CharText t c ∧ escapedFrom 0 position (String.utf8EncodeChar c ++ rest) =
      (do
        let output ← escapedFrom 0 (position + (String.utf8EncodeChar c).length) rest
        .ok (t ++ output)) := by
  have hdecode := decodeCodePoint_encode c position rest
  by_cases hascii : c.toNat < 0x80
  · refine ⟨_, charText_escapedByte hascii, ?_⟩
    have hlt : ¬0x80 ≤ UInt8.ofNat c.toNat := by
      rw [UInt8.le_iff_toNat_le, UInt8.toNat_ofNat']
      change ¬0x80 ≤ c.toNat % 2 ^ 8
      omega
    rw [Utf8.encode_ascii hascii, List.singleton_append, escapedFrom, if_neg hlt]
    rfl
  · obtain ⟨lead, continuations, hencode, hsequence⟩ := Utf8.sequence_encode (Nat.not_lt.mp hascii)
    refine ⟨_, Decoder.unescaped_of_codePoint (Nat.not_lt.mp hascii), ?_⟩
    have hskip := escapedFrom_skip continuations (position + 1) rest
    rw [hencode, List.cons_append] at hdecode ⊢
    rw [escapedFrom, if_pos (lead_ge_of_sequence hsequence), hdecode, Except.ok_bind]
    dsimp only
    rw [List.length_cons, Nat.add_sub_cancel, hskip, List.take_succ_cons, List.take_left,
      Nat.add_assoc, Nat.add_comm 1]

theorem escapedFrom_encode (cs : List Char) (position : Nat) :
    ∃ t, StringText t cs ∧ escapedFrom 0 position (Utf8.encodeAll cs) = .ok t := by
  induction cs generalizing position with
  | nil => exact ⟨[], .nil, rfl⟩
  | cons c cs ih =>
    obtain ⟨t, hchar, hloop⟩ := escapedFrom_char c position (Utf8.encodeAll cs)
    obtain ⟨ts, htail, hrest⟩ := ih (position + (String.utf8EncodeChar c).length)
    refine ⟨t ++ ts, .cons hchar htail, ?_⟩
    rw [Utf8.encodeAll_cons, hloop, hrest, Except.ok_bind]

/-- The escaped text of a UTF-8 string is a JSON string of its characters. -/
theorem escapedString_encode (cs : List Char) :
    ∃ t, StringText t cs ∧
      escapedString (Utf8.encodeAll cs) = .ok (Ascii.quote :: (t ++ [Ascii.quote])) := by
  obtain ⟨t, htext, hloop⟩ := escapedFrom_encode cs 0
  exact ⟨t, htext, by rw [escapedString, hloop, Except.ok_bind]⟩

/-- A string that is escaped without an error is UTF-8. -/
theorem escapedFrom_sound {position : Nat} {text output : Bytes}
    (h : escapedFrom 0 position text = .ok output) : Utf8.WellFormed text := by
  induction hn : text.length using Nat.strong_induction_on generalizing text position output with
  | _ n ih =>
    cases text with
    | nil => exact ⟨[], rfl⟩
    | cons b rest =>
      suffices hchar : ∃ (c : Char) (after : Bytes), b :: rest = String.utf8EncodeChar c ++ after by
        obtain ⟨c, after, heq⟩ := hchar
        obtain ⟨t, _, hloop⟩ := escapedFrom_char c position after
        rw [heq, hloop] at h
        obtain ⟨output', hrest, _⟩ := Except.bind_eq_ok.mp h
        have hlen := congrArg List.length heq
        have hpos := Decoder.utf8EncodeChar_length_pos c
        rw [List.length_append] at hlen
        obtain ⟨cs, hcs⟩ := ih after.length (by omega) hrest rfl
        exact ⟨c :: cs, by rw [heq, hcs, Utf8.encodeAll_cons]⟩
      rw [escapedFrom] at h
      split_ifs at h with hascii
      · obtain ⟨decoded, hdecode, -⟩ := Except.bind_eq_ok.mp h
        obtain ⟨c, after, heq, -⟩ := decodeCodePoint_sound hdecode
        exact ⟨c, after, heq⟩
      · obtain ⟨c, _, hencode⟩ := ascii_char (UInt8.not_le.mp hascii)
        exact ⟨c, rest, by rw [hencode]; rfl⟩

theorem escapedString_sound {text output : Bytes} (h : escapedString text = .ok output) :
    Utf8.WellFormed text := by
  obtain ⟨_, hloop, -⟩ := Except.bind_eq_ok.mp h
  exact escapedFrom_sound hloop

/-! ## UTF-16 -/

theorem utf16UnitsFrom_encode (cs : List Char) (position : Nat) :
    utf16UnitsFrom 0 position (Utf8.encodeAll cs) =
      .ok (cs.flatMap fun c => codePointUnits c.toNat) := by
  induction cs generalizing position with
  | nil => rfl
  | cons c cs ih =>
    have hdecode := decodeCodePoint_encode c position (Utf8.encodeAll cs)
    obtain ⟨b, bs, hencode⟩ := List.exists_cons_of_length_pos (Decoder.utf8EncodeChar_length_pos c)
    have hskip := utf16UnitsFrom_skip bs (position + 1) (Utf8.encodeAll cs)
    rw [hencode, List.cons_append] at hdecode
    rw [Utf8.encodeAll_cons, hencode, List.cons_append, utf16UnitsFrom, hdecode, Except.ok_bind]
    dsimp only
    rw [List.length_cons, Nat.add_sub_cancel, hskip, ih, Except.ok_bind, List.flatMap_cons]

/-- The code units of a UTF-8 string are those of its characters. -/
theorem utf16Units_encode (cs : List Char) :
    utf16Units (Utf8.encodeAll cs) = .ok (cs.flatMap fun c => codePointUnits c.toNat) :=
  utf16UnitsFrom_encode cs 0

end MissionWeave.Canonical
