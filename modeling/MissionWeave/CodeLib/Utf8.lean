import MissionWeave.CodeLib.Bytes
import Mathlib.Data.Nat.Bitwise

/-!
# UTF-8

The encoding itself is `String.utf8EncodeChar` of the core library: a Lean
`Char` is a Unicode scalar value, so a byte string is well formed exactly when
it is `encodeAll cs` for some list of characters `cs`.

Two hand-written decoders in the sources classify the leading byte, fold the
continuation bytes into a code point and then reject what is not canonical.
`leadWidth`, `pushContinuation` and `nonCanonical` are these three steps.

* `sequence_encode`: the steps accept the encoding of every character from
  U+0080 on and give its value back.
* `encode_decode`: whatever the steps accept is the encoding of a character.
* `append_eq_encode`: the encoder that the scanner uses for decoded escapes is
  the core library's.
-/

namespace MissionWeave.Utf8

/-- The UTF-8 bytes of a sequence of Unicode scalar values. -/
def encodeAll (cs : List Char) : Bytes := cs.flatMap String.utf8EncodeChar

@[simp] theorem encodeAll_nil : encodeAll [] = [] := rfl

@[simp] theorem encodeAll_cons (c : Char) (cs : List Char) :
    encodeAll (c :: cs) = String.utf8EncodeChar c ++ encodeAll cs := by
  simp [encodeAll]

@[simp] theorem encodeAll_append (cs ds : List Char) :
    encodeAll (cs ++ ds) = encodeAll cs ++ encodeAll ds := by
  simp [encodeAll]

/-- The encoding determines the characters. -/
theorem encodeAll_injective : Function.Injective encodeAll := by
  intro cs ds h
  have hbytes : cs.utf8Encode = ds.utf8Encode := congrArg List.toByteArray h
  exact String.ofList_injective (String.toByteArray_inj.mp hbytes)

/-- A well-formed UTF-8 byte string. -/
def WellFormed (bytes : Bytes) : Prop := ∃ cs, bytes = encodeAll cs

/-- The width that a leading byte announces, and the bits it contributes. -/
def leadWidth (lead : UInt8) : Option (Nat × Nat) :=
  if 0xC2 ≤ lead && lead ≤ 0xDF then some (2, lead.toNat &&& 0x1F)
  else if 0xE0 ≤ lead && lead ≤ 0xEF then some (3, lead.toNat &&& 0x0F)
  else if 0xF0 ≤ lead && lead ≤ 0xF4 then some (4, lead.toNat &&& 0x07)
  else none

/-- `(continuation & 0xC0U) == 0x80U`. -/
def isContinuation (b : UInt8) : Bool := b &&& 0xC0 == 0x80

/-- `(code_point << 6U) | (continuation & 0x3FU)`. -/
def pushContinuation (codePoint : Nat) (b : UInt8) : Nat :=
  (codePoint <<< 6) ||| (b.toNat &&& 0x3F)

/-- The values that a decoded sequence of the given width must not have:
overlong forms, surrogates, and what lies beyond U+10FFFF. -/
def nonCanonical (width codePoint : Nat) : Bool :=
  (width == 3 && codePoint < 0x800) || (width == 4 && codePoint < 0x10000) ||
    (0xD800 ≤ codePoint && codePoint ≤ 0xDFFF) || 0x10FFFF < codePoint

/-- The bytes that `append_utf8` of the scanner pushes. -/
def append (codePoint : Nat) : Bytes :=
  if codePoint ≤ 0x7F then [UInt8.ofNat codePoint]
  else if codePoint ≤ 0x7FF then
    [UInt8.ofNat (0xC0 ||| (codePoint >>> 6)), UInt8.ofNat (0x80 ||| (codePoint &&& 0x3F))]
  else if codePoint ≤ 0xFFFF then
    [UInt8.ofNat (0xE0 ||| (codePoint >>> 12)),
      UInt8.ofNat (0x80 ||| ((codePoint >>> 6) &&& 0x3F)),
      UInt8.ofNat (0x80 ||| (codePoint &&& 0x3F))]
  else
    [UInt8.ofNat (0xF0 ||| (codePoint >>> 18)),
      UInt8.ofNat (0x80 ||| ((codePoint >>> 12) &&& 0x3F)),
      UInt8.ofNat (0x80 ||| ((codePoint >>> 6) &&& 0x3F)),
      UInt8.ofNat (0x80 ||| (codePoint &&& 0x3F))]

/-! ## Bit operations as arithmetic -/

theorem pushContinuation_eq (codePoint : Nat) (b : UInt8) :
    pushContinuation codePoint b = codePoint * 64 + b.toNat % 64 := by
  have hmask : b.toNat &&& 0x3F = b.toNat % 64 := Nat.and_two_pow_sub_one_eq_mod _ 6
  have hlt : b.toNat % 64 < 2 ^ 6 := Nat.mod_lt _ (by decide)
  rw [pushContinuation, hmask, ← Nat.shiftLeft_add_eq_or_of_lt hlt, Nat.shiftLeft_eq]

private theorem isContinuation_nat :
    ∀ n, n < 256 → (isContinuation (UInt8.ofNat n) = true ↔ 0x80 ≤ n ∧ n < 0xC0) := by
  decide +kernel

theorem isContinuation_iff (b : UInt8) :
    isContinuation b = true ↔ 0x80 ≤ b.toNat ∧ b.toNat < 0xC0 := by
  have h := isContinuation_nat b.toNat b.toNat_lt
  rwa [UInt8.ofNat_toNat] at h

/-- Setting the tag bits `t * 2 ^ k` above a value below `2 ^ k` adds them. -/
private theorem tag_or (t : Nat) {n k : Nat} (h : n < 2 ^ k) :
    (t <<< k) ||| n = t * 2 ^ k + n := by
  rw [← Nat.shiftLeft_add_eq_or_of_lt h, Nat.shiftLeft_eq]

/-- The encoder of the scanner writes the encoding of the core library. -/
theorem append_eq_encode (c : Char) : append c.toNat = String.utf8EncodeChar c := by
  have hmax : c.toNat < 0x110000 := by
    have := c.valid
    simp only [UInt32.isValidChar, Nat.isValidChar] at this
    have hval : c.val.toNat = c.toNat := rfl
    omega
  have hmask (n : Nat) : n &&& 0x3F = n % 64 := Nat.and_two_pow_sub_one_eq_mod _ 6
  have h80 (n : Nat) : 0x80 ||| (n % 64) = n % 64 + 0x80 := by
    have := tag_or 2 (n := n % 64) (k := 6) (Nat.mod_lt _ (by decide))
    simpa [Nat.add_comm] using this
  unfold append String.utf8EncodeChar
  simp only [hmask, h80, Nat.shiftRight_eq_div_pow]
  have hval : c.val.toNat = c.toNat := rfl
  rw [hval]
  split_ifs with h1 h2 h3
  · rfl
  · have hlead : 0xC0 ||| (c.toNat / 2 ^ 6) = c.toNat / 64 % 0x20 + 0xC0 := by
      have := tag_or 6 (n := c.toNat / 64) (k := 5) (by omega)
      rw [Nat.mod_eq_of_lt (by omega : c.toNat / 64 < 0x20)]
      simpa [Nat.add_comm] using this
    rw [hlead]
  · have hlead : 0xE0 ||| (c.toNat / 2 ^ 12) = c.toNat / 4096 % 0x10 + 0xE0 := by
      have := tag_or 14 (n := c.toNat / 4096) (k := 4) (by omega)
      rw [Nat.mod_eq_of_lt (by omega : c.toNat / 4096 < 0x10)]
      simpa [Nat.add_comm] using this
    rw [hlead]
  · have hlead : 0xF0 ||| (c.toNat / 2 ^ 18) = c.toNat / 262144 % 0x08 + 0xF0 := by
      have := tag_or 30 (n := c.toNat / 262144) (k := 3) (by omega)
      rw [Nat.mod_eq_of_lt (by omega : c.toNat / 262144 < 0x08)]
      simpa [Nat.add_comm] using this
    rw [hlead]

/-- The three shapes of `leadWidth`, as bounds on the leading byte. -/
theorem leadWidth_cases {lead : UInt8} {width bits : Nat}
    (h : leadWidth lead = some (width, bits)) :
    width = 2 ∧ 0xC2 ≤ lead.toNat ∧ lead.toNat ≤ 0xDF ∧ bits = lead.toNat - 0xC0 ∨
      width = 3 ∧ 0xE0 ≤ lead.toNat ∧ lead.toNat ≤ 0xEF ∧ bits = lead.toNat - 0xE0 ∨
      width = 4 ∧ 0xF0 ≤ lead.toNat ∧ lead.toNat ≤ 0xF4 ∧ bits = lead.toNat - 0xF0 := by
  have hmask5 (n : Nat) : n &&& 0x1F = n % 32 := Nat.and_two_pow_sub_one_eq_mod _ 5
  have hmask4 (n : Nat) : n &&& 0x0F = n % 16 := Nat.and_two_pow_sub_one_eq_mod _ 4
  have hmask3 (n : Nat) : n &&& 0x07 = n % 8 := Nat.and_two_pow_sub_one_eq_mod _ 3
  unfold leadWidth at h
  simp only [Bool.and_eq_true, decide_eq_true_eq, UInt8.le_iff_toNat_le, UInt8.reduceToNat,
    hmask5, hmask4, hmask3] at h
  split_ifs at h with h2 h3 h4
  all_goals
    simp only [Option.some.injEq, Prod.mk.injEq] at h
    omega

theorem leadWidth_two {lead : UInt8} (h : 0xC2 ≤ lead.toNat ∧ lead.toNat ≤ 0xDF) :
    leadWidth lead = some (2, lead.toNat - 0xC0) := by
  have hmask (n : Nat) : n &&& 0x1F = n % 32 := Nat.and_two_pow_sub_one_eq_mod _ 5
  unfold leadWidth
  simp only [Bool.and_eq_true, decide_eq_true_eq, UInt8.le_iff_toNat_le, UInt8.reduceToNat]
  rw [if_pos h, hmask, show lead.toNat % 32 = lead.toNat - 0xC0 by omega]

theorem leadWidth_three {lead : UInt8} (h : 0xE0 ≤ lead.toNat ∧ lead.toNat ≤ 0xEF) :
    leadWidth lead = some (3, lead.toNat - 0xE0) := by
  have hmask (n : Nat) : n &&& 0x0F = n % 16 := Nat.and_two_pow_sub_one_eq_mod _ 4
  unfold leadWidth
  simp only [Bool.and_eq_true, decide_eq_true_eq, UInt8.le_iff_toNat_le, UInt8.reduceToNat]
  rw [if_neg (by omega), if_pos h, hmask,
    show lead.toNat % 16 = lead.toNat - 0xE0 by omega]

theorem leadWidth_four {lead : UInt8} (h : 0xF0 ≤ lead.toNat ∧ lead.toNat ≤ 0xF4) :
    leadWidth lead = some (4, lead.toNat - 0xF0) := by
  have hmask (n : Nat) : n &&& 0x07 = n % 8 := Nat.and_two_pow_sub_one_eq_mod _ 3
  unfold leadWidth
  simp only [Bool.and_eq_true, decide_eq_true_eq, UInt8.le_iff_toNat_le, UInt8.reduceToNat]
  rw [if_neg (by omega), if_neg (by omega), if_pos h, hmask,
    show lead.toNat % 8 = lead.toNat - 0xF0 by omega]

theorem nonCanonical_eq_false_iff (width codePoint : Nat) :
    nonCanonical width codePoint = false ↔
      ¬(width = 3 ∧ codePoint < 0x800) ∧ ¬(width = 4 ∧ codePoint < 0x10000) ∧
        ¬(0xD800 ≤ codePoint ∧ codePoint ≤ 0xDFFF) ∧ codePoint ≤ 0x10FFFF := by
  rw [Bool.eq_false_iff]
  simp only [nonCanonical, ne_eq, Bool.or_eq_true, Bool.and_eq_true, beq_iff_eq,
    decide_eq_true_eq]
  omega

/-! ## Decoding against encoding -/

/-- What a decoder has to find in front of it in order to read `codePoint`
from a sequence of more than one byte. -/
structure Sequence (lead : UInt8) (continuations : Bytes) (codePoint : Nat) : Prop where
  width : ∃ bits, leadWidth lead = some (continuations.length + 1, bits) ∧
    continuations.foldl pushContinuation bits = codePoint
  continuation : ∀ b ∈ continuations, isContinuation b = true
  canonical : nonCanonical (continuations.length + 1) codePoint = false

theorem toNat_bounds (c : Char) :
    c.toNat < 0xD800 ∨ 0xDFFF < c.toNat ∧ c.toNat < 0x110000 := by
  have := c.valid
  simp only [UInt32.isValidChar, Nat.isValidChar] at this
  have hval : c.val.toNat = c.toNat := rfl
  omega

private theorem toNat_ofNat_lt {n : Nat} (h : n < 256) : (UInt8.ofNat n).toNat = n := by
  rw [UInt8.toNat_ofNat']
  exact Nat.mod_eq_of_lt h

/-- An ASCII character is its own encoding. -/
theorem encode_ascii {c : Char} (h : c.toNat < 0x80) :
    String.utf8EncodeChar c = [UInt8.ofNat c.toNat] := by
  unfold String.utf8EncodeChar
  have hval : c.val.toNat = c.toNat := rfl
  rw [hval]
  exact if_pos (by omega)

/-- The steps of a decoder accept the encoding of a character from U+0080 on
and give its value back. -/
theorem sequence_encode {c : Char} (h : 0x80 ≤ c.toNat) :
    ∃ lead continuations, String.utf8EncodeChar c = lead :: continuations ∧
      Sequence lead continuations c.toNat := by
  have hbounds := toNat_bounds c
  unfold String.utf8EncodeChar
  have hval : c.val.toNat = c.toNat := rfl
  simp only [hval]
  rw [if_neg (by omega)]
  split_ifs with h2 h3
  · refine ⟨_, _, rfl, ⟨_, leadWidth_two ?_, ?_⟩, ?_, ?_⟩
    · rw [toNat_ofNat_lt (by omega)]
      omega
    · simp only [List.foldl_cons, List.foldl_nil, pushContinuation_eq]
      rw [toNat_ofNat_lt (by omega), toNat_ofNat_lt (by omega)]
      omega
    · simp only [List.mem_singleton, forall_eq, isContinuation_iff]
      rw [toNat_ofNat_lt (by omega)]
      omega
    · rw [nonCanonical_eq_false_iff, List.length_singleton]
      omega
  · refine ⟨_, _, rfl, ⟨_, leadWidth_three ?_, ?_⟩, ?_, ?_⟩
    · rw [toNat_ofNat_lt (by omega)]
      omega
    · simp only [List.foldl_cons, List.foldl_nil, pushContinuation_eq]
      rw [toNat_ofNat_lt (by omega), toNat_ofNat_lt (by omega), toNat_ofNat_lt (by omega)]
      omega
    · simp only [List.mem_cons, List.not_mem_nil, or_false, forall_eq_or_imp, forall_eq,
        isContinuation_iff]
      rw [toNat_ofNat_lt (by omega), toNat_ofNat_lt (by omega)]
      omega
    · rw [nonCanonical_eq_false_iff]
      simp only [List.length_cons, List.length_nil]
      omega
  · refine ⟨_, _, rfl, ⟨_, leadWidth_four ?_, ?_⟩, ?_, ?_⟩
    · rw [toNat_ofNat_lt (by omega)]
      omega
    · simp only [List.foldl_cons, List.foldl_nil, pushContinuation_eq]
      rw [toNat_ofNat_lt (by omega), toNat_ofNat_lt (by omega), toNat_ofNat_lt (by omega),
        toNat_ofNat_lt (by omega)]
      omega
    · simp only [List.mem_cons, List.not_mem_nil, or_false, forall_eq_or_imp, forall_eq,
        isContinuation_iff]
      rw [toNat_ofNat_lt (by omega), toNat_ofNat_lt (by omega), toNat_ofNat_lt (by omega)]
      omega
    · rw [nonCanonical_eq_false_iff]
      simp only [List.length_cons, List.length_nil]
      omega

theorem exists_char {n : Nat} (h : n < 0xD800 ∨ 0xDFFF < n ∧ n < 0x110000) :
    ∃ c : Char, c.toNat = n :=
  have hvalid : n.isValidChar := by
    unfold Nat.isValidChar
    omega
  ⟨Char.ofNat n, by
    rw [Char.ofNat, dif_pos hvalid]
    rfl⟩

private theorem ofNat_eq_of {b : UInt8} {n : Nat} (h : n = b.toNat) : UInt8.ofNat n = b := by
  rw [h, UInt8.ofNat_toNat]

/-- Whatever the steps of a decoder accept is the encoding of a character. -/
theorem encode_decode {lead : UInt8} {continuations : Bytes} {codePoint : Nat}
    (h : Sequence lead continuations codePoint) :
    ∃ c : Char, c.toNat = codePoint ∧ 0x80 ≤ c.toNat ∧
      String.utf8EncodeChar c = lead :: continuations := by
  obtain ⟨⟨bits, hwidth, hfold⟩, hcont, hcanon⟩ := h
  rw [nonCanonical_eq_false_iff] at hcanon
  obtain ⟨c, hc⟩ := exists_char (n := codePoint) (by omega)
  refine ⟨c, hc, ?_⟩
  have hval : c.val.toNat = codePoint := hc
  rw [hc]
  unfold String.utf8EncodeChar
  simp only [hval]
  rcases leadWidth_cases hwidth with ⟨hw, hlo, hhi, hbits⟩ | ⟨hw, hlo, hhi, hbits⟩ |
    ⟨hw, hlo, hhi, hbits⟩
  · match continuations, hw with
    | [b], _ =>
      simp only [List.mem_singleton, forall_eq, isContinuation_iff] at hcont
      simp only [List.foldl_cons, List.foldl_nil, pushContinuation_eq] at hfold
      rw [if_neg (by omega), if_pos (by omega), ofNat_eq_of (b := lead) (by omega),
        ofNat_eq_of (b := b) (by omega)]
      exact ⟨by omega, rfl⟩
  · match continuations, hw with
    | [b, b'], _ =>
      simp only [List.mem_cons, List.not_mem_nil, or_false, forall_eq_or_imp, forall_eq,
        isContinuation_iff] at hcont
      simp only [List.foldl_cons, List.foldl_nil, pushContinuation_eq] at hfold
      simp only [List.length_cons, List.length_nil, Nat.reduceAdd, true_and] at hcanon
      rw [if_neg (by omega), if_neg (by omega), if_pos (by omega),
        ofNat_eq_of (b := lead) (by omega), ofNat_eq_of (b := b) (by omega),
        ofNat_eq_of (b := b') (by omega)]
      exact ⟨by omega, rfl⟩
  · match continuations, hw with
    | [b, b', b''], _ =>
      simp only [List.mem_cons, List.not_mem_nil, or_false, forall_eq_or_imp, forall_eq,
        isContinuation_iff] at hcont
      simp only [List.foldl_cons, List.foldl_nil, pushContinuation_eq] at hfold
      simp only [List.length_cons, List.length_nil, Nat.reduceAdd, true_and] at hcanon
      rw [if_neg (by omega), if_neg (by omega), if_neg (by omega),
        ofNat_eq_of (b := lead) (by omega), ofNat_eq_of (b := b) (by omega),
        ofNat_eq_of (b := b') (by omega), ofNat_eq_of (b := b'') (by omega)]
      exact ⟨by omega, rfl⟩

end MissionWeave.Utf8
