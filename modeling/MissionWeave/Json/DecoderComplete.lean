import MissionWeave.Json.DecoderSound

/-!
# What is in the grammar is accepted by the reader

The converse of `Json.DecoderSound`.  A piece of the grammar in front of
anything that does not go on with it is taken off the text, and the value it
denotes is returned.  Only a number can be gone on with, so `Follows` is about
the bytes that a number may contain.

The induction is on the derivation.  The fuel is bounded by the length of the
text: `value_complete` needs three calls for each byte.
-/

namespace MissionWeave.Decoder

open StrictScanner (isWhitespace isExponentMarker isSign isHighSurrogate isLowSurrogate
  combineSurrogates simpleEscape? maximumDepth)

/-! ## What may follow -/

/-- The text does not start with a byte that satisfies `p`. -/
def StartsNot (p : UInt8 → Bool) (rest : Bytes) : Prop := rest.head?.any p = false

theorem StartsNot.nil (p : UInt8 → Bool) : StartsNot p [] := rfl

theorem startsNot_cons {p : UInt8 → Bool} {b : UInt8} {rest : Bytes} :
    StartsNot p (b :: rest) ↔ p b = false := Iff.rfl

theorem takeWhile_append {p : UInt8 → Bool} {bs rest : Bytes} (h : ∀ b ∈ bs, p b = true)
    (hrest : StartsNot p rest) : (bs ++ rest).takeWhile p = bs := by
  rw [List.takeWhile_append_of_pos h]
  cases rest with
  | nil => simp
  | cons b rest =>
    rw [List.takeWhile_cons_of_neg (by simpa using startsNot_cons.mp hrest), List.append_nil]

theorem dropWhile_append {p : UInt8 → Bool} {bs rest : Bytes} (h : ∀ b ∈ bs, p b = true)
    (hrest : StartsNot p rest) : (bs ++ rest).dropWhile p = rest := by
  rw [List.dropWhile_append_of_pos h]
  cases rest with
  | nil => rfl
  | cons b rest => rw [List.dropWhile_cons_of_neg (by simpa using startsNot_cons.mp hrest)]

theorem skipWhitespace_append {w rest : Bytes} (hw : Whitespace w)
    (hrest : StartsNot isWhitespace rest) : skipWhitespace (w ++ rest) = rest :=
  dropWhile_append (fun b hb => (isWhitespace_iff b).mpr (hw b hb)) hrest

theorem byte_cons (b : UInt8) (rest : Bytes) : byte b (b :: rest) = some rest :=
  byte_eq_some.mpr rfl

theorem byte_eq_none {b : UInt8} {rest : Bytes} (h : StartsNot (· == b) rest) :
    byte b rest = none := by
  cases rest with
  | nil => rfl
  | cons c rest => rw [byte, if_neg (by simpa using startsNot_cons.mp h)]

/-- A byte that can go on with a number. -/
def continuesNumber (b : UInt8) : Bool :=
  Ascii.isDigit b || b == Ascii.point || isExponentMarker b

/-- The text does not go on with a number in front of it. -/
abbrev Follows (rest : Bytes) : Prop := StartsNot continuesNumber rest

theorem StartsNot.imp {p q : UInt8 → Bool} (hpq : ∀ b, q b = true → p b = true) {rest : Bytes}
    (h : StartsNot p rest) : StartsNot q rest := by
  cases rest with
  | nil => rfl
  | cons b rest =>
    rw [startsNot_cons, Bool.eq_false_iff] at h ⊢
    exact fun hq => h (hpq b hq)

/-! ## Numbers -/

theorem digits_complete {ds rest : Bytes} (h : Digits ds) (hrest : StartsNot Ascii.isDigit rest) :
    digits (ds ++ rest) = some (ds, rest) := by
  rw [digits, takeWhile_append h.2 hrest, dropWhile_append h.2 hrest, if_neg h.1]

theorem exponent_complete {e : Option ExponentText} {rest : Bytes} (h : ∀ x ∈ e, x.Valid)
    (hrest : Follows rest) : exponent (renderExponent e ++ rest) = some (e, rest) := by
  cases e with
  | none =>
    cases rest with
    | nil => rfl
    | cons b rest =>
      have hmarker : isExponentMarker b = false :=
        startsNot_cons.mp (hrest.imp fun c hc => by simp [continuesNumber, hc])
      rw [renderExponent, List.nil_append, exponent,
        if_neg (by rw [hmarker]; exact Bool.false_ne_true)]
  | some e =>
    obtain ⟨hmarker, hsign, hdigits⟩ := h e rfl
    have hafter : digits (e.digits ++ rest) = some (e.digits, rest) :=
      digits_complete hdigits (hrest.imp fun c hc => by simp [continuesNumber, hc])
    have hsplit : exponentSign (e.sign.toList ++ (e.digits ++ rest)) =
        (e.sign, e.digits ++ rest) := by
      cases hs : e.sign with
      | some s =>
        have hisSign : isSign s = true := by
          rcases hsign s hs with rfl | rfl <;> rfl
        rw [Option.toList_some, List.singleton_append, exponentSign, if_pos hisSign]
      | none =>
        obtain ⟨d, ds, hds⟩ := List.exists_cons_of_ne_nil hdigits.1
        have hd : Ascii.isDigit d = true := hdigits.2 d (by rw [hds]; exact List.mem_cons_self)
        have hnot : ¬isSign d = true := by
          intro hsign
          simp only [isSign, Bool.or_eq_true, beq_iff_eq] at hsign
          rcases hsign with rfl | rfl <;> cases hd
        rw [hds, Option.toList_none, List.nil_append, List.cons_append, exponentSign, if_neg hnot]
    have hisMarker : isExponentMarker e.marker = true := by
      rcases hmarker with h | h <;> rw [h] <;> rfl
    rw [renderExponent, ExponentText.render, List.cons_append, List.append_assoc, exponent,
      if_pos hisMarker, hsplit, hafter]
    rfl

theorem startsNot_renderExponent {p : UInt8 → Bool} {e : Option ExponentText} {rest : Bytes}
    (h : ∀ x ∈ e, x.Valid) (hlower : p Ascii.lowerE = false) (hupper : p Ascii.upperE = false)
    (hrest : StartsNot p rest) : StartsNot p (renderExponent e ++ rest) := by
  cases e with
  | none => exact hrest
  | some e =>
    rw [renderExponent, ExponentText.render, List.cons_append, startsNot_cons]
    rcases (h e rfl).marker with h | h <;> rwa [h]

theorem fraction_complete {f : Option Bytes} {rest : Bytes} (h : ∀ ds ∈ f, Digits ds)
    (hdigit : StartsNot Ascii.isDigit rest) (hpoint : StartsNot (· == Ascii.point) rest) :
    fraction (renderFraction f ++ rest) = some (f, rest) := by
  cases f with
  | none => rw [renderFraction, List.nil_append, fraction, byte_eq_none hpoint]
  | some ds =>
    rw [renderFraction, List.cons_append, fraction, byte_cons]
    dsimp only
    rw [digits_complete (h ds rfl) hdigit]
    rfl

theorem startsNot_renderFraction {p : UInt8 → Bool} {f : Option Bytes} {rest : Bytes}
    (hpoint : p Ascii.point = false) (hrest : StartsNot p rest) :
    StartsNot p (renderFraction f ++ rest) := by
  cases f with
  | none => exact hrest
  | some ds => exact hpoint

theorem integer_complete {ds rest : Bytes} (h : IntegerPart ds)
    (hdigit : StartsNot Ascii.isDigit rest) : integer (ds ++ rest) = some (ds, rest) := by
  rcases h with rfl | ⟨hdigits, hhead⟩
  · rw [List.singleton_append, integer, if_pos rfl,
      if_neg (by rw [hdigit]; exact Bool.false_ne_true)]
  · obtain ⟨d, ds, rfl⟩ := List.exists_cons_of_ne_nil hdigits.1
    have hzero : d ≠ Ascii.zero := fun h => hhead (by rw [List.head?_cons, h])
    rw [List.cons_append, integer, if_neg hzero, ← List.cons_append]
    exact digits_complete hdigits hdigit

theorem digits_of_integerPart {ds : Bytes} (h : IntegerPart ds) : Digits ds := by
  rcases h with rfl | h
  · exact ⟨by simp, by simp; decide⟩
  · exact h.1

theorem number_complete {n : NumberText} {rest : Bytes} (h : n.Valid) (hrest : Follows rest) :
    number (n.render ++ rest) = some (n, rest) := by
  have hdigit : StartsNot Ascii.isDigit (renderExponent n.exponent ++ rest) :=
    startsNot_renderExponent h.exponent rfl rfl
      (hrest.imp fun c hc => by simp [continuesNumber, hc])
  have hpoint : StartsNot (· == Ascii.point) (renderExponent n.exponent ++ rest) :=
    startsNot_renderExponent h.exponent rfl rfl
      (hrest.imp fun c hc => by
        rw [beq_iff_eq] at hc
        rw [hc]
        rfl)
  have hsign : sign (n.render ++ rest) = (n.negative, n.integer ++
      (renderFraction n.fraction ++ (renderExponent n.exponent ++ rest))) := by
    rw [NumberText.render]
    simp only [List.append_assoc]
    cases hn : n.negative with
    | true => rfl
    | false =>
      obtain ⟨d, ds, hds⟩ := List.exists_cons_of_ne_nil (digits_of_integerPart h.integer).1
      have hd : Ascii.isDigit d = true :=
        (digits_of_integerPart h.integer).2 d (by rw [hds]; exact List.mem_cons_self)
      have hnot : d ≠ Ascii.minus := by
        rintro rfl
        cases hd
      rw [hds, if_neg Bool.false_ne_true, List.nil_append, List.cons_append, sign, if_neg hnot]
  rw [number, hsign]
  dsimp only
  rw [integer_complete h.integer (startsNot_renderFraction rfl hdigit), Option.bind_eq_bind,
    Option.bind_some]
  dsimp only
  rw [fraction_complete h.fraction hdigit hpoint, Option.bind_eq_bind, Option.bind_some]
  dsimp only
  rw [exponent_complete h.exponent hrest]
  rfl

/-! ## Strings -/

theorem hexQuad_complete {quad : Bytes} {v : Nat} (h : hexQuad? quad = some v) (rest : Bytes) :
    hexQuad (quad ++ rest) = some (v, rest) := by
  match quad, h with
  | [a, b, c, d], h =>
    simp only [List.cons_append, List.nil_append]
    rw [hexQuad, h]
    rfl

theorem toNat_not_surrogate (c : Char) :
    isHighSurrogate c.toNat = false ∧ isLowSurrogate c.toNat = false := by
  have hbounds := Utf8.toNat_bounds c
  rw [Bool.eq_false_iff, Bool.eq_false_iff, ne_eq, ne_eq, isHighSurrogate_iff, isLowSurrogate_iff]
  omega

theorem unicodeEscape_complete {quad : Bytes} {c : Char} (h : hexQuad? quad = some c.toNat)
    (rest : Bytes) : unicodeEscape (quad ++ rest) = some (String.utf8EncodeChar c, rest) := by
  obtain ⟨hhigh, hlow⟩ := toNat_not_surrogate c
  rw [unicodeEscape, hexQuad_complete h, Option.bind_eq_bind, Option.bind_some]
  dsimp only
  rw [if_neg (by rw [hhigh]; exact Bool.false_ne_true),
    if_neg (by rw [hlow]; exact Bool.false_ne_true), Utf8.append_eq_encode]

theorem surrogates_complete {high low : Bytes} {first second : Nat} {c : Char}
    (hfirst : hexQuad? high = some first) (hsecond : hexQuad? low = some second)
    (hhigh : 0xD800 ≤ first ∧ first ≤ 0xDBFF) (hlow : 0xDC00 ≤ second ∧ second ≤ 0xDFFF)
    (hpair : c.toNat = 0x10000 + (first - 0xD800) * 0x400 + (second - 0xDC00)) (rest : Bytes) :
    unicodeEscape (high ++ Ascii.backslash :: Ascii.lowerU :: (low ++ rest)) =
      some (String.utf8EncodeChar c, rest) := by
  have hescape : secondEscape (Ascii.backslash :: Ascii.lowerU :: (low ++ rest)) =
      some (second, rest) := by
    rw [secondEscape, byte_cons, Option.bind_eq_bind, Option.bind_some, byte_cons,
      Option.bind_some]
    exact hexQuad_complete hsecond rest
  rw [unicodeEscape, hexQuad_complete hfirst, Option.bind_eq_bind, Option.bind_some]
  dsimp only
  rw [if_pos ((isHighSurrogate_iff _).mpr hhigh), hescape, Option.bind_some]
  dsimp only
  rw [if_pos ((isLowSurrogate_iff _).mpr hlow), combineSurrogates_eq, ← hpair,
    Utf8.append_eq_encode]

theorem simpleEscape?_complete {letter : UInt8} {c : Char} (h : escapedChar? letter = some c) :
    simpleEscape? letter = some (UInt8.ofNat c.toNat) ∧
      String.utf8EncodeChar c = [UInt8.ofNat c.toNat] := by
  rw [escapedChar?] at h
  split_ifs at h <;>
  · rw [Option.some.injEq] at h
    subst h letter
    decide

/-- The first byte of a sequence of more than one byte is no ASCII character. -/
theorem lead_ge_of_sequence {lead : UInt8} {continuations : Bytes} {v : Nat}
    (h : Utf8.Sequence lead continuations v) : 0x80 ≤ lead := by
  obtain ⟨bits, hwidth, -⟩ := h.width
  rw [UInt8.le_iff_toNat_le]
  change 0x80 ≤ lead.toNat
  rcases Utf8.leadWidth_cases hwidth with h | h | h <;> omega

theorem codePoint_complete {lead : UInt8} {continuations : Bytes} {v : Nat}
    (h : Utf8.Sequence lead continuations v) (rest : Bytes) :
    codePoint (lead :: (continuations ++ rest)) = some (v, rest) := by
  obtain ⟨⟨bits, hwidth, hfold⟩, hcont, hcanon⟩ := h
  rw [codePoint, hwidth, Option.bind_eq_bind, Option.bind_some]
  dsimp only
  rw [Nat.add_sub_cancel, List.take_left, List.drop_left,
    if_pos ⟨rfl, List.all_eq_true.mpr hcont⟩, hfold,
    if_neg (by rw [hcanon]; exact Bool.false_ne_true)]

variable {fuel : Nat} {decoded : Bytes}

theorem stringLoop_ascii {b : UInt8} {rest : Bytes} (hquote : b ≠ Ascii.quote)
    (hescape : b ≠ Ascii.backslash) (hcontrol : ¬b < 0x20) (hascii : b < 0x80) :
    stringLoop (fuel + 1) decoded (b :: rest) = stringLoop fuel (decoded ++ [b]) rest := by
  rw [stringLoop, if_neg hquote, if_neg hescape, if_neg hcontrol, if_pos hascii]

theorem stringLoop_escape {appended rest after : Bytes} (h : escape rest = some (appended, after)) :
    stringLoop (fuel + 1) decoded (Ascii.backslash :: rest) =
      stringLoop fuel (decoded ++ appended) after := by
  rw [stringLoop, if_neg (by decide), if_pos rfl, h]
  rfl

theorem stringLoop_sequence {lead : UInt8} {continuations rest : Bytes} {c : Char}
    (h : Utf8.Sequence lead continuations c.toNat) :
    stringLoop (fuel + 1) decoded (lead :: (continuations ++ rest)) =
      stringLoop fuel (decoded ++ String.utf8EncodeChar c) rest := by
  have hge : 0x80 ≤ lead.toNat := lead_ge_of_sequence h
  have hne (b : UInt8) (hb : b.toNat < 0x80) : lead ≠ b := by
    rintro rfl
    omega
  have hcontrol : ¬lead < 0x20 := by
    rw [UInt8.lt_iff_toNat_lt]
    change ¬lead.toNat < 0x20
    omega
  have hascii : ¬lead < 0x80 := by
    rw [UInt8.lt_iff_toNat_lt]
    change ¬lead.toNat < 0x80
    omega
  rw [stringLoop, if_neg (hne _ (by decide)), if_neg (hne _ (by decide)), if_neg hcontrol,
    if_neg hascii, codePoint_complete h, Option.bind_eq_bind, Option.bind_some]
  dsimp only
  rw [Utf8.append_eq_encode]

/-- One round of the loop takes one `char`. -/
theorem stringLoop_char {t rest : Bytes} {c : Char} (h : CharText t c) :
    stringLoop (fuel + 1) decoded (t ++ rest) =
      stringLoop fuel (decoded ++ String.utf8EncodeChar c) rest := by
  cases h with
  | unescaped control quote backslash =>
    by_cases hascii : c.toNat < 0x80
    · have hval : (UInt8.ofNat c.toNat).toNat = c.toNat := by
        rw [UInt8.toNat_ofNat']
        omega
      have hne (d : Char) (hd : d.toNat < 0x80) (hcd : c ≠ d) :
          UInt8.ofNat c.toNat ≠ UInt8.ofNat d.toNat := by
        intro heq
        have hnat := congrArg UInt8.toNat heq
        rw [UInt8.toNat_ofNat', UInt8.toNat_ofNat'] at hnat
        exact hcd (Char.toNat_inj.mp (by omega))
      rw [Utf8.encode_ascii hascii, List.singleton_append]
      refine stringLoop_ascii (hne _ (by decide) quote) (hne _ (by decide) backslash) ?_ ?_
      · rw [UInt8.lt_iff_toNat_lt, hval]
        exact Nat.not_lt.mpr control
      · rwa [UInt8.lt_iff_toNat_lt, hval]
    · obtain ⟨lead, continuations, hencode, hsequence⟩ :=
        Utf8.sequence_encode (Nat.not_lt.mp hascii)
      rw [hencode, List.cons_append, ← hencode]
      exact stringLoop_sequence hsequence
  | @escape letter c letter_eq =>
    obtain ⟨hsimple, hencode⟩ := simpleEscape?_complete letter_eq
    refine stringLoop_escape ?_
    change escape (letter :: rest) = _
    rw [escape, hsimple, hencode]
  | @unicode quad c quad_eq =>
    refine stringLoop_escape ?_
    change escape (Ascii.lowerU :: (quad ++ rest)) = _
    rw [escape, show simpleEscape? Ascii.lowerU = none by decide]
    exact unicodeEscape_complete quad_eq rest
  | @surrogates high low _ _ c high_eq low_eq first_high second_low pair =>
    refine stringLoop_escape ?_
    change escape (Ascii.lowerU :: ((high ++ Ascii.backslash :: Ascii.lowerU :: low) ++ rest)) = _
    rw [escape, show simpleEscape? Ascii.lowerU = none by decide, List.append_assoc,
      List.cons_append, List.cons_append]
    exact surrogates_complete high_eq low_eq first_high second_low pair rest

theorem stringLoop_complete {t rest : Bytes} {cs : List Char} (h : StringText t cs)
    (hfuel : cs.length < fuel) :
    stringLoop fuel decoded (t ++ Ascii.quote :: rest) =
      some (decoded ++ Utf8.encodeAll cs, rest) := by
  induction h generalizing fuel decoded with
  | nil =>
    obtain ⟨fuel, rfl⟩ : ∃ n, fuel = n + 1 := ⟨fuel - 1, by omega⟩
    rw [List.nil_append, stringLoop, if_pos rfl, Utf8.encodeAll_nil, List.append_nil]
  | cons head tail ih =>
    rw [List.length_cons] at hfuel
    obtain ⟨fuel, rfl⟩ : ∃ n, fuel = n + 1 := ⟨fuel - 1, by omega⟩
    rw [List.append_assoc, stringLoop_char head, ih (by omega), Utf8.encodeAll_cons,
      List.append_assoc]

theorem utf8EncodeChar_length_pos (c : Char) : 0 < (String.utf8EncodeChar c).length := by
  unfold String.utf8EncodeChar
  dsimp only
  split_ifs <;> simp

theorem charText_length_pos {t : Bytes} {c : Char} (h : CharText t c) : 0 < t.length := by
  cases h with
  | unescaped => exact utf8EncodeChar_length_pos c
  | _ => simp

theorem stringText_length_le {t : Bytes} {cs : List Char} (h : StringText t cs) :
    cs.length ≤ t.length := by
  induction h with
  | nil => exact le_refl _
  | cons head tail ih =>
    have := charText_length_pos head
    rw [List.length_cons, List.length_append]
    omega

theorem string_complete {loop : Nat} {t rest : Bytes} {cs : List Char} (h : StringText t cs)
    (hloop : t.length < loop) :
    string loop (Ascii.quote :: (t ++ Ascii.quote :: rest)) =
      some (Utf8.encodeAll cs, rest) := by
  have := stringText_length_le h
  rw [string, byte_cons, Option.bind_eq_bind, Option.bind_some,
    stringLoop_complete h (by omega), List.nil_append]

/-! ## Values -/

theorem follows_append {w rest : Bytes} (hw : Whitespace w) (hrest : Follows rest) :
    Follows (w ++ rest) := by
  cases w with
  | nil => exact hrest
  | cons b w =>
    rcases hw b List.mem_cons_self with rfl | rfl | rfl | rfl <;> rfl

/-- A number starts with its sign or a digit. -/
theorem numberText_head {n : NumberText} (h : n.Valid) :
    ∃ b t, n.render = b :: t ∧ (b = Ascii.minus ∨ Ascii.isDigit b = true) := by
  rw [NumberText.render]
  cases n.negative with
  | true => exact ⟨_, _, rfl, Or.inl rfl⟩
  | false =>
    have hint := digits_of_integerPart h.integer
    obtain ⟨d, ds, hds⟩ := List.exists_cons_of_ne_nil hint.1
    refine ⟨d, _, by rw [hds]; rfl, Or.inr (hint.2 d ?_)⟩
    rw [hds]
    exact List.mem_cons_self

/-- A byte that a value can start with. -/
def startsValue (b : UInt8) : Bool :=
  b == Ascii.leftBrace || b == Ascii.leftBracket || b == Ascii.quote || b == Ascii.lowerT ||
    b == Ascii.lowerF || b == Ascii.lowerN || b == Ascii.minus || Ascii.isDigit b

private theorem startsValue_nat : ∀ n, n < 256 → startsValue (UInt8.ofNat n) = true →
    isWhitespace (UInt8.ofNat n) = false ∧ UInt8.ofNat n ≠ Ascii.rightBracket := by
  decide +kernel

theorem startsValue_spec {b : UInt8} (h : startsValue b = true) :
    isWhitespace b = false ∧ b ≠ Ascii.rightBracket := by
  have hspec := startsValue_nat b.toNat b.toNat_lt
  rw [UInt8.ofNat_toNat] at hspec
  exact hspec h

theorem valueText_head {t : Bytes} {v : Json} (h : ValueText t v) :
    ∃ b t', t = b :: t' ∧ startsValue b = true := by
  cases h with
  | number n valid =>
    obtain ⟨b, t, heq, hb⟩ := numberText_head valid
    refine ⟨b, t, heq, ?_⟩
    rcases hb with rfl | hb
    · rfl
    · rw [startsValue, hb, Bool.or_true]
  | _ => exact ⟨_, _, rfl, rfl⟩

theorem byte_skipWhitespace {b : UInt8} {w rest : Bytes} (hw : Whitespace w)
    (hb : isWhitespace b = false) :
    byte b (skipWhitespace (w ++ b :: rest)) = some rest := by
  rw [skipWhitespace_append hw (startsNot_cons.mpr hb), byte_cons]

theorem byte_skipWhitespace_none {b c : UInt8} {w rest : Bytes} (hw : Whitespace w)
    (hc : isWhitespace c = false) (hne : c ≠ b) :
    byte b (skipWhitespace (w ++ c :: rest)) = none := by
  rw [skipWhitespace_append hw (startsNot_cons.mpr hc), byte, if_neg hne]

/-- The reader takes the text off, wherever it stands. -/
def Reads (loop : Nat) (t : Bytes) (v : Json) : Prop :=
  ∀ (fuel depth : Nat) (w rest : Bytes), Whitespace w → v.nesting + depth ≤ maximumDepth →
    3 * t.length ≤ fuel → t.length < loop → Follows rest →
      value loop fuel depth (w ++ (t ++ rest)) = some (v, rest)

variable {loop depth : Nat}

/-- The reader takes the text off before whitespace and a delimiter. -/
theorem Reads.before {t : Bytes} {v : Json} (h : Reads loop t v) (fuel : Nat) {w w' : Bytes}
    (hw : Whitespace w) (hw' : Whitespace w') (hnesting : v.nesting + depth ≤ maximumDepth)
    (hfuel : 3 * t.length ≤ fuel) (hloop : t.length < loop) (b : UInt8) (rest : Bytes)
    (hb : continuesNumber b = false) :
    value loop fuel depth (w ++ (t ++ (w' ++ b :: rest))) = some (v, w' ++ b :: rest) :=
  h _ _ _ _ hw hnesting hfuel hloop (follows_append hw' (startsNot_cons.mpr hb))

theorem commaSeparated_head (item : Bytes) (items : List Bytes) :
    ∃ more, commaSeparated (item :: items) = item ++ more := by
  cases items with
  | nil => exact ⟨[], (List.append_nil _).symm⟩
  | cons next items => exact ⟨_, rfl⟩

/-- One element is read, and then the rest of the array. -/
theorem element_complete {e : ElementText} {b : UInt8} {tail : Bytes}
    (hspace : Whitespace e.before ∧ Whitespace e.after) (hread : Reads loop e.text e.value)
    (hnesting : e.value.nesting + depth ≤ maximumDepth) (hfuel : 3 * e.render.length ≤ fuel)
    (hloop : e.render.length < loop) (hb : b = Ascii.rightBracket ∨ b = Ascii.comma) :
    elements loop (fuel + 1) depth (e.render ++ b :: tail) =
      if b = Ascii.rightBracket then some ([e.value], tail)
      else (elements loop fuel depth tail).map fun read => (e.value :: read.1, read.2) := by
  obtain ⟨hbefore, hafter⟩ := hspace
  have hrender : e.render = e.before ++ (e.text ++ e.after) := rfl
  rw [hrender, List.length_append, List.length_append] at hfuel hloop
  rw [hrender, List.append_assoc, List.append_assoc, elements]
  have hvalue := hread.before fuel hbefore hafter hnesting (by omega) (by omega) b tail
  rcases hb with rfl | rfl
  · rw [hvalue rfl, Option.bind_eq_bind, Option.bind_some]
    dsimp only
    rw [byte_skipWhitespace hafter rfl, if_pos rfl]
  · rw [hvalue rfl, Option.bind_eq_bind, Option.bind_some]
    dsimp only
    rw [byte_skipWhitespace_none hafter rfl (by decide)]
    dsimp only
    rw [byte_skipWhitespace hafter rfl, Option.bind_eq_bind, Option.bind_some,
      if_neg (by decide)]
    cases elements loop fuel depth tail <;> rfl

theorem elements_complete {items : List ElementText} {rest : Bytes} (hnonempty : items ≠ [])
    (hspace : ∀ e ∈ items, Whitespace e.before ∧ Whitespace e.after)
    (hreads : ∀ e ∈ items, Reads loop e.text e.value)
    (hnesting : ∀ e ∈ items, e.value.nesting + depth ≤ maximumDepth)
    (hfuel : 3 * (commaSeparated (items.map (·.render))).length < fuel)
    (hloop : (commaSeparated (items.map (·.render))).length < loop) :
    elements loop fuel depth
        (commaSeparated (items.map (·.render)) ++ Ascii.rightBracket :: rest) =
      some (items.map (·.value), rest) := by
  induction items generalizing fuel with
  | nil => exact absurd rfl hnonempty
  | cons e items ih =>
    obtain ⟨fuel, rfl⟩ : ∃ n, fuel = n + 1 := ⟨fuel - 1, by omega⟩
    obtain ⟨hfirst, hspaces⟩ := List.forall_mem_cons.mp hspace
    obtain ⟨hread, hmore⟩ := List.forall_mem_cons.mp hreads
    obtain ⟨hnest, hnests⟩ := List.forall_mem_cons.mp hnesting
    by_cases hlast : items = []
    · subst hlast
      show elements loop (fuel + 1) depth (e.render ++ Ascii.rightBracket :: rest) = _
      have hlength : (commaSeparated [e.render]).length = e.render.length := rfl
      rw [List.map_singleton, hlength] at hfuel hloop
      rw [element_complete hfirst hread hnest (by omega) hloop (.inl rfl), if_pos rfl]
      rfl
    · have hmap : items.map (·.render) ≠ [] := by simpa using hlast
      rw [List.map_cons, commaSeparated_cons hmap, List.length_append,
        List.length_cons] at hfuel hloop
      rw [List.map_cons, commaSeparated_cons hmap, List.append_assoc, List.cons_append,
        element_complete hfirst hread hnest (by omega) (by omega) (.inr rfl), if_neg (by decide),
        ih hlast hspaces hmore hnests (by omega) (by omega)]
      rfl

/-- One member is read, and then the rest of the object. -/
theorem member_complete {m : MemberText} {names : List Bytes} {b : UInt8} {tail : Bytes}
    (hlexical : m.Lexical) (hread : Reads loop m.text m.value)
    (hnesting : m.value.nesting + depth ≤ maximumDepth) (hfresh : m.member.1 ∉ names)
    (hfuel : 3 * m.render.length ≤ fuel) (hloop : m.render.length < loop)
    (hb : b = Ascii.rightBrace ∨ b = Ascii.comma) :
    members loop (fuel + 1) depth names (m.render ++ b :: tail) =
      if b = Ascii.rightBrace then some ([m.member], tail)
      else (members loop fuel depth (m.member.1 :: names) tail).map
        fun read => (m.member :: read.1, read.2) := by
  obtain ⟨hbeforeName, hname, hafterName, hbeforeValue, hafterValue⟩ := hlexical
  have hrender (tail : Bytes) : m.render ++ tail =
      m.beforeName ++ Ascii.quote :: (m.nameText ++ Ascii.quote :: (m.afterName ++
        Ascii.colon :: (m.beforeValue ++ (m.text ++ (m.afterValue ++ tail))))) := by
    simp [MemberText.render]
  have hlength := congrArg List.length (hrender [])
  simp only [List.append_nil, List.length_append, List.length_cons] at hlength
  have hvalue := hread.before fuel hbeforeValue hafterValue hnesting (by omega) (by omega) b tail
  have hmember : m.member = (Utf8.encodeAll m.name, m.value) := rfl
  rw [hmember] at hfresh ⊢
  rw [hrender, members, skipWhitespace_append hbeforeName (startsNot_cons.mpr rfl),
    string_complete hname (by omega), Option.bind_eq_bind, Option.bind_some]
  dsimp only
  rw [if_neg hfresh, byte_skipWhitespace hafterName rfl, Option.bind_eq_bind, Option.bind_some]
  rcases hb with rfl | rfl
  · rw [hvalue rfl, Option.bind_eq_bind, Option.bind_some]
    dsimp only
    rw [byte_skipWhitespace hafterValue rfl, if_pos rfl]
  · rw [hvalue rfl, Option.bind_eq_bind, Option.bind_some]
    dsimp only
    rw [byte_skipWhitespace_none hafterValue rfl (by decide)]
    dsimp only
    rw [byte_skipWhitespace hafterValue rfl, Option.bind_eq_bind, Option.bind_some,
      if_neg (by decide)]
    cases members loop fuel depth (Utf8.encodeAll m.name :: names) tail <;> rfl

theorem members_complete {items : List MemberText} {names : List Bytes} {rest : Bytes}
    (hnonempty : items ≠ []) (hlexical : ∀ m ∈ items, m.Lexical)
    (hreads : ∀ m ∈ items, Reads loop m.text m.value)
    (hdistinct : (items.map (·.member.1)).Nodup) (hfresh : ∀ m ∈ items, m.member.1 ∉ names)
    (hnesting : ∀ m ∈ items, m.value.nesting + depth ≤ maximumDepth)
    (hfuel : 3 * (commaSeparated (items.map (·.render))).length < fuel)
    (hloop : (commaSeparated (items.map (·.render))).length < loop) :
    members loop fuel depth names
        (commaSeparated (items.map (·.render)) ++ Ascii.rightBrace :: rest) =
      some (items.map (·.member), rest) := by
  induction items generalizing fuel names with
  | nil => exact absurd rfl hnonempty
  | cons m items ih =>
    obtain ⟨fuel, rfl⟩ : ∃ n, fuel = n + 1 := ⟨fuel - 1, by omega⟩
    obtain ⟨hfirst, hlexicals⟩ := List.forall_mem_cons.mp hlexical
    obtain ⟨hread, hmore⟩ := List.forall_mem_cons.mp hreads
    obtain ⟨hnew, hnews⟩ := List.forall_mem_cons.mp hfresh
    obtain ⟨hnest, hnests⟩ := List.forall_mem_cons.mp hnesting
    by_cases hlast : items = []
    · subst hlast
      show members loop (fuel + 1) depth names (m.render ++ Ascii.rightBrace :: rest) = _
      have hlength : (commaSeparated [m.render]).length = m.render.length := rfl
      rw [List.map_singleton, hlength] at hfuel hloop
      rw [member_complete hfirst hread hnest hnew (by omega) hloop (.inl rfl), if_pos rfl]
      rfl
    · have hmap : items.map (·.render) ≠ [] := by simpa using hlast
      obtain ⟨hnotin, hnodup⟩ := List.nodup_cons.mp hdistinct
      have hnews : ∀ x ∈ items, x.member.1 ∉ m.member.1 :: names := by
        intro x hx hin
        rcases List.mem_cons.mp hin with heq | hin
        · exact hnotin (List.mem_map.mpr ⟨x, hx, heq⟩)
        · exact hnews x hx hin
      rw [List.map_cons, commaSeparated_cons hmap, List.length_append,
        List.length_cons] at hfuel hloop
      rw [List.map_cons, commaSeparated_cons hmap, List.append_assoc, List.cons_append,
        member_complete hfirst hread hnest hnew (by omega) (by omega) (.inr rfl),
        if_neg (by decide), ih hlast hlexicals hmore hnodup hnews hnests (by omega) (by omega)]
      rfl

theorem skipWhitespace_cons {b : UInt8} (hb : isWhitespace b = false) (rest : Bytes) :
    skipWhitespace (b :: rest) = b :: rest :=
  skipWhitespace_append (w := []) (by simp [Whitespace]) (startsNot_cons.mpr hb)

/-- It is enough to read a value from where it starts. -/
theorem Reads.of_start {b : UInt8} {t : Bytes} {v : Json} (hb : isWhitespace b = false)
    (h : ∀ fuel depth rest, v.nesting + depth ≤ maximumDepth → 3 * t.length + 2 ≤ fuel →
      t.length + 1 < loop → Follows rest →
        value loop (fuel + 1) depth (b :: (t ++ rest)) = some (v, rest)) :
    Reads loop (b :: t) v := by
  intro fuel depth w rest hw hnesting hfuel hloop hrest
  rw [List.length_cons] at hfuel hloop
  obtain ⟨fuel, rfl⟩ : ∃ n, fuel = n + 1 := ⟨fuel - 1, by omega⟩
  rw [← value_skipWhitespace, List.cons_append, skipWhitespace_append hw (startsNot_cons.mpr hb)]
  exact h fuel depth rest hnesting (by omega) hloop hrest

theorem literal_complete {text rest : Bytes} {v : Json} :
    literal text v (text ++ rest) = some (v, rest) := by
  rw [literal, List.take_left, if_pos rfl, List.drop_left]

theorem value_number {n : NumberText} {rest : Bytes} (h : n.Valid)
    (hdepth : depth ≤ maximumDepth) (hrest : Follows rest) :
    value loop (fuel + 1) depth (n.render ++ rest) = some (n.toJson, rest) := by
  obtain ⟨b, t, heq, hb⟩ := numberText_head h
  have hne (c : UInt8) (hminus : c ≠ Ascii.minus) (hdigit : Ascii.isDigit c = false) : b ≠ c := by
    rintro rfl
    rcases hb with hb | hb
    · exact hminus hb
    · rw [hdigit] at hb
      cases hb
  have hspace : isWhitespace b = false := by
    rw [Bool.eq_false_iff, ne_eq, isWhitespace_iff]
    rintro (h | h | h | h) <;> exact hne _ (by decide) rfl h
  have hnumber := number_complete h hrest
  rw [heq, List.cons_append] at hnumber ⊢
  rw [value, if_neg (by omega), skipWhitespace_cons hspace]
  dsimp only
  rw [if_neg (hne _ (by decide) rfl), if_neg (hne _ (by decide) rfl),
    if_neg (hne _ (by decide) rfl), if_neg (hne _ (by decide) rfl),
    if_neg (hne _ (by decide) rfl), if_neg (hne _ (by decide) rfl), hnumber]
  rfl

theorem reads_number {n : NumberText} (h : n.Valid) : Reads loop n.render n.toJson := by
  obtain ⟨b, t, heq, hb⟩ := valueText_head (.number n h)
  have hvalue (fuel depth : Nat) (rest : Bytes) (hnesting : n.toJson.nesting + depth ≤ maximumDepth)
      (hrest : Follows rest) :
      value loop (fuel + 1) depth (n.render ++ rest) = some (n.toJson, rest) :=
    value_number h (by omega) hrest
  rw [heq] at hvalue ⊢
  exact Reads.of_start (startsValue_spec hb).1 fun fuel depth rest hnesting _ _ hrest =>
    hvalue fuel depth rest hnesting hrest

theorem value_string {rest : Bytes} (hdepth : depth ≤ maximumDepth) :
    value loop (fuel + 1) depth (Ascii.quote :: rest) =
      (string loop (Ascii.quote :: rest)).map fun read => (.string read.1, read.2) := by
  rw [value, if_neg (by omega), skipWhitespace_cons rfl]
  dsimp only
  rw [if_neg (by decide), if_neg (by decide), if_pos rfl]
  cases string loop (Ascii.quote :: rest) <;> rfl

theorem reads_string {t : Bytes} {cs : List Char} (h : StringText t cs) :
    Reads loop (Ascii.quote :: (t ++ [Ascii.quote])) (.string (Utf8.encodeAll cs)) := by
  refine Reads.of_start rfl fun fuel depth rest hnesting _ hloop _ => ?_
  rw [List.length_append, List.length_singleton] at hloop
  rw [value_string (by omega), List.append_assoc, List.singleton_append,
    string_complete h (by omega)]
  rfl

theorem value_array {rest : Bytes} (hdepth : depth ≤ maximumDepth) :
    value loop (fuel + 1) depth (Ascii.leftBracket :: rest) =
      (array loop fuel (depth + 1) (Ascii.leftBracket :: rest)).map
        fun read => (.array read.1, read.2) := by
  rw [value, if_neg (by omega), skipWhitespace_cons rfl]
  dsimp only
  rw [if_neg (by decide), if_pos rfl]
  cases array loop fuel (depth + 1) (Ascii.leftBracket :: rest) <;> rfl

theorem value_object {rest : Bytes} (hdepth : depth ≤ maximumDepth) :
    value loop (fuel + 1) depth (Ascii.leftBrace :: rest) =
      (object loop fuel (depth + 1) (Ascii.leftBrace :: rest)).map
        fun read => (Json.ofMembers read.1, read.2) := by
  rw [value, if_neg (by omega), skipWhitespace_cons rfl]
  dsimp only
  rw [if_pos rfl]
  cases object loop fuel (depth + 1) (Ascii.leftBrace :: rest) <;> rfl

/-- An array that is not closed at once is read by its elements. -/
theorem array_open {rest : Bytes} (h : byte Ascii.rightBracket (skipWhitespace rest) = none) :
    array loop (fuel + 1) depth (Ascii.leftBracket :: rest) = elements loop fuel depth rest := by
  rw [array, byte_cons, Option.bind_eq_bind, Option.bind_some, h]
  dsimp only
  rw [elements_skipWhitespace]

theorem object_open {rest : Bytes} (h : byte Ascii.rightBrace (skipWhitespace rest) = none) :
    object loop (fuel + 1) depth (Ascii.leftBrace :: rest) = members loop fuel depth [] rest := by
  rw [object, byte_cons, Option.bind_eq_bind, Option.bind_some, h]
  dsimp only
  rw [members_skipWhitespace]

theorem array_empty {w rest : Bytes} (hw : Whitespace w) :
    array loop (fuel + 1) depth (Ascii.leftBracket :: (w ++ Ascii.rightBracket :: rest)) =
      some ([], rest) := by
  rw [array, byte_cons, Option.bind_eq_bind, Option.bind_some, byte_skipWhitespace hw rfl]

theorem object_empty {w rest : Bytes} (hw : Whitespace w) :
    object loop (fuel + 1) depth (Ascii.leftBrace :: (w ++ Ascii.rightBrace :: rest)) =
      some ([], rest) := by
  rw [object, byte_cons, Option.bind_eq_bind, Option.bind_some, byte_skipWhitespace hw rfl]

theorem reads_emptyArray {w : Bytes} (hw : Whitespace w) :
    Reads loop (Ascii.leftBracket :: (w ++ [Ascii.rightBracket])) (.array []) := by
  refine Reads.of_start rfl fun fuel depth rest hnesting hfuel _ _ => ?_
  obtain ⟨fuel, rfl⟩ : ∃ n, fuel = n + 1 := ⟨fuel - 1, by omega⟩
  rw [value_array (by omega), List.append_assoc, List.singleton_append, array_empty hw]
  rfl

theorem reads_emptyObject {w : Bytes} (hw : Whitespace w) :
    Reads loop (Ascii.leftBrace :: (w ++ [Ascii.rightBrace])) (.object []) := by
  refine Reads.of_start rfl fun fuel depth rest hnesting hfuel _ _ => ?_
  obtain ⟨fuel, rfl⟩ : ∃ n, fuel = n + 1 := ⟨fuel - 1, by omega⟩
  rw [value_object (by omega), List.append_assoc, List.singleton_append, object_empty hw]
  rfl

/-- What is inside the brackets of an array does not close it. -/
theorem byte_of_elements {w t more : Bytes} {b : UInt8} (hw : Whitespace w)
    (hb : startsValue b = true) :
    byte Ascii.rightBracket (skipWhitespace (w ++ (b :: t ++ more))) = none := by
  obtain ⟨hspace, hne⟩ := startsValue_spec hb
  exact byte_skipWhitespace_none hw hspace hne

theorem reads_array {items : List ElementText} (hnonempty : items ≠ [])
    (hspace : ∀ e ∈ items, Whitespace e.before ∧ Whitespace e.after)
    (hvalues : ∀ e ∈ items, ValueText e.text e.value)
    (hreads : ∀ e ∈ items, Reads loop e.text e.value) :
    Reads loop
      (Ascii.leftBracket :: (commaSeparated (items.map (·.render)) ++ [Ascii.rightBracket]))
      (.array (items.map (·.value))) := by
  refine Reads.of_start rfl fun fuel depth rest hnesting hfuel hloop _ => ?_
  rw [List.length_append, List.length_singleton] at hfuel hloop
  obtain ⟨fuel, rfl⟩ : ∃ n, fuel = n + 1 := ⟨fuel - 1, by omega⟩
  have hinner : ∀ e ∈ items, e.value.nesting + (depth + 1) ≤ maximumDepth := by
    intro e he
    have hle := Json.nestingElements_le.mp (le_refl (Json.nestingElements (items.map (·.value))))
      e.value (List.mem_map.mpr ⟨e, he, rfl⟩)
    rw [Json.nesting] at hnesting
    omega
  have hopen : byte Ascii.rightBracket
      (skipWhitespace (commaSeparated (items.map (·.render)) ++ Ascii.rightBracket :: rest)) =
        none := by
    obtain ⟨e, items, rfl⟩ := List.exists_cons_of_ne_nil hnonempty
    obtain ⟨more, hmore⟩ := commaSeparated_head e.render (items.map (·.render))
    obtain ⟨b, t, ht, hb⟩ := valueText_head (hvalues e List.mem_cons_self)
    rw [List.map_cons, hmore, ElementText.render, ht, List.append_assoc, List.append_assoc,
      List.append_assoc]
    exact byte_of_elements (hspace e List.mem_cons_self).1 hb
  rw [value_array (by omega), List.append_assoc, List.singleton_append, array_open hopen,
    elements_complete hnonempty hspace hreads hinner (by omega) (by omega)]
  rfl

theorem reads_object {items : List MemberText} (hnonempty : items ≠ [])
    (hlexical : ∀ m ∈ items, m.Lexical) (hreads : ∀ m ∈ items, Reads loop m.text m.value)
    (hdistinct : (items.map (·.member.1)).Nodup) :
    Reads loop
      (Ascii.leftBrace :: (commaSeparated (items.map (·.render)) ++ [Ascii.rightBrace]))
      (Json.ofMembers (items.map (·.member))) := by
  refine Reads.of_start rfl fun fuel depth rest hnesting hfuel hloop _ => ?_
  rw [List.length_append, List.length_singleton] at hfuel hloop
  obtain ⟨fuel, rfl⟩ : ∃ n, fuel = n + 1 := ⟨fuel - 1, by omega⟩
  have hinner : ∀ m ∈ items, m.value.nesting + (depth + 1) ≤ maximumDepth := by
    intro m hm
    have hnodup : ((items.map (·.member)).map Prod.fst).Nodup := by rwa [List.map_map]
    have hle := Json.le_nesting_ofMembers hnodup (List.mem_map.mpr ⟨m, hm, rfl⟩)
    dsimp only [MemberText.member] at hle
    simp only [MemberText.member] at hnesting
    omega
  have hopen : byte Ascii.rightBrace
      (skipWhitespace (commaSeparated (items.map (·.render)) ++ Ascii.rightBrace :: rest)) =
        none := by
    obtain ⟨m, items, rfl⟩ := List.exists_cons_of_ne_nil hnonempty
    obtain ⟨more, hmore⟩ := commaSeparated_head m.render (items.map (·.render))
    rw [List.map_cons, hmore, MemberText.render]
    simp only [List.append_assoc, List.cons_append]
    exact byte_skipWhitespace_none (hlexical m List.mem_cons_self).beforeName rfl (by decide)
  rw [value_object (by omega), List.append_assoc, List.singleton_append, object_open hopen,
    members_complete hnonempty hlexical hreads hdistinct (by simp) hinner (by omega) (by omega)]
  rfl

theorem reads_literal {b : UInt8} {t : Bytes} {v : Json} (hb : isWhitespace b = false)
    (h : ∀ fuel depth rest, depth ≤ maximumDepth →
      value loop (fuel + 1) depth (b :: (t ++ rest)) = literal (b :: t) v (b :: (t ++ rest))) :
    Reads loop (b :: t) v := by
  refine Reads.of_start hb fun fuel depth rest hnesting _ _ _ => ?_
  rw [h fuel depth rest (by omega)]
  exact literal_complete

theorem value_null {rest : Bytes} (hdepth : depth ≤ maximumDepth) :
    value loop (fuel + 1) depth (Ascii.lowerN :: rest) =
      literal (ascii "null") .null (Ascii.lowerN :: rest) := by
  rw [value, if_neg (by omega), skipWhitespace_cons rfl]
  rfl

theorem value_true {rest : Bytes} (hdepth : depth ≤ maximumDepth) :
    value loop (fuel + 1) depth (Ascii.lowerT :: rest) =
      literal (ascii "true") (.bool true) (Ascii.lowerT :: rest) := by
  rw [value, if_neg (by omega), skipWhitespace_cons rfl]
  rfl

theorem value_false {rest : Bytes} (hdepth : depth ≤ maximumDepth) :
    value loop (fuel + 1) depth (Ascii.lowerF :: rest) =
      literal (ascii "false") (.bool false) (Ascii.lowerF :: rest) := by
  rw [value, if_neg (by omega), skipWhitespace_cons rfl]
  rfl

/-- Every value of the grammar is read, wherever it stands. -/
theorem value_complete {t : Bytes} {v : Json} (h : ValueText t v) : Reads loop t v := by
  induction h with
  | null => exact reads_literal rfl fun _ _ _ hdepth => value_null hdepth
  | true => exact reads_literal rfl fun _ _ _ hdepth => value_true hdepth
  | false => exact reads_literal rfl fun _ _ _ hdepth => value_false hdepth
  | number n valid => exact reads_number valid
  | string text => exact reads_string text
  | emptyArray space => exact reads_emptyArray space
  | array items nonempty space values ih => exact reads_array nonempty space values ih
  | emptyObject space => exact reads_emptyObject space
  | object items nonempty lexical values distinct ih =>
    exact reads_object nonempty lexical ih distinct

/-- Every JSON text whose values are not inside too many containers is decoded
to the value it denotes. -/
theorem decode_complete {text : Bytes} {v : Json} (h : JsonText text v)
    (hnesting : v.nesting ≤ maximumDepth) : decode text = some v := by
  obtain ⟨before, t, after, hbefore, htext, hafter, rfl⟩ := h
  have hfollows : Follows after := by
    have := follows_append hafter (StartsNot.nil continuesNumber)
    rwa [List.append_nil] at this
  have hskip : skipWhitespace after = [] := by
    have := skipWhitespace_append hafter (StartsNot.nil isWhitespace)
    rwa [List.append_nil] at this
  rw [decode, value_skipWhitespace, value_complete htext _ _ _ _ hbefore hnesting
    (by simp only [List.length_append]; omega) (by simp only [List.length_append]; omega) hfollows,
    Option.bind_eq_bind, Option.bind_some]
  dsimp only
  rw [if_pos hskip]

/-- The reader accepts exactly the grammar, to the depth the scanner supports. -/
theorem decode_eq_some {text : Bytes} {v : Json} :
    decode text = some v ↔ JsonText text v ∧ v.nesting ≤ maximumDepth :=
  ⟨decode_sound, fun h => decode_complete h.1 h.2⟩

end MissionWeave.Decoder
