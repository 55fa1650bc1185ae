import MissionWeave.Json.Decoder
import MissionWeave.Json.Members
import Mathlib.Data.List.DropRight

/-!
# What the reader accepts is in the grammar

Each lemma here says of one function of the reader that what it takes off the
front of the text is a piece of the grammar, and that the value it returns is
the one the piece denotes.  `value_sound` puts them together by induction on
the fuel, and `decode_sound` is the result for whole texts.
-/

namespace MissionWeave.Decoder

open StrictScanner (isWhitespace isExponentMarker isSign isHighSurrogate isLowSurrogate
  combineSurrogates simpleEscape? maximumDepth)

/-! ## Whitespace and single bytes -/

theorem isWhitespace_iff (b : UInt8) :
    isWhitespace b = true ↔ b = Ascii.space ∨ b = Ascii.tab ∨ b = Ascii.lineFeed ∨
      b = Ascii.carriageReturn := by
  simp only [isWhitespace, Bool.or_eq_true, beq_iff_eq, or_assoc]

theorem skipWhitespace_spec (rest : Bytes) :
    ∃ w, Whitespace w ∧ rest = w ++ skipWhitespace rest :=
  ⟨rest.takeWhile isWhitespace, fun _ hb => (isWhitespace_iff _).mp (List.mem_takeWhile_imp hb),
    List.takeWhile_append_dropWhile.symm⟩

theorem skipWhitespace_idem (rest : Bytes) :
    skipWhitespace (skipWhitespace rest) = skipWhitespace rest :=
  List.dropWhile_idempotent _ rest

theorem byte_eq_some {b : UInt8} {rest after : Bytes} :
    byte b rest = some after ↔ rest = b :: after := by
  cases rest with
  | nil => simp [byte]
  | cons c rest =>
    by_cases hc : c = b
    · simp [byte, hc]
    · simp [byte, hc]

theorem literal_sound {text rest after : Bytes} {v w : Json}
    (h : literal text v rest = some (w, after)) : w = v ∧ rest = text ++ after := by
  rw [literal] at h
  by_cases htext : rest.take text.length = text
  · rw [if_pos htext, Option.some.injEq, Prod.mk.injEq] at h
    refine ⟨h.1.symm, ?_⟩
    rw [← h.2]
    conv_lhs => rw [← List.take_append_drop text.length rest, htext]
  · rw [if_neg htext] at h
    cases h

/-! ## Numbers -/

theorem digits_sound {rest ds after : Bytes} (h : digits rest = some (ds, after)) :
    Digits ds ∧ rest = ds ++ after := by
  rw [digits] at h
  by_cases hempty : rest.takeWhile Ascii.isDigit = []
  · rw [if_pos hempty] at h
    cases h
  · rw [if_neg hempty, Option.some.injEq, Prod.mk.injEq] at h
    rw [← h.1, ← h.2, List.takeWhile_append_dropWhile]
    exact ⟨⟨hempty, fun _ hd => List.mem_takeWhile_imp hd⟩, rfl⟩

theorem sign_sound (rest : Bytes) :
    rest = (if (sign rest).1 then [Ascii.minus] else []) ++ (sign rest).2 := by
  cases rest with
  | nil => rfl
  | cons b rest =>
    by_cases hb : b = Ascii.minus
    · simp [sign, hb]
    · simp [sign, hb]

theorem integer_sound {rest ds after : Bytes} (h : integer rest = some (ds, after)) :
    IntegerPart ds ∧ rest = ds ++ after := by
  cases rest with
  | nil => cases h
  | cons b rest =>
    rw [integer] at h
    by_cases hzero : b = Ascii.zero
    · rw [if_pos hzero] at h
      split at h
      · cases h
      · rw [Option.some.injEq, Prod.mk.injEq] at h
        rw [← h.1, ← h.2, hzero]
        exact ⟨Or.inl rfl, rfl⟩
    · rw [if_neg hzero] at h
      obtain ⟨hdigits, heq⟩ := digits_sound h
      refine ⟨Or.inr ⟨hdigits, fun hhead => hzero ?_⟩, heq⟩
      cases ds with
      | nil => cases hhead
      | cons d ds =>
        rw [List.cons_append, List.cons.injEq] at heq
        rw [List.head?_cons, Option.some.injEq] at hhead
        rw [heq.1, hhead]

theorem fraction_sound {rest after : Bytes} {ds : Option Bytes}
    (h : fraction rest = some (ds, after)) :
    (∀ d ∈ ds, Digits d) ∧ rest = renderFraction ds ++ after := by
  rw [fraction] at h
  cases hbyte : byte Ascii.point rest with
  | none =>
    rw [hbyte, Option.some.injEq, Prod.mk.injEq] at h
    rw [← h.1, ← h.2]
    exact ⟨by simp, rfl⟩
  | some rest' =>
    rw [hbyte] at h
    obtain ⟨⟨d, rest''⟩, hdigits, h⟩ := Option.bind_eq_some_iff.mp h
    rw [Option.some.injEq, Prod.mk.injEq] at h
    obtain ⟨hvalid, heq⟩ := digits_sound hdigits
    rw [← h.1, ← h.2, byte_eq_some.mp hbyte, heq]
    refine ⟨?_, rfl⟩
    rintro _ ⟨⟩
    exact hvalid

theorem exponentSign_sound (rest : Bytes) :
    (∀ s ∈ (exponentSign rest).1, s = Ascii.plus ∨ s = Ascii.minus) ∧
      rest = (exponentSign rest).1.toList ++ (exponentSign rest).2 := by
  cases rest with
  | nil => exact ⟨by simp [exponentSign], rfl⟩
  | cons b rest =>
    rw [exponentSign]
    by_cases hb : isSign b = true
    · rw [if_pos hb]
      refine ⟨?_, rfl⟩
      rintro _ ⟨⟩
      simpa [isSign] using hb
    · rw [if_neg hb]
      exact ⟨by simp, rfl⟩

theorem exponent_sound {rest after : Bytes} {e : Option ExponentText}
    (h : exponent rest = some (e, after)) :
    (∀ x ∈ e, x.Valid) ∧ rest = renderExponent e ++ after := by
  cases rest with
  | nil =>
    rw [exponent, Option.some.injEq, Prod.mk.injEq] at h
    rw [← h.1, ← h.2]
    exact ⟨by simp, rfl⟩
  | cons b rest =>
    rw [exponent] at h
    by_cases hmarker : isExponentMarker b = true
    · rw [if_pos hmarker] at h
      obtain ⟨⟨ds, rest'⟩, hdigits, h⟩ := Option.bind_eq_some_iff.mp h
      rw [Option.some.injEq, Prod.mk.injEq] at h
      obtain ⟨hvalid, heq⟩ := digits_sound hdigits
      obtain ⟨hsign, hrest⟩ := exponentSign_sound rest
      rw [← h.1, ← h.2]
      refine ⟨?_, ?_⟩
      · rintro _ ⟨⟩
        exact ⟨by simpa [isExponentMarker] using hmarker, hsign, hvalid⟩
      · rw [renderExponent, ExponentText.render, List.cons_append, List.append_assoc, ← heq,
          ← hrest]
    · rw [if_neg hmarker, Option.some.injEq, Prod.mk.injEq] at h
      rw [← h.1, ← h.2]
      exact ⟨by simp, rfl⟩

theorem number_sound {rest after : Bytes} {n : NumberText}
    (h : number rest = some (n, after)) : n.Valid ∧ rest = n.render ++ after := by
  obtain ⟨⟨int, rest1⟩, hint, h⟩ := Option.bind_eq_some_iff.mp h
  obtain ⟨⟨frac, rest2⟩, hfrac, h⟩ := Option.bind_eq_some_iff.mp h
  obtain ⟨⟨exp, rest3⟩, hexp, h⟩ := Option.bind_eq_some_iff.mp h
  rw [Option.some.injEq, Prod.mk.injEq] at h
  obtain ⟨hint, heq1⟩ := integer_sound hint
  obtain ⟨hfrac, heq2⟩ := fraction_sound hfrac
  obtain ⟨hexp, heq3⟩ := exponent_sound hexp
  rw [← h.1, ← h.2]
  refine ⟨⟨hint, hfrac, hexp⟩, ?_⟩
  conv_lhs => rw [sign_sound rest, heq1, heq2, heq3]
  simp only [NumberText.render, List.append_assoc]

theorem nesting_toJson (n : NumberText) : n.toJson.nesting = 0 := by
  rw [NumberText.toJson, integerJson]
  split_ifs <;> rfl

/-! ## Strings -/

theorem hexQuad_sound {rest after : Bytes} {v : Nat} (h : hexQuad rest = some (v, after)) :
    ∃ quad, hexQuad? quad = some v ∧ rest = quad ++ after := by
  match rest, h with
  | a :: b :: c :: d :: rest, h =>
    rw [hexQuad, Option.map_eq_some_iff] at h
    obtain ⟨w, hw, heq⟩ := h
    rw [Prod.mk.injEq] at heq
    rw [← heq.1, ← heq.2]
    exact ⟨[a, b, c, d], hw, rfl⟩

theorem hexQuad?_lt {quad : Bytes} {v : Nat} (h : hexQuad? quad = some v) : v < 0x10000 := by
  match quad, h with
  | [a, b, c, d], h =>
    rw [hexQuad?] at h
    obtain ⟨va, ha, h⟩ := Option.bind_eq_some_iff.mp h
    obtain ⟨vb, hb, h⟩ := Option.bind_eq_some_iff.mp h
    obtain ⟨vc, hc, h⟩ := Option.bind_eq_some_iff.mp h
    obtain ⟨vd, hd, h⟩ := Option.bind_eq_some_iff.mp h
    rw [Option.some.injEq] at h
    have := Ascii.hexValue?_lt ha
    have := Ascii.hexValue?_lt hb
    have := Ascii.hexValue?_lt hc
    have := Ascii.hexValue?_lt hd
    omega

theorem isHighSurrogate_iff (v : Nat) :
    isHighSurrogate v = true ↔ 0xD800 ≤ v ∧ v ≤ 0xDBFF := by
  simp [isHighSurrogate]

theorem isLowSurrogate_iff (v : Nat) : isLowSurrogate v = true ↔ 0xDC00 ≤ v ∧ v ≤ 0xDFFF := by
  simp [isLowSurrogate]

theorem combineSurrogates_eq (first second : Nat) :
    combineSurrogates first second = 0x10000 + (first - 0xD800) * 0x400 + (second - 0xDC00) := by
  have hshift := Nat.shiftLeft_eq (first - 0xD800) 10
  unfold combineSurrogates
  omega

theorem secondEscape_sound {rest after : Bytes} {v : Nat}
    (h : secondEscape rest = some (v, after)) :
    ∃ quad, hexQuad? quad = some v ∧
      rest = Ascii.backslash :: Ascii.lowerU :: (quad ++ after) := by
  obtain ⟨rest1, hbackslash, h⟩ := Option.bind_eq_some_iff.mp h
  obtain ⟨rest2, hletter, h⟩ := Option.bind_eq_some_iff.mp h
  obtain ⟨quad, hquad, heq⟩ := hexQuad_sound h
  exact ⟨quad, hquad, by rw [byte_eq_some.mp hbackslash, byte_eq_some.mp hletter, heq]⟩

theorem unicodeEscape_sound {rest after appended : Bytes}
    (h : unicodeEscape rest = some (appended, after)) :
    ∃ t c, CharText (Ascii.backslash :: Ascii.lowerU :: t) c ∧
      appended = String.utf8EncodeChar c ∧ rest = t ++ after := by
  obtain ⟨⟨first, rest1⟩, hfirst, h⟩ := Option.bind_eq_some_iff.mp h
  obtain ⟨quad, hquad, heq⟩ := hexQuad_sound hfirst
  have hbound := hexQuad?_lt hquad
  dsimp only at h
  by_cases hhigh : isHighSurrogate first = true
  · rw [if_pos hhigh] at h
    obtain ⟨⟨second, rest2⟩, hsecond, h⟩ := Option.bind_eq_some_iff.mp h
    obtain ⟨quad2, hquad2, heq2⟩ := secondEscape_sound hsecond
    dsimp only at h
    by_cases hlow : isLowSurrogate second = true
    · rw [if_pos hlow, Option.some.injEq, Prod.mk.injEq] at h
      rw [isHighSurrogate_iff] at hhigh
      rw [isLowSurrogate_iff] at hlow
      obtain ⟨c, hc⟩ := Utf8.exists_char (n := combineSurrogates first second)
        (by rw [combineSurrogates_eq]; omega)
      refine ⟨quad ++ Ascii.backslash :: Ascii.lowerU :: quad2, c, ?_, ?_, ?_⟩
      · exact CharText.surrogates hquad hquad2 hhigh hlow (by rw [hc, combineSurrogates_eq])
      · rw [← h.1, ← hc, Utf8.append_eq_encode]
      · rw [heq, heq2, ← h.2]
        simp only [List.append_assoc, List.cons_append]
    · rw [if_neg hlow] at h
      cases h
  · rw [if_neg hhigh] at h
    by_cases hlow : isLowSurrogate first = true
    · rw [if_pos hlow] at h
      cases h
    · rw [if_neg hlow, Option.some.injEq, Prod.mk.injEq] at h
      rw [isHighSurrogate_iff] at hhigh
      rw [isLowSurrogate_iff] at hlow
      obtain ⟨c, hc⟩ := Utf8.exists_char (n := first) (by omega)
      refine ⟨quad, c, CharText.unicode (by rw [hquad, hc]), ?_, by rw [heq, ← h.2]⟩
      rw [← h.1, ← hc, Utf8.append_eq_encode]

theorem simpleEscape?_sound {letter b : UInt8} (h : simpleEscape? letter = some b) :
    ∃ c, escapedChar? letter = some c ∧ [b] = String.utf8EncodeChar c := by
  rw [simpleEscape?] at h
  split_ifs at h with hself hb hf hn hr ht
  · rw [Option.some.injEq] at h
    subst h
    rcases hself with rfl | rfl | rfl
    · exact ⟨'"', rfl, by decide⟩
    · exact ⟨'\\', rfl, by decide⟩
    · exact ⟨'/', rfl, by decide⟩
  all_goals
    rw [Option.some.injEq] at h
    subst h
    subst letter
    exact ⟨_, rfl, by decide⟩

theorem escape_sound {rest after appended : Bytes}
    (h : escape rest = some (appended, after)) :
    ∃ t c, CharText (Ascii.backslash :: t) c ∧ appended = String.utf8EncodeChar c ∧
      rest = t ++ after := by
  cases rest with
  | nil => cases h
  | cons b rest =>
    rw [escape] at h
    cases hsimple : simpleEscape? b with
    | some d =>
      rw [hsimple, Option.some.injEq, Prod.mk.injEq] at h
      obtain ⟨c, hc, hencode⟩ := simpleEscape?_sound hsimple
      exact ⟨[b], c, CharText.escape hc, by rw [← h.1, hencode], by rw [← h.2]; rfl⟩
    | none =>
      rw [hsimple] at h
      dsimp only at h
      by_cases hu : b = Ascii.lowerU
      · rw [if_pos hu] at h
        obtain ⟨t, c, hchar, happended, heq⟩ := unicodeEscape_sound h
        exact ⟨Ascii.lowerU :: t, c, hchar, happended, by rw [hu, heq]; rfl⟩
      · rw [if_neg hu] at h
        cases h

theorem codePoint_sound {rest after : Bytes} {v : Nat}
    (h : codePoint rest = some (v, after)) :
    ∃ c : Char, c.toNat = v ∧ 0x80 ≤ c.toNat ∧ rest = String.utf8EncodeChar c ++ after := by
  cases rest with
  | nil => cases h
  | cons lead rest =>
    obtain ⟨⟨width, bits⟩, hlead, h⟩ := Option.bind_eq_some_iff.mp h
    dsimp only at h
    split at h
    · rename_i hcont
      split at h
      · cases h
      · rename_i hcanon
        rw [Option.some.injEq, Prod.mk.injEq] at h
        obtain ⟨hlen, hall⟩ := hcont
        rw [List.all_eq_true] at hall
        obtain ⟨c, hc, hlow, hencode⟩ := Utf8.encode_decode
          ⟨⟨bits, by rw [hlen]; exact hlead, h.1⟩, hall,
            by rw [hlen, ← h.1]; exact Bool.eq_false_iff.mpr hcanon⟩
        refine ⟨c, hc, hlow, ?_⟩
        rw [hencode, ← h.2, List.cons_append, List.take_append_drop]
    · cases h

/-- An ASCII byte is the encoding of a character. -/
theorem ascii_char {b : UInt8} (h : b < 0x80) :
    ∃ c : Char, c.toNat = b.toNat ∧ String.utf8EncodeChar c = [b] := by
  rw [UInt8.lt_iff_toNat_lt] at h
  have hlt : b.toNat < 0x80 := h
  obtain ⟨c, hc⟩ := Utf8.exists_char (n := b.toNat) (by omega)
  exact ⟨c, hc, by rw [Utf8.encode_ascii (by omega), hc, UInt8.ofNat_toNat]⟩

theorem unescaped_of_byte {b : UInt8} (hquote : b ≠ Ascii.quote) (hescape : b ≠ Ascii.backslash)
    (hcontrol : ¬b < 0x20) (hascii : b < 0x80) :
    ∃ c, CharText [b] c ∧ String.utf8EncodeChar c = [b] := by
  obtain ⟨c, hc, hencode⟩ := ascii_char hascii
  rw [UInt8.lt_iff_toNat_lt] at hcontrol
  have hlow : 0x20 ≤ c.toNat := by
    rw [hc]
    exact Nat.not_lt.mp hcontrol
  refine ⟨c, ?_, hencode⟩
  rw [← hencode]
  refine CharText.unescaped hlow (fun h => hquote ?_) (fun h => hescape ?_)
  · exact UInt8.toNat_inj.mp (by rw [← hc, h]; rfl)
  · exact UInt8.toNat_inj.mp (by rw [← hc, h]; rfl)

theorem unescaped_of_codePoint {c : Char} (h : 0x80 ≤ c.toNat) :
    CharText (String.utf8EncodeChar c) c := by
  refine CharText.unescaped (by omega) ?_ ?_
  · rintro rfl
    revert h
    decide
  · rintro rfl
    revert h
    decide

theorem stringLoop_sound {fuel : Nat} {decoded rest s after : Bytes}
    (h : stringLoop fuel decoded rest = some (s, after)) :
    ∃ t cs, StringText t cs ∧ s = decoded ++ Utf8.encodeAll cs ∧
      rest = t ++ Ascii.quote :: after := by
  induction fuel generalizing decoded rest with
  | zero => cases h
  | succ fuel ih =>
    cases rest with
    | nil => cases h
    | cons b rest =>
      rw [stringLoop] at h
      by_cases hquote : b = Ascii.quote
      · rw [if_pos hquote, Option.some.injEq, Prod.mk.injEq] at h
        exact ⟨[], [], StringText.nil, by simp [h.1], by simp [hquote, h.2]⟩
      rw [if_neg hquote] at h
      by_cases hescape : b = Ascii.backslash
      · rw [if_pos hescape] at h
        obtain ⟨⟨appended, rest1⟩, hescaped, h⟩ := Option.bind_eq_some_iff.mp h
        obtain ⟨t, c, hchar, happended, heq⟩ := escape_sound hescaped
        obtain ⟨ts, cs, htail, hs, heq'⟩ := ih h
        refine ⟨Ascii.backslash :: t ++ ts, c :: cs, StringText.cons hchar htail, ?_, ?_⟩
        · rw [hs, happended, Utf8.encodeAll_cons, List.append_assoc]
        · rw [hescape, heq, heq', List.append_assoc, List.cons_append]
      rw [if_neg hescape] at h
      by_cases hcontrol : b < 0x20
      · rw [if_pos hcontrol] at h
        cases h
      rw [if_neg hcontrol] at h
      by_cases hascii : b < 0x80
      · rw [if_pos hascii] at h
        obtain ⟨c, hchar, hencode⟩ := unescaped_of_byte hquote hescape hcontrol hascii
        obtain ⟨ts, cs, htail, hs, heq⟩ := ih h
        refine ⟨[b] ++ ts, c :: cs, StringText.cons hchar htail, ?_, ?_⟩
        · rw [hs, Utf8.encodeAll_cons, hencode, List.append_assoc]
        · rw [heq, List.append_assoc, List.singleton_append]
      · rw [if_neg hascii] at h
        obtain ⟨⟨v, rest1⟩, hcode, h⟩ := Option.bind_eq_some_iff.mp h
        obtain ⟨c, hc, hlow, heq⟩ := codePoint_sound hcode
        obtain ⟨ts, cs, htail, hs, heq'⟩ := ih h
        refine ⟨_, c :: cs, StringText.cons (unescaped_of_codePoint hlow) htail, ?_, ?_⟩
        · rw [hs, ← hc, Utf8.append_eq_encode, Utf8.encodeAll_cons, List.append_assoc]
        · rw [heq, heq', List.append_assoc]

theorem string_sound {loop : Nat} {rest s after : Bytes}
    (h : string loop rest = some (s, after)) :
    ∃ t cs, StringText t cs ∧ s = Utf8.encodeAll cs ∧
      rest = Ascii.quote :: (t ++ Ascii.quote :: after) := by
  obtain ⟨rest1, hopen, h⟩ := Option.bind_eq_some_iff.mp h
  obtain ⟨t, cs, htext, hs, heq⟩ := stringLoop_sound h
  exact ⟨t, cs, htext, hs, by rw [byte_eq_some.mp hopen, heq]⟩

/-! ## Values -/

theorem commaSeparated_cons {item : Bytes} {items : List Bytes} (h : items ≠ []) :
    commaSeparated (item :: items) = item ++ Ascii.comma :: commaSeparated items := by
  cases items with
  | nil => exact absurd rfl h
  | cons next items => rfl

/-- The items of an array that the reader took from the text. -/
structure ElementsRead (depth : Nat) (items : List ElementText) : Prop where
  nonempty : items ≠ []
  space : ∀ e ∈ items, Whitespace e.before ∧ Whitespace e.after
  values : ∀ e ∈ items, ValueText e.text e.value
  nesting : ∀ e ∈ items, e.value.nesting + depth ≤ maximumDepth

/-- The items of an object that the reader took from the text, after it has
seen the given names. -/
structure MembersRead (depth : Nat) (names : List Bytes) (items : List MemberText) : Prop where
  nonempty : items ≠ []
  lexical : ∀ m ∈ items, m.Lexical
  values : ∀ m ∈ items, ValueText m.text m.value
  distinct : (items.map (·.member.1)).Nodup
  fresh : ∀ m ∈ items, m.member.1 ∉ names
  nesting : ∀ m ∈ items, m.value.nesting + depth ≤ maximumDepth

/-- One level of the recursion: what the five functions take off the text. -/
structure LevelSound (loop fuel : Nat) : Prop where
  value : ∀ {depth rest v after}, value loop fuel depth rest = some (v, after) →
    ∃ w t, Whitespace w ∧ ValueText t v ∧ v.nesting + depth ≤ maximumDepth ∧
      rest = w ++ (t ++ after)
  object : ∀ {depth rest ms after}, object loop fuel depth rest = some (ms, after) →
    ∃ t, ValueText t (Json.ofMembers ms) ∧
      (∀ m ∈ ms, m.2.nesting + depth ≤ maximumDepth) ∧ rest = t ++ after
  members : ∀ {depth names rest ms after}, members loop fuel depth names rest = some (ms, after) →
    ∃ items, MembersRead depth names items ∧ ms = items.map (·.member) ∧
      rest = commaSeparated (items.map (·.render)) ++ Ascii.rightBrace :: after
  array : ∀ {depth rest xs after}, array loop fuel depth rest = some (xs, after) →
    ∃ t, ValueText t (.array xs) ∧
      (∀ x ∈ xs, x.nesting + depth ≤ maximumDepth) ∧ rest = t ++ after
  elements : ∀ {depth rest xs after}, elements loop fuel depth rest = some (xs, after) →
    ∃ items, ElementsRead depth items ∧ xs = items.map (·.value) ∧
      rest = commaSeparated (items.map (·.render)) ++ Ascii.rightBracket :: after

variable {loop fuel depth : Nat} {names : List Bytes} {rest after : Bytes}

theorem members_skipWhitespace :
    members loop fuel depth names (skipWhitespace rest) = members loop fuel depth names rest := by
  cases fuel with
  | zero => rw [members, members]
  | succ fuel => rw [members, members, skipWhitespace_idem]

theorem value_skipWhitespace :
    value loop fuel depth (skipWhitespace rest) = value loop fuel depth rest := by
  cases fuel with
  | zero => rw [value, value]
  | succ fuel => rw [value, value, skipWhitespace_idem]

theorem elements_skipWhitespace :
    elements loop fuel depth (skipWhitespace rest) = elements loop fuel depth rest := by
  cases fuel with
  | zero => rw [elements, elements]
  | succ fuel => rw [elements, elements, value_skipWhitespace]

theorem LevelSound.zero : LevelSound loop 0 := by
  constructor
  · intro _ _ _ _ h
    rw [Decoder.value] at h
    cases h
  · intro _ _ _ _ h
    rw [Decoder.object] at h
    cases h
  · intro _ _ _ _ _ h
    rw [Decoder.members] at h
    cases h
  · intro _ _ _ _ h
    rw [Decoder.array] at h
    cases h
  · intro _ _ _ _ h
    rw [Decoder.elements] at h
    cases h

theorem value_step (ih : LevelSound loop fuel) {v : Json}
    (h : value loop (fuel + 1) depth rest = some (v, after)) :
    ∃ w t, Whitespace w ∧ ValueText t v ∧ v.nesting + depth ≤ maximumDepth ∧
      rest = w ++ (t ++ after) := by
  rw [value] at h
  by_cases hdepth : maximumDepth < depth
  · rw [if_pos hdepth] at h
    cases h
  rw [if_neg hdepth] at h
  obtain ⟨w, hw, hrest⟩ := skipWhitespace_spec rest
  cases hskip : skipWhitespace rest with
  | nil =>
    rw [hskip] at h
    cases h
  | cons b rest1 =>
    rw [hskip] at h hrest
    dsimp only at h
    suffices hvalue : ∃ t, ValueText t v ∧ v.nesting + depth ≤ maximumDepth ∧
        b :: rest1 = t ++ after by
      obtain ⟨t, htext, hnesting, heq⟩ := hvalue
      exact ⟨w, t, hw, htext, hnesting, by rw [hrest, heq]⟩
    have hflat : ∀ u : Json, u.nesting = 0 → u.nesting + depth ≤ maximumDepth := by
      intro u hu
      omega
    split_ifs at h
    · obtain ⟨⟨ms, after'⟩, hobject, h⟩ := Option.bind_eq_some_iff.mp h
      rw [Option.some.injEq, Prod.mk.injEq] at h
      obtain ⟨t, htext, hnesting, heq⟩ := ih.object hobject
      rw [← h.1, ← h.2]
      refine ⟨t, htext, ?_, heq⟩
      have hle : (Json.ofMembers ms).nesting ≤ maximumDepth - depth :=
        Json.nesting_ofMembers_le fun m hm => by
          have := hnesting m hm
          omega
      dsimp only
      omega
    · obtain ⟨⟨xs, after'⟩, harray, h⟩ := Option.bind_eq_some_iff.mp h
      rw [Option.some.injEq, Prod.mk.injEq] at h
      obtain ⟨t, htext, hnesting, heq⟩ := ih.array harray
      rw [← h.1, ← h.2]
      refine ⟨t, htext, ?_, heq⟩
      have hle : (Json.array xs).nesting ≤ maximumDepth - depth :=
        Json.nestingElements_le.mpr fun x hx => by
          have := hnesting x hx
          omega
      dsimp only
      omega
    · obtain ⟨⟨s, after'⟩, hstring, h⟩ := Option.bind_eq_some_iff.mp h
      rw [Option.some.injEq, Prod.mk.injEq] at h
      obtain ⟨t, cs, htext, hs, heq⟩ := string_sound hstring
      rw [← h.1, ← h.2, hs]
      refine ⟨_, ValueText.string htext, hflat _ rfl, ?_⟩
      rw [heq, List.cons_append, List.append_assoc, List.singleton_append]
    · obtain ⟨rfl, heq⟩ := literal_sound h
      exact ⟨_, ValueText.true, hflat _ rfl, heq⟩
    · obtain ⟨rfl, heq⟩ := literal_sound h
      exact ⟨_, ValueText.false, hflat _ rfl, heq⟩
    · obtain ⟨rfl, heq⟩ := literal_sound h
      exact ⟨_, ValueText.null, hflat _ rfl, heq⟩
    · obtain ⟨⟨n, after'⟩, hnumber, h⟩ := Option.bind_eq_some_iff.mp h
      rw [Option.some.injEq, Prod.mk.injEq] at h
      obtain ⟨hvalid, heq⟩ := number_sound hnumber
      rw [← h.1, ← h.2]
      exact ⟨_, ValueText.number n hvalid, hflat _ (nesting_toJson n), heq⟩

theorem object_step (ih : LevelSound loop fuel) {ms : List (Bytes × Json)}
    (h : object loop (fuel + 1) depth rest = some (ms, after)) :
    ∃ t, ValueText t (Json.ofMembers ms) ∧
      (∀ m ∈ ms, m.2.nesting + depth ≤ maximumDepth) ∧ rest = t ++ after := by
  rw [object] at h
  obtain ⟨rest1, hopen, h⟩ := Option.bind_eq_some_iff.mp h
  rw [byte_eq_some.mp hopen]
  cases hclose : byte Ascii.rightBrace (skipWhitespace rest1) with
  | some rest2 =>
    rw [hclose, Option.some.injEq, Prod.mk.injEq] at h
    obtain ⟨w, hw, hrest1⟩ := skipWhitespace_spec rest1
    rw [← h.1, ← h.2]
    refine ⟨_, ValueText.emptyObject hw, by simp, ?_⟩
    conv_lhs => rw [hrest1, byte_eq_some.mp hclose]
    rw [List.cons_append, List.append_assoc, List.singleton_append]
  | none =>
    rw [hclose] at h
    dsimp only at h
    rw [members_skipWhitespace] at h
    obtain ⟨items, hread, hms, heq⟩ := ih.members h
    rw [hms]
    refine ⟨_, ValueText.object items hread.nonempty hread.lexical hread.values hread.distinct,
      ?_, ?_⟩
    · rw [List.forall_mem_map]
      exact hread.nesting
    · rw [heq, List.cons_append, List.append_assoc, List.singleton_append]

theorem array_step (ih : LevelSound loop fuel) {xs : List Json}
    (h : array loop (fuel + 1) depth rest = some (xs, after)) :
    ∃ t, ValueText t (.array xs) ∧
      (∀ x ∈ xs, x.nesting + depth ≤ maximumDepth) ∧ rest = t ++ after := by
  rw [array] at h
  obtain ⟨rest1, hopen, h⟩ := Option.bind_eq_some_iff.mp h
  rw [byte_eq_some.mp hopen]
  cases hclose : byte Ascii.rightBracket (skipWhitespace rest1) with
  | some rest2 =>
    rw [hclose, Option.some.injEq, Prod.mk.injEq] at h
    obtain ⟨w, hw, hrest1⟩ := skipWhitespace_spec rest1
    rw [← h.1, ← h.2]
    refine ⟨_, ValueText.emptyArray hw, by simp, ?_⟩
    conv_lhs => rw [hrest1, byte_eq_some.mp hclose]
    rw [List.cons_append, List.append_assoc, List.singleton_append]
  | none =>
    rw [hclose] at h
    dsimp only at h
    rw [elements_skipWhitespace] at h
    obtain ⟨items, hread, hxs, heq⟩ := ih.elements h
    rw [hxs]
    refine ⟨_, ValueText.array items hread.nonempty hread.space hread.values, ?_, ?_⟩
    · rw [List.forall_mem_map]
      exact hread.nesting
    · rw [heq, List.cons_append, List.append_assoc, List.singleton_append]

theorem elements_step (ih : LevelSound loop fuel) {xs : List Json}
    (h : elements loop (fuel + 1) depth rest = some (xs, after)) :
    ∃ items, ElementsRead depth items ∧ xs = items.map (·.value) ∧
      rest = commaSeparated (items.map (·.render)) ++ Ascii.rightBracket :: after := by
  rw [elements] at h
  obtain ⟨⟨v, rest1⟩, hvalue, h⟩ := Option.bind_eq_some_iff.mp h
  obtain ⟨w, t, hw, htext, hnesting, hrest⟩ := ih.value hvalue
  obtain ⟨w', hw', hrest1⟩ := skipWhitespace_spec rest1
  dsimp only at h
  let item : ElementText := ⟨w, t, w', v⟩
  cases hclose : byte Ascii.rightBracket (skipWhitespace rest1) with
  | some rest2 =>
    rw [hclose, Option.some.injEq, Prod.mk.injEq] at h
    rw [byte_eq_some.mp hclose] at hrest1
    rw [← h.1, ← h.2]
    refine ⟨[item], ⟨by simp, ?_, ?_, ?_⟩, rfl, ?_⟩
    · simpa using ⟨hw, hw'⟩
    · simpa using htext
    · simpa using hnesting
    · rw [hrest, hrest1]
      simp [commaSeparated, ElementText.render, item]
  | none =>
    rw [hclose] at h
    obtain ⟨rest2, hcomma, h⟩ := Option.bind_eq_some_iff.mp h
    obtain ⟨⟨vs, rest3⟩, hmore, h⟩ := Option.bind_eq_some_iff.mp h
    rw [Option.some.injEq, Prod.mk.injEq] at h
    rw [byte_eq_some.mp hcomma] at hrest1
    obtain ⟨items, hread, hvs, heq⟩ := ih.elements hmore
    rw [← h.1, ← h.2]
    refine ⟨item :: items, ⟨by simp, ?_, ?_, ?_⟩, by rw [hvs]; rfl, ?_⟩
    · exact List.forall_mem_cons.mpr ⟨⟨hw, hw'⟩, hread.space⟩
    · exact List.forall_mem_cons.mpr ⟨htext, hread.values⟩
    · exact List.forall_mem_cons.mpr ⟨hnesting, hread.nesting⟩
    · rw [hrest, hrest1, heq, List.map_cons,
        commaSeparated_cons (by simpa using hread.nonempty)]
      simp [ElementText.render, item]

theorem members_step (ih : LevelSound loop fuel) {ms : List (Bytes × Json)}
    (h : members loop (fuel + 1) depth names rest = some (ms, after)) :
    ∃ items, MembersRead depth names items ∧ ms = items.map (·.member) ∧
      rest = commaSeparated (items.map (·.render)) ++ Ascii.rightBrace :: after := by
  rw [members] at h
  obtain ⟨⟨name, rest1⟩, hname, h⟩ := Option.bind_eq_some_iff.mp h
  obtain ⟨nameText, cs, hnameText, hcs, hrest⟩ := string_sound hname
  obtain ⟨w, hw, hskip⟩ := skipWhitespace_spec rest
  rw [hrest] at hskip
  dsimp only at h
  by_cases hmem : name ∈ names
  · rw [if_pos hmem] at h
    cases h
  rw [if_neg hmem] at h
  obtain ⟨rest2, hcolon, h⟩ := Option.bind_eq_some_iff.mp h
  obtain ⟨w1, hw1, hskip1⟩ := skipWhitespace_spec rest1
  rw [byte_eq_some.mp hcolon] at hskip1
  obtain ⟨⟨v, rest3⟩, hvalue, h⟩ := Option.bind_eq_some_iff.mp h
  obtain ⟨w2, t, hw2, htext, hnesting, hrest2⟩ := ih.value hvalue
  obtain ⟨w3, hw3, hskip3⟩ := skipWhitespace_spec rest3
  dsimp only at h
  let item : MemberText := ⟨w, nameText, cs, w1, w2, t, w3, v⟩
  have hlexical : item.Lexical := ⟨hw, hnameText, hw1, hw2, hw3⟩
  have hmember : item.member = (name, v) := by rw [MemberText.member, hcs]
  have hfresh : item.member.1 ∉ names := by rwa [hmember]
  cases hclose : byte Ascii.rightBrace (skipWhitespace rest3) with
  | some rest4 =>
    rw [hclose, Option.some.injEq, Prod.mk.injEq] at h
    rw [byte_eq_some.mp hclose] at hskip3
    rw [← h.1, ← h.2]
    refine ⟨[item], ⟨by simp, ?_, ?_, ?_, ?_, ?_⟩, ?_, ?_⟩
    · simpa using hlexical
    · simpa using htext
    · simp
    · simpa using hfresh
    · simpa using hnesting
    · rw [List.map_singleton, hmember]
    · rw [hskip, hskip1, hrest2, hskip3]
      simp [commaSeparated, MemberText.render, item]
  | none =>
    rw [hclose] at h
    obtain ⟨rest4, hcomma, h⟩ := Option.bind_eq_some_iff.mp h
    obtain ⟨⟨ns, rest5⟩, hmore, h⟩ := Option.bind_eq_some_iff.mp h
    rw [Option.some.injEq, Prod.mk.injEq] at h
    rw [byte_eq_some.mp hcomma] at hskip3
    obtain ⟨items, hread, hns, heq⟩ := ih.members hmore
    rw [← h.1, ← h.2]
    refine ⟨item :: items, ⟨by simp, ?_, ?_, ?_, ?_, ?_⟩, ?_, ?_⟩
    · exact List.forall_mem_cons.mpr ⟨hlexical, hread.lexical⟩
    · exact List.forall_mem_cons.mpr ⟨htext, hread.values⟩
    · refine List.nodup_cons.mpr ⟨fun hin => ?_, hread.distinct⟩
      obtain ⟨m, hm, hname⟩ := List.mem_map.mp hin
      dsimp only at hname
      rw [hmember] at hname
      exact hread.fresh m hm (by rw [hname]; exact List.mem_cons_self)
    · refine List.forall_mem_cons.mpr ⟨hfresh, fun m hm hin => hread.fresh m hm ?_⟩
      exact List.mem_cons_of_mem _ hin
    · exact List.forall_mem_cons.mpr ⟨hnesting, hread.nesting⟩
    · rw [List.map_cons, hmember, hns]
    · rw [hskip, hskip1, hrest2, hskip3, heq, List.map_cons,
        commaSeparated_cons (by simpa using hread.nonempty)]
      simp [MemberText.render, item]

theorem levelSound (loop fuel : Nat) : LevelSound loop fuel := by
  induction fuel with
  | zero => exact LevelSound.zero
  | succ fuel ih =>
    exact ⟨value_step ih, object_step ih, members_step ih, array_step ih, elements_step ih⟩

/-- A text that the reader accepts is a JSON text of the value it returns, and
no value in it is inside more containers than the scanner supports. -/
theorem decode_sound {text : Bytes} {v : Json} (h : decode text = some v) :
    JsonText text v ∧ v.nesting ≤ maximumDepth := by
  rw [decode, value_skipWhitespace] at h
  obtain ⟨⟨w, rest⟩, hvalue, h⟩ := Option.bind_eq_some_iff.mp h
  obtain ⟨before, t, hbefore, htext, hnesting, heq⟩ := (levelSound _ _).value hvalue
  obtain ⟨trailing, htrailing, hskip⟩ := skipWhitespace_spec rest
  dsimp only at h
  by_cases hend : skipWhitespace rest = []
  · rw [if_pos hend, Option.some.injEq] at h
    rw [hend, List.append_nil] at hskip
    rw [← h]
    exact ⟨⟨before, t, trailing, hbefore, htext, htrailing, by rw [heq, hskip]⟩, hnesting⟩
  · rw [if_neg hend] at h
    cases h

end MissionWeave.Decoder
