import MissionWeave.Json.Strict

/-!
# `sanitize_unpaired_surrogates`

The pass over the received bytes in front of the strict parser: an escape of an
unpaired surrogate is replaced, and a flag is raised.  Like in the serializer,
`skip` counts the bytes of the escape at hand that the loop has passed already.

* `text_of_not_flagged`: without the flag nothing was replaced.
* `sanitize_of_jsonText`: a JSON text is not flagged.
-/

namespace MissionWeave.Sanitizer

open StrictScanner (isHighSurrogate isLowSurrogate)

structure SanitizedJson where
  text : Bytes
  unpairedSurrogate : Bool
  deriving DecidableEq, Repr

/-- The output with `bytes` appended before the rest of the input is read. -/
def SanitizedJson.after (rest : SanitizedJson) (bytes : Bytes) : SanitizedJson :=
  ⟨bytes ++ rest.text, rest.unpairedSurrogate⟩

/-- The output with the placeholder appended before the rest of the input is
read. -/
def SanitizedJson.afterPlaceholder (rest : SanitizedJson) : SanitizedJson :=
  ⟨ascii "\\uE000" ++ rest.text, true⟩

/-- `hex_quad` of a `\u` escape in front of the text. -/
def escapedUnit? : Bytes → Option Nat
  | b :: u :: h1 :: h2 :: h3 :: h4 :: _ =>
    if b = Ascii.backslash ∧ u = Ascii.lowerU then hexQuad? [h1, h2, h3, h4] else none
  | _ => none

/-- The loop of `sanitize_unpaired_surrogates`. -/
def sanitizeFrom : Nat → Bool → Bytes → SanitizedJson
  | _, _, [] => ⟨[], false⟩
  | skip + 1, inString, _ :: rest => sanitizeFrom skip inString rest
  | 0, false, value :: rest => (sanitizeFrom 0 (value == Ascii.quote) rest).after [value]
  | 0, true, value :: rest =>
    if value = Ascii.quote then (sanitizeFrom 0 false rest).after [value]
    else if value ≠ Ascii.backslash then (sanitizeFrom 0 true rest).after [value]
    else
      match escapedUnit? (value :: rest) with
      | none => (sanitizeFrom 1 true rest).after ((value :: rest).take 2)
      | some first =>
        if isHighSurrogate first then
          if ((escapedUnit? (rest.drop 5)).map isLowSurrogate).getD false then
            (sanitizeFrom 11 true rest).after ((value :: rest).take 12)
          else (sanitizeFrom 5 true rest).afterPlaceholder
        else if isLowSurrogate first then (sanitizeFrom 5 true rest).afterPlaceholder
        else (sanitizeFrom 5 true rest).after ((value :: rest).take 6)

/-- `sanitize_unpaired_surrogates`. -/
def sanitizeUnpairedSurrogates (input : Bytes) : SanitizedJson := sanitizeFrom 0 false input

/-! ## Without the flag -/

@[simp] theorem after_text (rest : SanitizedJson) (bytes : Bytes) :
    (rest.after bytes).text = bytes ++ rest.text := rfl

@[simp] theorem after_flag (rest : SanitizedJson) (bytes : Bytes) :
    (rest.after bytes).unpairedSurrogate = rest.unpairedSurrogate := rfl

@[simp] theorem afterPlaceholder_flag (rest : SanitizedJson) :
    rest.afterPlaceholder.unpairedSurrogate = true := rfl

variable {value : UInt8} {rest : Bytes}

theorem sanitizeFrom_quote (h : value = Ascii.quote) :
    sanitizeFrom 0 true (value :: rest) = (sanitizeFrom 0 false rest).after [value] := by
  rw [sanitizeFrom, if_pos h]

theorem sanitizeFrom_plain (hquote : value ≠ Ascii.quote) (hbackslash : value ≠ Ascii.backslash) :
    sanitizeFrom 0 true (value :: rest) = (sanitizeFrom 0 true rest).after [value] := by
  rw [sanitizeFrom, if_neg hquote, if_pos hbackslash]

theorem sanitizeFrom_backslash (h : value = Ascii.backslash) :
    sanitizeFrom 0 true (value :: rest) =
      match escapedUnit? (value :: rest) with
      | none => (sanitizeFrom 1 true rest).after ((value :: rest).take 2)
      | some first =>
        if isHighSurrogate first then
          if ((escapedUnit? (rest.drop 5)).map isLowSurrogate).getD false then
            (sanitizeFrom 11 true rest).after ((value :: rest).take 12)
          else (sanitizeFrom 5 true rest).afterPlaceholder
        else if isLowSurrogate first then (sanitizeFrom 5 true rest).afterPlaceholder
        else (sanitizeFrom 5 true rest).after ((value :: rest).take 6) := by
  have hquote : value ≠ Ascii.quote := by
    rw [h]
    decide
  rw [sanitizeFrom, if_neg hquote, if_neg (not_not.mpr h)]

/-- What is appended and what is skipped are the same bytes. -/
theorem take_append_drop_cons (value : UInt8) (rest : Bytes) (count : Nat) :
    (value :: rest).take (count + 1) ++ rest.drop count = value :: rest := by
  rw [List.take_succ_cons, List.cons_append, List.take_append_drop]

theorem text_of_not_flagged_from {skip : Nat} {inString : Bool} {bytes : Bytes}
    (h : (sanitizeFrom skip inString bytes).unpairedSurrogate = false) :
    (sanitizeFrom skip inString bytes).text = bytes.drop skip := by
  induction bytes generalizing skip inString with
  | nil =>
    rw [sanitizeFrom, List.drop_nil]
  | cons value rest ih =>
    cases skip with
    | succ skip =>
      rw [sanitizeFrom] at h ⊢
      rw [ih h, List.drop_succ_cons]
    | zero =>
      cases inString with
      | false =>
        rw [sanitizeFrom, after_flag] at h
        rw [sanitizeFrom, after_text, ih h]
        rfl
      | true =>
        by_cases hquote : value = Ascii.quote
        · rw [sanitizeFrom_quote hquote] at h ⊢
          rw [after_text, ih h]
          rfl
        · by_cases hbackslash : value = Ascii.backslash
          · rw [sanitizeFrom_backslash hbackslash] at h ⊢
            cases hunit : escapedUnit? (value :: rest) with
            | none =>
              rw [hunit] at h
              dsimp only at h ⊢
              rw [after_text, ih h]
              exact take_append_drop_cons value rest 1
            | some first =>
              rw [hunit] at h
              dsimp only at h ⊢
              split_ifs at h ⊢
              · rw [after_text, ih h]
                exact take_append_drop_cons value rest 11
              · rw [afterPlaceholder_flag] at h
                cases h
              · rw [afterPlaceholder_flag] at h
                cases h
              · rw [after_text, ih h]
                exact take_append_drop_cons value rest 5
          · rw [sanitizeFrom_plain hquote hbackslash] at h ⊢
            rw [after_text, ih h]
            rfl

/-- Without the flag nothing was replaced. -/
theorem text_of_not_flagged {input : Bytes}
    (h : (sanitizeUnpairedSurrogates input).unpairedSurrogate = false) :
    (sanitizeUnpairedSurrogates input).text = input :=
  text_of_not_flagged_from h

/-! ## A JSON text is not flagged -/

/-- The loop takes over a text as it is, and is inside a string after it as
stated. -/
def Passes (before : Bool) (text : Bytes) (inString : Bool) : Prop :=
  ∀ rest, sanitizeFrom 0 before (text ++ rest) = (sanitizeFrom 0 inString rest).after text

theorem Passes.nil (inString : Bool) : Passes inString [] inString := fun _ => rfl

theorem Passes.append {b1 b2 b3 : Bool} {xs ys : Bytes} (hx : Passes b1 xs b2)
    (hy : Passes b2 ys b3) : Passes b1 (xs ++ ys) b3 := by
  intro rest
  rw [List.append_assoc, hx, hy, SanitizedJson.after, SanitizedJson.after, SanitizedJson.after,
    List.append_assoc]

theorem Passes.opening : Passes false [Ascii.quote] true := fun rest => by
  rw [List.singleton_append, sanitizeFrom]
  rfl

theorem Passes.closing : Passes true [Ascii.quote] false := fun rest => by
  rw [List.singleton_append, sanitizeFrom_quote rfl]

theorem Passes.outside {text : Bytes} (h : ∀ b ∈ text, b ≠ Ascii.quote) :
    Passes false text false := by
  induction text with
  | nil => exact .nil false
  | cons b text ih =>
    obtain ⟨hb, htext⟩ := List.forall_mem_cons.mp h
    intro rest
    rw [List.cons_append, sanitizeFrom, beq_eq_false_iff_ne.mpr hb, ih htext]
    rfl

theorem Passes.inside {text : Bytes} (h : ∀ b ∈ text, b ≠ Ascii.quote ∧ b ≠ Ascii.backslash) :
    Passes true text true := by
  induction text with
  | nil => exact .nil true
  | cons b text ih =>
    obtain ⟨⟨hquote, hbackslash⟩, htext⟩ := List.forall_mem_cons.mp h
    intro rest
    rw [List.cons_append, sanitizeFrom_plain hquote hbackslash, ih htext]
    rfl

theorem exists_of_hexQuad? {quad : Bytes} {v : Nat} (h : hexQuad? quad = some v) :
    ∃ a b c d, quad = [a, b, c, d] := by
  match quad, h with
  | [a, b, c, d], _ => exact ⟨a, b, c, d, rfl⟩

theorem escapedUnit?_eq {quad : Bytes} {v : Nat} (h : hexQuad? quad = some v) (rest : Bytes) :
    escapedUnit? (Ascii.backslash :: Ascii.lowerU :: (quad ++ rest)) = some v := by
  obtain ⟨a, b, c, d, rfl⟩ := exists_of_hexQuad? h
  rw [← h]
  rfl

theorem Passes.letter {letter : UInt8} (h : letter ≠ Ascii.lowerU) :
    Passes true [Ascii.backslash, letter] true := by
  intro rest
  have hunit : escapedUnit? (Ascii.backslash :: letter :: rest) = none := by
    match rest with
    | _ :: _ :: _ :: _ :: _ => exact if_neg fun hu => h hu.2
    | [] | [_] | [_, _] | [_, _, _] => rfl
  change sanitizeFrom 0 true (Ascii.backslash :: letter :: rest) = _
  rw [sanitizeFrom_backslash rfl, hunit]
  rfl

theorem Passes.unit {quad : Bytes} {v : Nat} (h : hexQuad? quad = some v)
    (hhigh : isHighSurrogate v = false) (hlow : isLowSurrogate v = false) :
    Passes true (Ascii.backslash :: Ascii.lowerU :: quad) true := by
  intro rest
  rw [List.cons_append, List.cons_append, sanitizeFrom_backslash rfl, escapedUnit?_eq h]
  dsimp only
  rw [hhigh, hlow, if_neg Bool.false_ne_true, if_neg Bool.false_ne_true]
  obtain ⟨a, b, c, d, rfl⟩ := exists_of_hexQuad? h
  rfl

theorem Passes.pair {high low : Bytes} {first second : Nat} (hfirst : hexQuad? high = some first)
    (hsecond : hexQuad? low = some second) (hhigh : isHighSurrogate first = true)
    (hlow : isLowSurrogate second = true) :
    Passes true (Ascii.backslash :: Ascii.lowerU ::
      (high ++ (Ascii.backslash :: Ascii.lowerU :: low))) true := by
  intro rest
  have hdrop : (Ascii.lowerU :: (high ++ (Ascii.backslash :: Ascii.lowerU :: low) ++ rest)).drop 5
      = Ascii.backslash :: Ascii.lowerU :: (low ++ rest) := by
    obtain ⟨a, b, c, d, rfl⟩ := exists_of_hexQuad? hfirst
    rfl
  rw [List.cons_append, List.cons_append, sanitizeFrom_backslash rfl, hdrop,
    escapedUnit?_eq hsecond, List.append_assoc, escapedUnit?_eq hfirst]
  dsimp only
  rw [if_pos hhigh, Option.map_some, Option.getD_some, if_pos hlow]
  obtain ⟨a, b, c, d, rfl⟩ := exists_of_hexQuad? hfirst
  obtain ⟨e, f, g, h, rfl⟩ := exists_of_hexQuad? hsecond
  rfl

/-- The bytes of an unescaped character are those of no quote and no
backslash. -/
theorem unescaped_bytes {c : Char} (hquote : c ≠ '"') (hbackslash : c ≠ '\\') :
    ∀ b ∈ String.utf8EncodeChar c, b ≠ Ascii.quote ∧ b ≠ Ascii.backslash := by
  by_cases hascii : c.toNat < 0x80
  · have hne (d : Char) (hd : d.toNat < 0x80) (hcd : c ≠ d) :
        UInt8.ofNat c.toNat ≠ UInt8.ofNat d.toNat := by
      intro heq
      have hnat := congrArg UInt8.toNat heq
      rw [UInt8.toNat_ofNat', UInt8.toNat_ofNat'] at hnat
      exact hcd (Char.toNat_inj.mp (by omega))
    rw [Utf8.encode_ascii hascii]
    exact List.forall_mem_singleton.mpr
      ⟨hne _ (by decide) hquote, hne _ (by decide) hbackslash⟩
  · obtain ⟨lead, continuations, hencode, hsequence⟩ := Utf8.sequence_encode (Nat.not_lt.mp hascii)
    have hge (b : UInt8) (hb : 0x80 ≤ b.toNat) : b ≠ Ascii.quote ∧ b ≠ Ascii.backslash := by
      constructor <;> rintro rfl <;> exact absurd hb (by decide)
    rw [hencode]
    refine List.forall_mem_cons.mpr ⟨hge lead (Decoder.lead_ge_of_sequence hsequence), ?_⟩
    intro b hb
    exact hge b ((Utf8.isContinuation_iff b).mp (hsequence.continuation b hb)).1

theorem CharText.passes {t : Bytes} {c : Char} (h : CharText t c) : Passes true t true := by
  cases h with
  | unescaped control quote backslash => exact .inside (unescaped_bytes quote backslash)
  | escape letter_eq =>
    refine .letter fun hu => ?_
    rw [hu, show escapedChar? Ascii.lowerU = none by decide] at letter_eq
    cases letter_eq
  | unicode quad_eq =>
    obtain ⟨hhigh, hlow⟩ := Decoder.toNat_not_surrogate c
    exact .unit quad_eq hhigh hlow
  | surrogates high_eq low_eq first_high second_low =>
    exact .pair high_eq low_eq ((Decoder.isHighSurrogate_iff _).mpr first_high)
      ((Decoder.isLowSurrogate_iff _).mpr second_low)

theorem StringText.passes {t : Bytes} {cs : List Char} (h : StringText t cs) :
    Passes true t true := by
  induction h with
  | nil => exact .nil true
  | cons head _ ih => exact (CharText.passes head).append ih

/-- A string passes with its quotes. -/
theorem StringText.passes_quoted {t : Bytes} {cs : List Char} (h : StringText t cs) :
    Passes false (Ascii.quote :: (t ++ [Ascii.quote])) false :=
  Passes.opening.append ((StringText.passes h).append .closing)

theorem Whitespace.passes {w : Bytes} (h : Whitespace w) : Passes false w false := by
  refine .outside fun b hb => ?_
  rcases h b hb with rfl | rfl | rfl | rfl <;> decide

theorem ne_quote_of_isDigit {b : UInt8} (h : Ascii.isDigit b = true) : b ≠ Ascii.quote := by
  rintro rfl
  exact absurd h (by decide)

theorem NumberText.Valid.passes {n : NumberText} (h : n.Valid) :
    Passes false n.render false := by
  refine .outside ?_
  have hdigits {ds : Bytes} (hds : Digits ds) : ∀ b ∈ ds, b ≠ Ascii.quote := fun b hb =>
    ne_quote_of_isDigit (hds.2 b hb)
  have hsign : ∀ b ∈ (if n.negative then [Ascii.minus] else []), b ≠ Ascii.quote := by
    split_ifs <;> exact forall_mem_of_all (by decide)
  have hfraction : ∀ b ∈ renderFraction n.fraction, b ≠ Ascii.quote := by
    cases hf : n.fraction with
    | none => exact fun b hb => absurd hb List.not_mem_nil
    | some ds => exact List.forall_mem_cons.mpr ⟨by decide, hdigits (h.fraction ds hf)⟩
  have hexponent : ∀ b ∈ renderExponent n.exponent, b ≠ Ascii.quote := by
    cases he : n.exponent with
    | none => exact fun b hb => absurd hb List.not_mem_nil
    | some e =>
      obtain ⟨hmarker, hsign, hds⟩ := h.exponent e he
      refine List.forall_mem_cons.mpr ⟨?_, List.forall_mem_append.mpr ⟨fun b hb => ?_, hdigits hds⟩⟩
      · rcases hmarker with h | h <;> rw [h] <;> decide
      · rcases hsign b (Option.mem_toList.mp hb) with rfl | rfl <;> decide
  exact List.forall_mem_append.mpr ⟨hsign, List.forall_mem_append.mpr
    ⟨hdigits (Decoder.digits_of_integerPart h.integer),
      List.forall_mem_append.mpr ⟨hfraction, hexponent⟩⟩⟩

theorem Passes.byte {b : UInt8} (h : b ≠ Ascii.quote) : Passes false [b] false :=
  .outside (List.forall_mem_singleton.mpr h)

theorem passes_commaSeparated {items : List Bytes} (h : ∀ i ∈ items, Passes false i false) :
    Passes false (commaSeparated items) false := by
  induction items with
  | nil => exact .nil false
  | cons item items ih =>
    obtain ⟨hitem, hitems⟩ := List.forall_mem_cons.mp h
    cases items with
    | nil => exact hitem
    | cons next items => exact hitem.append ((Passes.byte (by decide)).append (ih hitems))

/-- A text passes between two bytes that are no quotes. -/
theorem Passes.enclosed {first last : UInt8} {text : Bytes} (hfirst : first ≠ Ascii.quote)
    (h : Passes false text false) (hlast : last ≠ Ascii.quote) :
    Passes false (first :: (text ++ [last])) false :=
  (Passes.byte hfirst).append (h.append (.byte hlast))

theorem ValueText.passes {t : Bytes} {v : Json} (h : ValueText t v) : Passes false t false := by
  induction h with
  | null => exact .outside (forall_mem_of_all (by decide))
  | true => exact .outside (forall_mem_of_all (by decide))
  | false => exact .outside (forall_mem_of_all (by decide))
  | number n valid => exact NumberText.Valid.passes valid
  | string text => exact StringText.passes_quoted text
  | emptyArray space => exact .enclosed (by decide) (Whitespace.passes space) (by decide)
  | emptyObject space => exact .enclosed (by decide) (Whitespace.passes space) (by decide)
  | array items nonempty space values ih =>
    refine .enclosed (by decide) (passes_commaSeparated ?_) (by decide)
    rw [List.forall_mem_map]
    intro e he
    exact (Whitespace.passes (space e he).1).append
      ((ih e he).append (Whitespace.passes (space e he).2))
  | object items nonempty lexical values distinct ih =>
    refine .enclosed (by decide) (passes_commaSeparated ?_) (by decide)
    rw [List.forall_mem_map]
    intro m hm
    obtain ⟨hbeforeName, hname, hafterName, hbeforeValue, hafterValue⟩ := lexical m hm
    have hvalue : Passes false (m.beforeValue ++ (m.text ++ m.afterValue)) false :=
      (Whitespace.passes hbeforeValue).append ((ih m hm).append (Whitespace.passes hafterValue))
    have hcolon : Passes false
        (m.afterName ++ Ascii.colon :: (m.beforeValue ++ (m.text ++ m.afterValue))) false :=
      (Whitespace.passes hafterName).append ((Passes.byte (by decide)).append hvalue)
    exact (Whitespace.passes hbeforeName).append (Passes.opening.append
      ((StringText.passes hname).append (Passes.closing.append hcolon)))

/-- A JSON text is taken over as it is, and it is not flagged. -/
theorem sanitize_of_jsonText {text : Bytes} {v : Json} (h : JsonText text v) :
    sanitizeUnpairedSurrogates text = ⟨text, false⟩ := by
  obtain ⟨before, t, after, hbefore, ht, hafter, rfl⟩ := h
  have hpasses : Passes false (before ++ (t ++ after)) false :=
    (Whitespace.passes hbefore).append ((ValueText.passes ht).append (Whitespace.passes hafter))
  have hloop := hpasses []
  rw [List.append_nil] at hloop
  rw [sanitizeUnpairedSurrogates, hloop, sanitizeFrom, SanitizedJson.after, List.append_nil]

end MissionWeave.Sanitizer
