import MissionWeave.Json.DecoderComplete
import MissionWeave.Json.ScannerReads
import MissionWeave.Json.ScannerEnds

/-!
# Strict JSON

What the scanner accepts, in terms of the grammar.

* `scan_eq_ok_iff`: a text is accepted exactly when it is well-formed UTF-8
  and a JSON text whose values are inside at most 512 containers.
* `JsonText.eq`: such a text denotes one value.
-/

namespace MissionWeave

open StrictScanner (scan maximumDepth)

/-! ## Encoding -/

theorem Utf8.WellFormed.append {xs ys : Bytes} (hx : WellFormed xs) (hy : WellFormed ys) :
    WellFormed (xs ++ ys) := by
  obtain ⟨cs, rfl⟩ := hx
  obtain ⟨ds, rfl⟩ := hy
  exact ⟨cs ++ ds, (encodeAll_append cs ds).symm⟩

theorem Utf8.WellFormed.nil : WellFormed [] := ⟨[], rfl⟩

theorem Utf8.WellFormed.encodeChar (c : Char) : WellFormed (String.utf8EncodeChar c) :=
  ⟨[c], by simp⟩

theorem Utf8.WellFormed.byte {b : UInt8} (h : b < 0x80) : WellFormed [b] := by
  obtain ⟨c, _, hencode⟩ := Decoder.ascii_char h
  exact hencode ▸ encodeChar c

theorem Utf8.WellFormed.cons {b : UInt8} {bs : Bytes} (h : b < 0x80) (hbs : WellFormed bs) :
    WellFormed (b :: bs) :=
  (byte h).append hbs

theorem Utf8.WellFormed.ascii {bs : Bytes} (h : ∀ b ∈ bs, b < 0x80) : WellFormed bs := by
  induction bs with
  | nil => exact nil
  | cons b bs ih =>
    obtain ⟨hb, hbs⟩ := List.forall_mem_cons.mp h
    exact cons hb (ih hbs)

theorem Whitespace.wellFormed {w : Bytes} (h : Whitespace w) : Utf8.WellFormed w := by
  refine Utf8.WellFormed.ascii fun b hb => ?_
  rcases h b hb with rfl | rfl | rfl | rfl <;> decide

theorem Ascii.lt_of_isDigit {b : UInt8} (h : isDigit b = true) : b < 0x80 := by
  simp only [isDigit, Bool.and_eq_true, decide_eq_true_eq, UInt8.le_iff_toNat_le] at h
  rw [UInt8.lt_iff_toNat_lt]
  exact Nat.lt_of_le_of_lt h.2 (by decide)

theorem Digits.wellFormed {ds : Bytes} (h : Digits ds) : Utf8.WellFormed ds :=
  Utf8.WellFormed.ascii fun d hd => Ascii.lt_of_isDigit (h.2 d hd)

theorem NumberText.Valid.wellFormed {n : NumberText} (h : n.Valid) :
    Utf8.WellFormed n.render := by
  have hsign : Utf8.WellFormed (if n.negative then [Ascii.minus] else []) := by
    split_ifs
    · exact Utf8.WellFormed.byte (by decide)
    · exact Utf8.WellFormed.nil
  have hfraction : Utf8.WellFormed (renderFraction n.fraction) := by
    cases hf : n.fraction with
    | none => exact Utf8.WellFormed.nil
    | some ds => exact (h.fraction ds hf).wellFormed.cons (by decide)
  have hexponent : Utf8.WellFormed (renderExponent n.exponent) := by
    cases he : n.exponent with
    | none => exact Utf8.WellFormed.nil
    | some e =>
      obtain ⟨hmarker, hsign, hdigits⟩ := h.exponent e he
      have hsign : Utf8.WellFormed e.sign.toList := by
        refine Utf8.WellFormed.ascii fun b hb => ?_
        rcases hsign b (Option.mem_toList.mp hb) with rfl | rfl <;> decide
      refine Utf8.WellFormed.cons ?_ (hsign.append hdigits.wellFormed)
      rcases hmarker with h | h <;> rw [h] <;> decide
  exact hsign.append ((Decoder.digits_of_integerPart h.integer).wellFormed.append
    (hfraction.append hexponent))

theorem Ascii.lt_of_hexValue? {b : UInt8} {v : Nat} (h : hexValue? b = some v) : b < 0x80 := by
  by_contra hlt
  rw [UInt8.not_lt, UInt8.le_iff_toNat_le] at hlt
  have hge : 0x80 ≤ b.toNat := hlt
  have hle (c : UInt8) (hc : c.toNat < 0x80) : ¬b ≤ c := by
    rw [UInt8.le_iff_toNat_le]
    omega
  have hdigit : ¬b ≤ nine := hle _ (by decide)
  have hlower : ¬b ≤ 0x66 := hle _ (by decide)
  have hupper : ¬b ≤ 0x46 := hle _ (by decide)
  simp [hexValue?, isDigit, hdigit, hlower, hupper] at h

theorem hexQuad?_wellFormed {quad : Bytes} {v : Nat} (h : hexQuad? quad = some v) :
    Utf8.WellFormed quad := by
  match quad, h with
  | [a, b, c, d], h =>
    obtain ⟨va, ha, h⟩ := Option.bind_eq_some_iff.mp h
    obtain ⟨vb, hb, h⟩ := Option.bind_eq_some_iff.mp h
    obtain ⟨vc, hc, h⟩ := Option.bind_eq_some_iff.mp h
    obtain ⟨vd, hd, -⟩ := Option.bind_eq_some_iff.mp h
    exact .cons (Ascii.lt_of_hexValue? ha) (.cons (Ascii.lt_of_hexValue? hb)
      (.cons (Ascii.lt_of_hexValue? hc) (.byte (Ascii.lt_of_hexValue? hd))))

theorem CharText.wellFormed {t : Bytes} {c : Char} (h : CharText t c) : Utf8.WellFormed t := by
  cases h with
  | unescaped => exact Utf8.WellFormed.encodeChar c
  | @escape letter c letter_eq =>
    refine .cons (by decide) (.byte ?_)
    rw [escapedChar?] at letter_eq
    split_ifs at letter_eq <;> subst letter <;> decide
  | unicode quad_eq => exact .cons (by decide) (.cons (by decide) (hexQuad?_wellFormed quad_eq))
  | surrogates high_eq low_eq =>
    exact .cons (by decide) (.cons (by decide) ((hexQuad?_wellFormed high_eq).append
      (.cons (by decide) (.cons (by decide) (hexQuad?_wellFormed low_eq)))))

theorem StringText.wellFormed {t : Bytes} {cs : List Char} (h : StringText t cs) :
    Utf8.WellFormed t := by
  induction h with
  | nil => exact Utf8.WellFormed.nil
  | cons head _ ih => exact head.wellFormed.append ih

theorem commaSeparated_wellFormed {items : List Bytes} (h : ∀ i ∈ items, Utf8.WellFormed i) :
    Utf8.WellFormed (commaSeparated items) := by
  induction items with
  | nil => exact Utf8.WellFormed.nil
  | cons item items ih =>
    obtain ⟨hitem, hitems⟩ := List.forall_mem_cons.mp h
    cases items with
    | nil => exact hitem
    | cons next items => exact hitem.append (.cons (by decide) (ih hitems))

theorem ValueText.wellFormed {t : Bytes} {v : Json} (h : ValueText t v) : Utf8.WellFormed t := by
  have hquoted {open' close : UInt8} {t : Bytes} (ho : open' < 0x80) (ht : Utf8.WellFormed t)
      (hc : close < 0x80) : Utf8.WellFormed (open' :: (t ++ [close])) :=
    .cons ho (ht.append (.byte hc))
  induction h with
  | null => exact .ascii (forall_mem_of_all (by decide))
  | true => exact .ascii (forall_mem_of_all (by decide))
  | false => exact .ascii (forall_mem_of_all (by decide))
  | number n valid => exact valid.wellFormed
  | string text => exact hquoted (by decide) text.wellFormed (by decide)
  | emptyArray space => exact hquoted (by decide) space.wellFormed (by decide)
  | emptyObject space => exact hquoted (by decide) space.wellFormed (by decide)
  | array items nonempty space values ih =>
    refine hquoted (by decide) (commaSeparated_wellFormed ?_) (by decide)
    rw [List.forall_mem_map]
    intro e he
    exact (space e he).1.wellFormed.append ((ih e he).append (space e he).2.wellFormed)
  | object items nonempty lexical values distinct ih =>
    refine hquoted (by decide) (commaSeparated_wellFormed ?_) (by decide)
    rw [List.forall_mem_map]
    intro m hm
    obtain ⟨hbeforeName, hname, hafterName, hbeforeValue, hafterValue⟩ := lexical m hm
    exact hbeforeName.wellFormed.append (.cons (by decide) (hname.wellFormed.append
      (.cons (by decide) (hafterName.wellFormed.append (.cons (by decide)
        (hbeforeValue.wellFormed.append ((ih m hm).append hafterValue.wellFormed)))))))

/-- A JSON text is well-formed UTF-8. -/
theorem JsonText.wellFormed {text : Bytes} {v : Json} (h : JsonText text v) :
    Utf8.WellFormed text := by
  obtain ⟨before, t, after, hbefore, ht, hafter, rfl⟩ := h
  exact hbefore.wellFormed.append (ht.wellFormed.append hafter.wellFormed)

/-! ## Acceptance -/

/-- A text that the scanner supports denotes one value. -/
theorem JsonText.eq {text : Bytes} {v w : Json} (hv : JsonText text v) (hw : JsonText text w)
    (hdepth : v.nesting ≤ maximumDepth) (hdepth' : w.nesting ≤ maximumDepth) : v = w := by
  have h := Decoder.decode_complete hv hdepth
  rw [Decoder.decode_complete hw hdepth'] at h
  exact (Option.some.inj h).symm

namespace StrictScanner

theorem scan_eq_ok_iff_decode (input : Bytes) :
    scan input = .ok () ↔ ∃ v, Decoder.decode input = some v := by
  have hagrees := scan_agrees input
  cases hdecode : Decoder.decode input with
  | none =>
    rw [hdecode] at hagrees
    obtain ⟨e, he, _⟩ := hagrees
    simp [he]
  | some v =>
    rw [hdecode] at hagrees
    obtain ⟨⟨⟩, hok, _⟩ := hagrees
    simp [hok]

/-- What the scanner does not accept it rejects as such. -/
theorem exists_strict_of_decode {input : Bytes} (h : Decoder.decode input = none) :
    ∃ message position, scan input = .error (.strict message position) := by
  have hagrees := scan_agrees input
  rw [h] at hagrees
  obtain ⟨e, he, hrange⟩ := hagrees
  cases e with
  | strict message position => exact ⟨message, position, he⟩
  | outOfFuel => exact absurd he (scan_ne_outOfFuel input)
  | outOfBounds index => cases hrange
  | wrapped position => cases hrange

/-- The scanner accepts exactly the well-formed UTF-8 byte strings that are a
JSON text, with no value inside more than 512 containers. -/
theorem scan_eq_ok_iff (input : Bytes) :
    scan input = .ok () ↔
      Utf8.WellFormed input ∧ ∃ v, JsonText input v ∧ v.nesting ≤ maximumDepth := by
  rw [scan_eq_ok_iff_decode]
  simp only [Decoder.decode_eq_some]
  exact ⟨fun ⟨v, hv⟩ => ⟨hv.1.wellFormed, v, hv⟩, fun ⟨_, h⟩ => h⟩

example : scan (ascii "\x7b\"a\":[1,2.50e+3],\"\\u00e9\":null\x7d") = .ok () := by decide +kernel

example : scan (ascii "\x7b\"a\":1,\"\\u0061\":2\x7d") ≠ .ok () := by decide +kernel

end StrictScanner

end MissionWeave
