import MissionWeave.Json.SpellingReads
import MissionWeave.SignedDocument.Timestamps

/-!
# Unpaired surrogates

A text that would be strict JSON but for escapes of unpaired surrogates is
sanitized in front of the strict parser, so that it is not rejected before the
stage that is to reject it.  The grammar of these texts is that of
`Json.Spelling` with the strings of `RelaxedText`.

* `sanitize_spelled`: the sanitized text spells the same, with U+E000 for each
  unpaired surrogate.
* `reportsUnpaired_iff`: the stage that rejects such a document.
* `surrogates_counterexample`: two different names that are sanitized to the
  same one.
-/

namespace MissionWeave

/-! ## Strings with unpaired surrogates -/

/-- What a string is made of if the escape of a surrogate may stand alone. -/
inductive RelaxedChar
  | char (c : Char)
  | unpaired (unit : Nat)
  deriving DecidableEq

namespace RelaxedChar

def isUnpaired : RelaxedChar → Bool
  | .char _ => false
  | .unpaired _ => true

/-- The UTF-16 code units. -/
def units : RelaxedChar → List UInt16
  | .char c => Canonical.codePointUnits c.toNat
  | .unpaired unit => [UInt16.ofNat unit]

/-- The character that takes its place: U+E000 for an unpaired surrogate. -/
def replaced : RelaxedChar → Char
  | .char c => c
  | .unpaired _ => Char.ofNat 0xE000

/-- The string starts with an unpaired low surrogate. -/
def StartsLow (us : List RelaxedChar) : Prop :=
  ∃ unit, us.head? = some (.unpaired unit) ∧ 0xDC00 ≤ unit

end RelaxedChar

open RelaxedChar (units replaced isUnpaired StartsLow)

/-- `*char`, where the escape of a surrogate that is not half of a pair stands
for itself. -/
inductive RelaxedText : Bytes → List RelaxedChar → Prop
  | nil : RelaxedText [] []
  | char {t ts : Bytes} {c : Char} {us : List RelaxedChar} (head : CharText t c)
      (tail : RelaxedText ts us) : RelaxedText (t ++ ts) (.char c :: us)
  | unpaired {quad ts : Bytes} {unit : Nat} {us : List RelaxedChar}
      (quad_eq : hexQuad? quad = some unit) (surrogate : 0xD800 ≤ unit ∧ unit ≤ 0xDFFF)
      (alone : unit ≤ 0xDBFF → ¬StartsLow us) (tail : RelaxedText ts us) :
      RelaxedText (Ascii.backslash :: Ascii.lowerU :: (quad ++ ts)) (.unpaired unit :: us)

/-- A name as a sequence of UTF-16 code units. -/
def nameUnits (name : List RelaxedChar) : List UInt16 := name.flatMap units

/-- A name with U+E000 for each unpaired surrogate. -/
def replacedName (name : List RelaxedChar) : List Char := name.map replaced

/-- There is an unpaired surrogate in a string. -/
def HasUnpaired (string : List RelaxedChar) : Prop := string.any isUnpaired = true

/-- The strings of the sanitized text. -/
def ReplacedText (t : Bytes) (us : List RelaxedChar) : Prop := StringText t (replacedName us)

namespace Sanitizer

open StrictScanner (isHighSurrogate isLowSurrogate)

/-! ## The sanitized text -/

/-- The output of two parts of the input, one after the other. -/
def SanitizedJson.join (first second : SanitizedJson) : SanitizedJson :=
  ⟨first.text ++ second.text, first.unpairedSurrogate || second.unpairedSurrogate⟩

theorem SanitizedJson.join_assoc (x y z : SanitizedJson) :
    (x.join y).join z = x.join (y.join z) := by
  unfold join
  rw [List.append_assoc, Bool.or_assoc]

theorem after_join (x y : SanitizedJson) (bytes : Bytes) :
    (x.join y).after bytes = (x.after bytes).join y := by
  unfold SanitizedJson.after SanitizedJson.join
  rw [List.append_assoc]

theorem afterPlaceholder_join (x y : SanitizedJson) :
    (x.join y).afterPlaceholder = x.afterPlaceholder.join y := by
  unfold SanitizedJson.afterPlaceholder SanitizedJson.join
  rw [List.append_assoc, Bool.true_or]

/-- The loop makes `out` of the text, and is inside a string after it as
stated. -/
def Rewrites (before : Bool) (text : Bytes) (out : SanitizedJson) (inString : Bool) : Prop :=
  ∀ rest, sanitizeFrom 0 before (text ++ rest) = out.join (sanitizeFrom 0 inString rest)

theorem Passes.rewrites {before inString : Bool} {text : Bytes} (h : Passes before text inString) :
    Rewrites before text ⟨text, false⟩ inString := fun rest => h rest

theorem Rewrites.append {b1 b2 b3 : Bool} {xs ys : Bytes} {x y : SanitizedJson}
    (hx : Rewrites b1 xs x b2) (hy : Rewrites b2 ys y b3) :
    Rewrites b1 (xs ++ ys) (x.join y) b3 := by
  intro rest
  rw [List.append_assoc, hx, hy, SanitizedJson.join_assoc]

theorem escapedUnit?_eq_none {b u : UInt8} (h : ¬(b = Ascii.backslash ∧ u = Ascii.lowerU))
    (rest : Bytes) : escapedUnit? (b :: u :: rest) = none := by
  match rest with
  | _ :: _ :: _ :: _ :: _ => exact if_neg h
  | [] | [_] | [_, _] | [_, _, _] => rfl

theorem escapedUnit?_of_ne {b : UInt8} (h : b ≠ Ascii.backslash) (rest : Bytes) :
    escapedUnit? (b :: rest) = none := by
  cases rest with
  | nil => rfl
  | cons u rest => exact escapedUnit?_eq_none (fun hbu => h hbu.1) rest

/-- The lookahead of the loop. -/
def escapesLow (rest : Bytes) : Bool := ((escapedUnit? rest).map isLowSurrogate).getD false

theorem CharText.escapesLow {t : Bytes} {c : Char} (h : CharText t c) (rest : Bytes) :
    escapesLow (t ++ rest) = false := by
  unfold Sanitizer.escapesLow
  cases h with
  | unescaped control quote backslash =>
    cases hencode : String.utf8EncodeChar c with
    | nil => exact absurd (congrArg List.length hencode) (Decoder.utf8EncodeChar_length_pos c).ne'
    | cons b bs =>
      have hb := unescaped_bytes quote backslash b (by rw [hencode]; exact List.mem_cons_self)
      rw [List.cons_append, escapedUnit?_of_ne hb.2]
      rfl
  | @escape letter c letter_eq =>
    have hletter : letter ≠ Ascii.lowerU := by
      rintro rfl
      rw [show escapedChar? Ascii.lowerU = none by decide] at letter_eq
      cases letter_eq
    rw [List.cons_append, List.cons_append, escapedUnit?_eq_none fun h => hletter h.2]
    rfl
  | unicode quad_eq =>
    rw [List.cons_append, List.cons_append, escapedUnit?_eq quad_eq, Option.map_some,
      Option.getD_some]
    exact (Decoder.toNat_not_surrogate c).2
  | @surrogates high low first second c high_eq low_eq first_high second_low pair =>
    rw [List.cons_append, List.cons_append, List.append_assoc, escapedUnit?_eq high_eq,
      Option.map_some, Option.getD_some, Bool.eq_false_iff, ne_eq, Decoder.isLowSurrogate_iff]
    omega

/-- No escape of a low surrogate follows where no unpaired one does. -/
theorem RelaxedText.escapesLow {t : Bytes} {us : List RelaxedChar} (h : RelaxedText t us)
    (hlow : ¬StartsLow us) (rest : Bytes) : escapesLow (t ++ Ascii.quote :: rest) = false := by
  cases h with
  | nil =>
    unfold Sanitizer.escapesLow
    rw [List.nil_append, escapedUnit?_of_ne (by decide)]
    rfl
  | char head tail =>
    rw [List.append_assoc]
    exact CharText.escapesLow head _
  | @unpaired quad ts unit us quad_eq surrogate alone tail =>
    unfold Sanitizer.escapesLow
    rw [List.cons_append, List.cons_append, List.append_assoc, escapedUnit?_eq quad_eq,
      Option.map_some, Option.getD_some, Bool.eq_false_iff, ne_eq, Decoder.isLowSurrogate_iff]
    intro h
    exact hlow ⟨unit, rfl, h.1⟩

/-- The escape of an unpaired surrogate is replaced. -/
theorem sanitizeFrom_unpaired {quad rest : Bytes} {unit : Nat} (hquad : hexQuad? quad = some unit)
    (hsurrogate : 0xD800 ≤ unit ∧ unit ≤ 0xDFFF)
    (halone : unit ≤ 0xDBFF → escapesLow rest = false) :
    sanitizeFrom 0 true (Ascii.backslash :: Ascii.lowerU :: (quad ++ rest)) =
      (sanitizeFrom 0 true rest).afterPlaceholder := by
  have hskip : sanitizeFrom 5 true (Ascii.lowerU :: (quad ++ rest)) = sanitizeFrom 0 true rest := by
    obtain ⟨a, b, c, d, rfl⟩ := exists_of_hexQuad? hquad
    rfl
  have hdrop : (Ascii.lowerU :: (quad ++ rest)).drop 5 = rest := by
    obtain ⟨a, b, c, d, rfl⟩ := exists_of_hexQuad? hquad
    rfl
  rw [sanitizeFrom_backslash rfl, escapedUnit?_eq hquad]
  dsimp only
  rw [hdrop, hskip]
  by_cases hhigh : unit ≤ 0xDBFF
  · have hlow := halone hhigh
    unfold escapesLow at hlow
    rw [if_pos ((Decoder.isHighSurrogate_iff _).mpr ⟨hsurrogate.1, hhigh⟩), hlow,
      if_neg Bool.false_ne_true]
  · rw [if_neg (by rw [Decoder.isHighSurrogate_iff]; omega),
      if_pos ((Decoder.isLowSurrogate_iff _).mpr (by omega))]

/-- What becomes of the inside of a string. -/
theorem RelaxedText.exists_replaced {t : Bytes} {us : List RelaxedChar} (h : RelaxedText t us) :
    ∃ t', ReplacedText t' us ∧ ∀ rest, sanitizeFrom 0 true (t ++ Ascii.quote :: rest) =
      SanitizedJson.join ⟨t', us.any isUnpaired⟩ (sanitizeFrom 0 true (Ascii.quote :: rest)) := by
  induction h with
  | nil => exact ⟨[], .nil, fun rest => rfl⟩
  | @char t ts c us head tail ih =>
    obtain ⟨t', ht', hrewrites⟩ := ih
    refine ⟨t ++ t', .cons head ht', fun rest => ?_⟩
    rw [List.append_assoc, CharText.passes head, hrewrites, after_join]
    rfl
  | @unpaired quad ts unit us quad_eq surrogate alone tail ih =>
    obtain ⟨t', ht', hrewrites⟩ := ih
    have hplaceholder : CharText (ascii "\\uE000") (Char.ofNat 0xE000) :=
      .unicode (show hexQuad? (ascii "E000") = some (Char.ofNat 0xE000).toNat by decide)
    refine ⟨ascii "\\uE000" ++ t', .cons hplaceholder ht', fun rest => ?_⟩
    rw [List.cons_append, List.cons_append, List.append_assoc, sanitizeFrom_unpaired quad_eq
      surrogate fun hhigh => RelaxedText.escapesLow tail (alone hhigh) rest, hrewrites,
      afterPlaceholder_join]
    rfl

/-- What becomes of a string with its quotes. -/
theorem RelaxedText.exists_quoted {t : Bytes} {us : List RelaxedChar} (h : RelaxedText t us) :
    ∃ t', ReplacedText t' us ∧ Rewrites false (Ascii.quote :: (t ++ [Ascii.quote]))
      ⟨Ascii.quote :: (t' ++ [Ascii.quote]), us.any isUnpaired⟩ false := by
  obtain ⟨t', ht', hrewrites⟩ := RelaxedText.exists_replaced h
  refine ⟨t', ht', fun rest => ?_⟩
  have hopening := Passes.opening (t ++ Ascii.quote :: rest)
  rw [List.cons_append, List.append_assoc]
  show sanitizeFrom 0 false ([Ascii.quote] ++ (t ++ Ascii.quote :: rest)) = _
  rw [hopening, hrewrites, sanitizeFrom_quote rfl]
  simp [SanitizedJson.after, SanitizedJson.join]

theorem rewrites_commaSeparated {α : Type} {text : α → Bytes} {out : α → SanitizedJson}
    {items : List α} (h : ∀ i ∈ items, Rewrites false (text i) (out i) false) :
    Rewrites false (commaSeparated (items.map text))
      ⟨commaSeparated (items.map fun i => (out i).text),
        items.any fun i => (out i).unpairedSurrogate⟩ false := by
  induction items with
  | nil => exact (Passes.nil false).rewrites
  | cons item items ih =>
    obtain ⟨hitem, hitems⟩ := List.forall_mem_cons.mp h
    cases items with
    | nil =>
      intro rest
      show sanitizeFrom 0 false (text item ++ rest) = _
      rw [hitem rest]
      simp [SanitizedJson.join, commaSeparated]
    | cons next items =>
      have hcomma : Rewrites false [Ascii.comma] ⟨[Ascii.comma], false⟩ false :=
        (Passes.byte (by decide)).rewrites
      exact hitem.append (hcomma.append (ih hitems))

theorem Rewrites.enclosed {first last : UInt8} {text : Bytes} {out : SanitizedJson}
    (hfirst : first ≠ Ascii.quote) (h : Rewrites false text out false)
    (hlast : last ≠ Ascii.quote) :
    Rewrites false (first :: (text ++ [last]))
      ⟨first :: (out.text ++ [last]), out.unpairedSurrogate⟩ false := by
  have henclosed := (Passes.byte hfirst).rewrites.append (h.append (Passes.byte hlast).rewrites)
  simpa [SanitizedJson.join] using henclosed

/-- What becomes of a text between whitespace. -/
theorem Rewrites.spaced {w w' text : Bytes} {out : SanitizedJson} (hw : Whitespace w)
    (h : Rewrites false text out false) (hw' : Whitespace w') :
    Rewrites false (w ++ (text ++ w')) ⟨w ++ (out.text ++ w'), out.unpairedSurrogate⟩ false := by
  have hspaced := (Whitespace.passes hw).rewrites.append (h.append (Whitespace.passes hw').rewrites)
  simpa [SanitizedJson.join] using hspaced

/-- What becomes of a member, with the name and the value rewritten. -/
theorem rewrites_member {m : SpelledMember (List RelaxedChar)} {nameText : Bytes}
    {out : SanitizedJson} (hlexical : m.Lexical RelaxedText)
    (hname : Rewrites false (Ascii.quote :: (m.nameText ++ [Ascii.quote]))
      ⟨Ascii.quote :: (nameText ++ [Ascii.quote]), m.name.any isUnpaired⟩ false)
    (hvalue : Rewrites false m.text out false) :
    Rewrites false m.render
      ⟨{ m with nameText := nameText, text := out.text }.render,
        m.name.any isUnpaired || out.unpairedSurrogate⟩ false := by
  have hcolon : Rewrites false [Ascii.colon] ⟨[Ascii.colon], false⟩ false :=
    (Passes.byte (by decide)).rewrites
  have hmember := (Whitespace.passes hlexical.beforeName).rewrites.append (hname.append
    ((Whitespace.passes hlexical.afterName).rewrites.append (hcolon.append
      (hvalue.spaced hlexical.beforeValue hlexical.afterValue))))
  simpa [SanitizedJson.join, SpelledMember.render] using hmember

/-- What a value becomes: the same spelling with the strings replaced, flagged
if one of them has an unpaired surrogate. -/
structure RewritesValue (t : Bytes) (r : Spelling (List RelaxedChar)) (out : SanitizedJson) :
    Prop where
  rewrites : Rewrites false t out false
  spells : Spells ReplacedText out.text r
  flag : r.Mentions HasUnpaired → out.unpairedSurrogate = true

theorem exists_rewritten_array {items : List (SpelledElement (List RelaxedChar))}
    (hnonempty : items ≠ []) (hspace : ∀ e ∈ items, Whitespace e.before ∧ Whitespace e.after)
    (hvalues : ∀ e ∈ items, ∃ out, RewritesValue e.text e.value out) :
    ∃ out, RewritesValue
      (Ascii.leftBracket :: (commaSeparated (items.map (·.render)) ++ [Ascii.rightBracket]))
      (.array (items.map (·.value))) out := by
  have hempty : Nonempty SanitizedJson := ⟨⟨[], false⟩⟩
  choose! f hf using hvalues
  let rewritten : List (SpelledElement (List RelaxedChar)) :=
    items.map fun e => { e with text := (f e).text }
  have hvalues : rewritten.map (·.value) = items.map (·.value) := List.map_map
  have hrender : rewritten.map (·.render) =
      items.map fun e => e.before ++ ((f e).text ++ e.after) := List.map_map
  have htext : Spells ReplacedText _ (.array (rewritten.map (·.value))) := .array rewritten
    (by simpa [rewritten] using hnonempty) (List.forall_mem_map.mpr hspace)
    (List.forall_mem_map.mpr fun e he => (hf e he).spells)
  rw [hvalues, hrender] at htext
  refine ⟨_, .enclosed (by decide) (rewrites_commaSeparated fun e he =>
    (hf e he).rewrites.spaced (hspace e he).1 (hspace e he).2) (by decide), htext, fun h => ?_⟩
  cases h with
  | element mem inside =>
    obtain ⟨e, he, rfl⟩ := List.mem_map.mp mem
    exact List.any_eq_true.mpr ⟨e, he, (hf e he).flag inside⟩

theorem exists_rewritten_object {items : List (SpelledMember (List RelaxedChar))}
    (hnonempty : items ≠ []) (hlexical : ∀ m ∈ items, m.Lexical RelaxedText)
    (hvalues : ∀ m ∈ items, ∃ out, RewritesValue m.text m.value out) :
    ∃ out, RewritesValue
      (Ascii.leftBrace :: (commaSeparated (items.map (·.render)) ++ [Ascii.rightBrace]))
      (.object (items.map (·.member))) out := by
  have hempty : Nonempty SanitizedJson := ⟨⟨[], false⟩⟩
  choose! f hf using hvalues
  have hnames : ∀ m ∈ items, ∃ t', ReplacedText t' m.name ∧
      Rewrites false (Ascii.quote :: (m.nameText ++ [Ascii.quote]))
        ⟨Ascii.quote :: (t' ++ [Ascii.quote]), m.name.any isUnpaired⟩ false :=
    fun m hm => RelaxedText.exists_quoted (hlexical m hm).name
  choose! g hname hquoted using hnames
  let rewritten : List (SpelledMember (List RelaxedChar)) :=
    items.map fun m => { m with nameText := g m, text := (f m).text }
  have hmembers : rewritten.map (·.member) = items.map (·.member) := List.map_map
  have hlexicals : ∀ m ∈ rewritten, m.Lexical ReplacedText := List.forall_mem_map.mpr fun m hm =>
    ⟨(hlexical m hm).beforeName, hname m hm, (hlexical m hm).afterName,
      (hlexical m hm).beforeValue, (hlexical m hm).afterValue⟩
  have htext : Spells ReplacedText _ (.object (rewritten.map (·.member))) := .object rewritten
    (by simpa [rewritten] using hnonempty) hlexicals
    (List.forall_mem_map.mpr fun m hm => (hf m hm).spells)
  rw [hmembers, List.map_map] at htext
  refine ⟨_, .enclosed (by decide) (rewrites_commaSeparated fun m hm =>
    rewrites_member (hlexical m hm) (hquoted m hm) (hf m hm).rewrites) (by decide), htext,
    fun h => ?_⟩
  cases h with
  | name mem holds =>
    obtain ⟨m, hm, rfl⟩ := List.mem_map.mp mem
    exact List.any_eq_true.mpr ⟨m, hm, Bool.or_eq_true_iff.mpr (.inl holds)⟩
  | value mem inside =>
    obtain ⟨m, hm, rfl⟩ := List.mem_map.mp mem
    exact List.any_eq_true.mpr ⟨m, hm, Bool.or_eq_true_iff.mpr (.inr ((hf m hm).flag inside))⟩

theorem exists_rewritten {t : Bytes} {r : Spelling (List RelaxedChar)}
    (h : Spells RelaxedText t r) : ∃ out, RewritesValue t r out := by
  induction h with
  | null => exact ⟨_, (ValueText.passes .null).rewrites, .null, fun h => by cases h⟩
  | true => exact ⟨_, (ValueText.passes .true).rewrites, .true, fun h => by cases h⟩
  | false => exact ⟨_, (ValueText.passes .false).rewrites, .false, fun h => by cases h⟩
  | number n valid =>
    exact ⟨_, (NumberText.Valid.passes valid).rewrites, .number n valid, fun h => by cases h⟩
  | string text =>
    obtain ⟨t', ht', hrewrites⟩ := RelaxedText.exists_quoted text
    refine ⟨_, hrewrites, .string ht', fun h => ?_⟩
    cases h with
    | string holds => exact holds
  | emptyArray space =>
    refine ⟨_, (Passes.enclosed (by decide) (Whitespace.passes space) (by decide)).rewrites,
      .emptyArray space, fun h => ?_⟩
    cases h with
    | element mem inside => cases mem
  | emptyObject space =>
    refine ⟨_, (Passes.enclosed (by decide) (Whitespace.passes space) (by decide)).rewrites,
      .emptyObject space, fun h => ?_⟩
    cases h with
    | name mem holds => cases mem
    | value mem inside => cases mem
  | array items nonempty space values ih => exact exists_rewritten_array nonempty space ih
  | object items nonempty lexical values ih => exact exists_rewritten_object nonempty lexical ih

/-- The sanitized text spells the same, with U+E000 for each unpaired
surrogate. -/
theorem sanitize_spelled {bytes : Bytes} {r : Spelling (List RelaxedChar)}
    (h : SpelledJson RelaxedText bytes r) :
    SpelledJson ReplacedText (sanitizeUnpairedSurrogates bytes).text r ∧
      (r.Mentions HasUnpaired → (sanitizeUnpairedSurrogates bytes).unpairedSurrogate = true) := by
  obtain ⟨before, t, after, hbefore, ht, hafter, rfl⟩ := h
  obtain ⟨out, hrewrites, hspells, hflag⟩ := exists_rewritten ht
  have hloop := hrewrites.spaced hbefore hafter []
  rw [List.append_nil] at hloop
  have hsanitized : sanitizeUnpairedSurrogates (before ++ (t ++ after)) =
      ⟨before ++ (out.text ++ after), out.unpairedSurrogate⟩ := by
    rw [sanitizeUnpairedSurrogates, hloop]
    simp [SanitizedJson.join, sanitizeFrom]
  rw [hsanitized]
  exact ⟨⟨before, out.text, after, hbefore, hspells, hafter, rfl⟩, hflag⟩

end Sanitizer

namespace SignedDocumentCodec

open StrictScanner (maximumDepth)

/-! ## The stage that reports them -/

section

variable {env : Environment} {kind : SignedDocumentKind} {receivedBytes : Bytes}
  {parsed : ParsedDocument} {resolver : KeyResolver}

/-- A text with unpaired surrogates is parsed exactly if its names stay distinct. -/
theorem parseStage_spelled {r : Spelling (List RelaxedChar)} (hparse : DecodesJson env.jsonParse)
    (h : SpelledJson RelaxedText receivedBytes r) (hdepth : r.nesting ≤ maximumDepth) :
    (∃ parsed, parseStage env receivedBytes = .ok parsed) ↔ r.Distinct replacedName := by
  obtain ⟨hspelled, _⟩ := Sanitizer.sanitize_spelled h
  rw [← hspelled.decode_iff_distinct (fun _ _ htext => htext) hdepth]
  constructor
  · intro h
    obtain ⟨parsed, hparsed⟩ := h
    exact ⟨_, Decoder.decode_eq_some.mpr
      ((parseStrictJson_eq_ok hparse).mp (parseStage_eq_ok.mp hparsed).1)⟩
  · intro h
    obtain ⟨v, hv⟩ := h
    exact ⟨⟨v, _⟩, parseStage_eq_ok.mpr
      ⟨(parseStrictJson_eq_ok hparse).mpr (Decoder.decode_eq_some.mp hv), rfl⟩⟩

/-- What is not parsed is an error of the parse stage. -/
theorem parseStage_eq_error (hparse : DecodesJson env.jsonParse)
    (h : ¬∃ parsed, parseStage env receivedBytes = .ok parsed) :
    ∃ reason, parseStage env receivedBytes = .error (.verificationError ⟨.parse, reason⟩) := by
  have hdecode :
      Decoder.decode (Sanitizer.sanitizeUnpairedSurrogates receivedBytes).text = none := by
    cases hdecode : Decoder.decode (Sanitizer.sanitizeUnpairedSurrogates receivedBytes).text with
    | none => rfl
    | some v =>
      exact absurd ⟨⟨v, _⟩, parseStage_eq_ok.mpr
        ⟨(parseStrictJson_eq_ok hparse).mpr (Decoder.decode_eq_some.mp hdecode), rfl⟩⟩ h
  obtain ⟨what, hwhat⟩ := (parseStrictJson_eq_error hparse).mpr hdecode
  refine ⟨exceptionReason what, ?_⟩
  rw [parseStage]
  dsimp only
  rw [Environment.parseStrictJson, hwhat]
  rfl

theorem verify_of_parseStage_error {thrown : Thrown}
    (h : parseStage env receivedBytes = .error thrown) :
    verify env kind receivedBytes resolver = .error thrown := by
  rw [verify, openDocument, h]
  rfl

/-- What comes after the parse stage fails at another stage. -/
theorem verify_ne_parse_error (h : parseStage env receivedBytes = .ok parsed) (reason : String) :
    verify env kind receivedBytes resolver ≠ .error (.verificationError ⟨.parse, reason⟩) := by
  intro hverify
  rw [verify, openDocument, h, Except.ok_bind] at hverify
  rcases Except.bind_eq_error.mp hverify with hverify | ⟨opened, _, hverify⟩
  · rcases Except.bind_eq_error.mp hverify with hverify | ⟨_, _, hverify⟩
    · exact inStage_ne _ (by decide) reason hverify
    rcases Except.bind_eq_error.mp hverify with hverify | ⟨envelope, _, hverify⟩
    · exact inStage_ne _ (by decide) reason hverify
    · cases hverify
  · exact completeDocument_ne (by decide) reason hverify

theorem canonicalizationStage_flagged (h : parsed.unpairedSurrogate = true) :
    ∃ reason, canonicalizationStage parsed =
      .error (.verificationError ⟨.canonicalization, reason⟩) := by
  unfold canonicalizationStage
  rw [if_pos h]
  exact ⟨_, rfl⟩

/-- A flagged document whose key is resolved fails at the canonicalization. -/
theorem verify_of_flagged {opened : OpenedDocument} {resolution : RegistryKeyResolution}
    (hopened : openDocument env kind receivedBytes = .ok opened)
    (hresolution : resolutionStage env opened.request (resolver opened.request) = .ok resolution)
    (hflag : (Sanitizer.sanitizeUnpairedSurrogates receivedBytes).unpairedSurrogate = true) :
    ∃ reason, verify env kind receivedBytes resolver =
      .error (.verificationError ⟨.canonicalization, reason⟩) := by
  have hopens := openDocument_eq_ok.mp hopened
  obtain ⟨reason, hreason⟩ := canonicalizationStage_flagged (hopens.unpairedSurrogate.trans hflag)
  refine ⟨reason, ?_⟩
  rw [verify, hopened, Except.ok_bind, completeDocument, hresolution, Except.ok_bind,
    finishDocument, hreason]
  rfl

/-- The unpaired surrogates of a document are reported as a fault of the
canonicalization, and never as one of the parse stage. -/
def ReportsUnpaired (env : Environment) (receivedBytes : Bytes) : Prop :=
  ∀ kind resolver,
    (∀ reason, verify env kind receivedBytes resolver ≠
      .error (.verificationError ⟨.parse, reason⟩)) ∧
    ∀ opened resolution, openDocument env kind receivedBytes = .ok opened →
      resolutionStage env opened.request (resolver opened.request) = .ok resolution →
        ∃ reason, verify env kind receivedBytes resolver =
          .error (.verificationError ⟨.canonicalization, reason⟩)

end

/-- Unpaired surrogates are reported at the canonicalization exactly if U+E000 in
their place leaves the names of every object distinct. -/
theorem reportsUnpaired_iff (env : Environment) (hparse : DecodesJson env.jsonParse)
    (receivedBytes : Bytes) (r : Spelling (List RelaxedChar))
    (hspelled : SpelledJson RelaxedText receivedBytes r) (hdepth : r.nesting ≤ maximumDepth)
    (hunpaired : r.Mentions HasUnpaired) :
    ReportsUnpaired env receivedBytes ↔ r.Distinct replacedName := by
  rw [← parseStage_spelled hparse hspelled hdepth]
  constructor
  · intro hreports
    by_contra hnone
    obtain ⟨reason, herror⟩ := parseStage_eq_error hparse hnone
    exact (hreports .command fun _ => .error .foreign).1 reason (verify_of_parseStage_error herror)
  · intro h kind resolver
    obtain ⟨parsed, hparsed⟩ := h
    refine ⟨verify_ne_parse_error hparsed, fun opened resolution hopened hresolution => ?_⟩
    exact verify_of_flagged hopened hresolution
      ((Sanitizer.sanitize_spelled hspelled).2 hunpaired)

/-! ## Two names -/

/-- An object with a name that is an unpaired surrogate, and another name. -/
def twoNames (name : Bytes) : Bytes :=
  ascii "\x7b\"\\ud800\":1,\"" ++ (name ++ ascii "\":2\x7d")

/-- Its spelling. -/
def twoNamesSpelling (name : List RelaxedChar) : Spelling (List RelaxedChar) :=
  .object [([.unpaired 0xD800], .number ⟨false, ascii "1", none, none⟩),
    (name, .number ⟨false, ascii "2", none, none⟩)]

theorem relaxedText_surrogate : RelaxedText (ascii "\\ud800") [.unpaired 0xD800] := by
  refine .unpaired (show hexQuad? (ascii "d800") = some 0xD800 by decide) (by decide) ?_ .nil
  rintro _ ⟨_, hhead, _⟩
  cases hhead

theorem spelled_twoNames {text : Bytes} {name : List RelaxedChar} (h : RelaxedText text name) :
    SpelledJson RelaxedText (twoNames text) (twoNamesSpelling name) := by
  let first : SpelledMember (List RelaxedChar) :=
    ⟨[], ascii "\\ud800", [.unpaired 0xD800], [], [], ascii "1", [],
      .number ⟨false, ascii "1", none, none⟩⟩
  let second : SpelledMember (List RelaxedChar) :=
    ⟨[], text, name, [], [], ascii "2", [], .number ⟨false, ascii "2", none, none⟩⟩
  have hspace : Whitespace [] := fun b hb => absurd hb List.not_mem_nil
  have hdigit {d : UInt8} (hd : Ascii.isDigit d = true) (hzero : d ≠ Ascii.zero) :
      NumberText.Valid ⟨false, [d], none, none⟩ := by
    refine ⟨.inr ⟨⟨by simp, List.forall_mem_singleton.mpr hd⟩, by simpa using hzero⟩, ?_, ?_⟩ <;>
    · intro _ h
      cases h
  have hspells : Spells RelaxedText _ (.object ([first, second].map (·.member))) :=
    .object [first, second] (by simp)
      (List.forall_mem_cons.mpr ⟨⟨hspace, relaxedText_surrogate, hspace, hspace, hspace⟩,
        List.forall_mem_singleton.mpr ⟨hspace, h, hspace, hspace, hspace⟩⟩)
      (List.forall_mem_cons.mpr ⟨.number _ (hdigit (d := Ascii.one) (by decide) (by decide)),
        List.forall_mem_singleton.mpr (.number _ (hdigit (d := 0x32) (by decide) (by decide)))⟩)
  refine ⟨[], _, [], hspace, hspells, hspace, ?_⟩
  rw [List.nil_append, List.append_nil, twoNames]
  simp [first, second, SpelledMember.render, commaSeparated]
  rfl

theorem mentions_twoNames (name : List RelaxedChar) :
    (twoNamesSpelling name).Mentions HasUnpaired :=
  .name List.mem_cons_self (by unfold HasUnpaired; decide)

/-- The names of the object are distinct under a key if the two are. -/
theorem distinct_twoNames {κ : Type} {key : List RelaxedChar → κ} {name : List RelaxedChar} :
    (twoNamesSpelling name).Distinct key ↔ key [.unpaired 0xD800] ≠ key name := by
  constructor
  · intro h
    cases h with
    | object names values => simpa using names
  · intro h
    refine .object (by simpa using h) (List.forall_mem_cons.mpr ⟨.number _, ?_⟩)
    exact List.forall_mem_singleton.mpr (.number _)

/-- Two unpaired surrogates are different names, and the document is rejected at
the parse stage. -/
theorem surrogates_counterexample :
    SpelledJson RelaxedText (twoNames (ascii "\\ud801")) (twoNamesSpelling [.unpaired 0xD801]) ∧
      (twoNamesSpelling [.unpaired 0xD801]).nesting ≤ maximumDepth ∧
      (twoNamesSpelling [.unpaired 0xD801]).Mentions HasUnpaired ∧
      (twoNamesSpelling [.unpaired 0xD801]).Distinct nameUnits ∧
      ∀ kind resolver, ∃ reason,
        verify Environment.reference kind (twoNames (ascii "\\ud801")) resolver =
          .error (.verificationError ⟨.parse, reason⟩) := by
  have htext : RelaxedText (ascii "\\ud801") [.unpaired 0xD801] := by
    refine .unpaired (show hexQuad? (ascii "d801") = some 0xD801 by decide) (by decide) ?_ .nil
    rintro _ ⟨_, hhead, _⟩
    cases hhead
  have hdepth : (twoNamesSpelling [.unpaired 0xD801]).nesting ≤ maximumDepth := by decide
  refine ⟨spelled_twoNames htext, hdepth, mentions_twoNames _, distinct_twoNames.mpr (by decide),
    fun kind resolver => ?_⟩
  have hnone : ¬∃ parsed,
      parseStage Environment.reference (twoNames (ascii "\\ud801")) = .ok parsed := by
    rw [parseStage_spelled decodesJson_referenceParse (spelled_twoNames htext) hdepth,
      distinct_twoNames]
    decide
  obtain ⟨reason, herror⟩ := parseStage_eq_error decodesJson_referenceParse hnone
  exact ⟨reason, verify_of_parseStage_error herror⟩

theorem reportsUnpaired_iff_sample :
    ReportsUnpaired Environment.reference (twoNames (ascii "a")) := by
  have htext : RelaxedText (ascii "a") [.char 'a'] := by
    rw [show ascii "a" = String.utf8EncodeChar 'a' ++ [] by decide]
    exact .char (.unescaped (by decide) (by decide) (by decide)) .nil
  exact (reportsUnpaired_iff Environment.reference decodesJson_referenceParse _
    (twoNamesSpelling [.char 'a']) (spelled_twoNames htext) (by decide)
    (mentions_twoNames _)).mpr (distinct_twoNames.mpr (by decide))

end SignedDocumentCodec

end MissionWeave
