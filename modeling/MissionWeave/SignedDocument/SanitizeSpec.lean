import MissionWeave.SignedDocument.Surrogates

/-!
# The sanitizer and the strict parser

`sanitize_unpaired_surrogates` and the scanner of `parse_strict_json` find the
strings, the escapes and the surrogate pairs of a text on their own.
`sanitizer_agrees` says that they come to the same result.
-/

namespace MissionWeave.Sanitizer

/-- The strict parser accepts the text. -/
def Accepts (env : Environment) (text : Bytes) : Prop :=
  ∃ v, env.parseStrictJson text = .ok v

/-- What the strict parser accepts is taken over as it is, whatever
`Json::parse` does. -/
theorem sanitize_of_accepts {env : Environment} {input : Bytes} (h : Accepts env input) :
    sanitizeUnpairedSurrogates input = ⟨input, false⟩ := by
  obtain ⟨v, hv⟩ := h
  have hscan := (parseStrictJson_eq_ok_iff_scan.mp hv).1
  obtain ⟨w, hw⟩ := (StrictScanner.scan_eq_ok_iff_decode input).mp hscan
  exact sanitize_of_jsonText (Decoder.decode_sound hw).1

/-- Without the flag the text is the input, and a text is accepted exactly when
it is not flagged and its sanitized text is accepted.  So an accepted text is
never flagged or changed, and a rejected one whose sanitized text is accepted
is flagged.  A text that is strict JSON but for unpaired surrogates is flagged
if it has one. -/
theorem sanitizer_agrees (env : Environment) (input : Bytes) :
    ((sanitizeUnpairedSurrogates input).unpairedSurrogate = false →
      (sanitizeUnpairedSurrogates input).text = input) ∧
    (Accepts env input ↔ (sanitizeUnpairedSurrogates input).unpairedSurrogate = false ∧
      Accepts env (sanitizeUnpairedSurrogates input).text) ∧
    (Accepts env input → sanitizeUnpairedSurrogates input = ⟨input, false⟩) ∧
    (¬Accepts env input → Accepts env (sanitizeUnpairedSurrogates input).text →
      (sanitizeUnpairedSurrogates input).unpairedSurrogate = true) ∧
    ∀ r, SpelledJson RelaxedText input r → r.Mentions HasUnpaired →
      (sanitizeUnpairedSurrogates input).unpairedSurrogate = true := by
  have hiff : Accepts env input ↔
      (sanitizeUnpairedSurrogates input).unpairedSurrogate = false ∧
        Accepts env (sanitizeUnpairedSurrogates input).text := by
    constructor
    · intro h
      rw [sanitize_of_accepts h]
      exact ⟨rfl, h⟩
    · intro h
      rw [text_of_not_flagged h.1] at h
      exact h.2
  refine ⟨text_of_not_flagged, hiff, sanitize_of_accepts, ?_, ?_⟩
  · intro hrejected haccepted
    by_contra hflag
    rw [Bool.not_eq_true] at hflag
    exact hrejected (hiff.mpr ⟨hflag, haccepted⟩)
  · intro r hspelled hunpaired
    exact (sanitize_spelled hspelled).2 hunpaired

example : sanitizeUnpairedSurrogates (ascii "[\"\\uD800\\uDC00\\uDC00\"]") =
    ⟨ascii "[\"\\uD800\\uDC00\\uE000\"]", true⟩ := by decide +kernel

end MissionWeave.Sanitizer
