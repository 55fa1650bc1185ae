import MissionWeave.Json.Strict
import MissionWeave.Json.Data

/-!
# `parse_strict_json`

The scanner decides and `Json::parse` of jsoncons decodes.  `Json::parse` is a
parameter, and `DecodesJson` is what the sources rely on it for: every JSON
text of RFC 8259 is decoded to the value that it denotes.

* `parseStrictJson_eq_ok`: under that assumption the parser returns exactly
  the values of the texts in the grammar.
* `wellFormed_of_jsonText`: whatever it returns is well formed.
-/

namespace MissionWeave

open StrictScanner (scan maximumDepth)

/-- What the scanner throws.  The faults that no run reaches stay apart. -/
def ScanError.thrown : ScanError → Thrown
  | .strict message position =>
      .strictJsonError (message ++ " at byte " ++ toString position)
  | .outOfBounds _ | .wrapped _ | .outOfFuel => .foreign

/-- `parse_strict_json`. -/
def parseStrictJson (jsonParse : Bytes → Except Thrown Json) (text : Bytes) :
    Except Thrown Json :=
  match scan text with
  | .error error => .error error.thrown
  | .ok () =>
    catchException (jsonParse text) fun what =>
      .error (.strictJsonError ("unable to decode strict JSON: " ++ what))

/-- `Json::parse` decodes every JSON text, as deep as the scanner lets it, to
the value that the text denotes. -/
def DecodesJson (jsonParse : Bytes → Except Thrown Json) : Prop :=
  ∀ text v, JsonText text v → v.nesting ≤ maximumDepth → jsonParse text = .ok v

/-- The reference decoder in the place of `Json::parse`. -/
def referenceParse (text : Bytes) : Except Thrown Json :=
  match Decoder.decode text with
  | some v => .ok v
  | none => .error (.otherException "not a JSON text")

theorem decodesJson_referenceParse : DecodesJson referenceParse := by
  intro text v htext hdepth
  rw [referenceParse, Decoder.decode_complete htext hdepth]

variable {jsonParse : Bytes → Except Thrown Json} {text : Bytes} {v : Json}

/-- The parser returns what `Json::parse` returns on a text that the scanner
accepts. -/
theorem parseStrictJson_eq_ok_iff_scan :
    parseStrictJson jsonParse text = .ok v ↔ scan text = .ok () ∧ jsonParse text = .ok v := by
  rw [parseStrictJson]
  cases hscan : scan text with
  | error e => simp
  | ok u => simp [catchException_eq_ok]

/-- The scanner accepts what the reference decoder decodes. -/
theorem parseStrictJson_reference (h : referenceParse text = .ok v) :
    parseStrictJson referenceParse text = .ok v := by
  refine parseStrictJson_eq_ok_iff_scan.mpr ⟨?_, h⟩
  rw [referenceParse] at h
  cases hdecode : Decoder.decode text with
  | none =>
    rw [hdecode] at h
    cases h
  | some w => exact (StrictScanner.scan_eq_ok_iff_decode text).mpr ⟨w, hdecode⟩

/-- The parser returns exactly the values of the texts in the grammar. -/
theorem parseStrictJson_eq_ok (hparse : DecodesJson jsonParse) :
    parseStrictJson jsonParse text = .ok v ↔ JsonText text v ∧ v.nesting ≤ maximumDepth := by
  rw [parseStrictJson_eq_ok_iff_scan, StrictScanner.scan_eq_ok_iff_decode]
  constructor
  · rintro ⟨⟨w, hdecode⟩, hv⟩
    obtain ⟨htext, hdepth⟩ := Decoder.decode_sound hdecode
    rw [hparse text w htext hdepth, Except.ok.injEq] at hv
    rw [← hv]
    exact ⟨htext, hdepth⟩
  · rintro ⟨htext, hdepth⟩
    exact ⟨⟨v, Decoder.decode_complete htext hdepth⟩, hparse text v htext hdepth⟩

/-- What is not decoded is rejected, and nothing else is. -/
theorem parseStrictJson_eq_error (hparse : DecodesJson jsonParse) :
    (∃ what, parseStrictJson jsonParse text = .error (.strictJsonError what)) ↔
      Decoder.decode text = none := by
  constructor
  · intro h
    obtain ⟨what, hwhat⟩ := h
    cases hdecode : Decoder.decode text with
    | none => rfl
    | some v =>
      rw [(parseStrictJson_eq_ok hparse).mpr (Decoder.decode_sound hdecode)] at hwhat
      cases hwhat
  · intro h
    obtain ⟨message, position, hscan⟩ := StrictScanner.exists_strict_of_decode h
    exact ⟨_, by rw [parseStrictJson, hscan]; rfl⟩

/-! ## Decoded values are well formed -/

theorem wellFormed_toJson (n : NumberText) : n.toJson.WellFormed := by
  rw [NumberText.toJson, integerJson]
  split_ifs
  · exact .int64 _
  · exact .bigint _
  · exact .uint64 _
  · exact .bigint _
  · exact .double _

theorem wellFormed_of_valueText {t : Bytes} (h : ValueText t v) : v.WellFormed := by
  induction h with
  | null => exact .null
  | true => exact .bool _
  | false => exact .bool _
  | number n valid => exact wellFormed_toJson n
  | string text => exact .string ⟨_, rfl⟩
  | emptyArray space => exact .array (by simp)
  | emptyObject space => exact .object List.Pairwise.nil (by simp) (by simp)
  | array items nonempty space values ih =>
    refine .array ?_
    rw [List.forall_mem_map]
    exact ih
  | object items nonempty lexical values distinct ih =>
    rw [Json.ofMembers_eq]
    refine .object (Json.sorted_ofMembers _) (fun m hm => ?_) (fun m hm => ?_)
    · obtain ⟨item, _, rfl⟩ := List.mem_map.mp (Json.mem_ofMembers hm)
      exact ⟨item.name, rfl⟩
    · obtain ⟨item, hitem, rfl⟩ := List.mem_map.mp (Json.mem_ofMembers hm)
      exact ih item hitem

/-- A value that a JSON text denotes is well formed. -/
theorem wellFormed_of_jsonText (h : JsonText text v) : v.WellFormed := by
  obtain ⟨_, _, _, _, hvalue, _⟩ := h
  exact wellFormed_of_valueText hvalue

end MissionWeave
