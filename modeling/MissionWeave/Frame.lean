import MissionWeave.Schema
import MissionWeave.Canonical.RoundTrip
import MissionWeave.Json.Denoted

/-!
# `FrameCodec`

The codec of WebSocket frames: `decode` parses strict JSON and validates it,
`encode` validates a value and writes its canonical text.

* `decode_encode`: an encoded frame is decoded to the same RFC 8785 data.
* `decode_encode_counterexamples`: it is not always decoded to the same value.
  The encoder writes an integer beyond the range of `double` as another one,
  and it writes frames that are nested deeper than the decoder reads.
-/

namespace MissionWeave.FrameCodec

open Canonical
open StrictScanner (maximumDepth)

section

variable (validate : Validate) (jsonParse : Bytes → Except Thrown Json)

/-- `require_valid`. -/
def requireValid (result : ValidationResult) (label : String) : Except Thrown Unit :=
  if result.valid then .ok ()
  else
    .error (.frameError (match result.issue with
      | none => label ++ " failed schema validation"
      | some issue =>
        label ++ " failed schema validation" ++
          (if issue.instanceLocation.isEmpty then "" else " at " ++ issue.instanceLocation) ++
            ": " ++ issue.message))

/-- The checks that `decode` and `encode` share. -/
def checkFrame (frame : Json) : Except Thrown Unit := do
  if frame.isObject then
    let result ← validate "websocket-frame.schema.json" frame
    requireValid result "WebSocket frame"
  else .error (.frameError "WebSocket frame must be a JSON object")

/-- `FrameCodec::decode`. -/
def decode (document : Bytes) : Except Thrown Json := do
  let frame ← parseStrictJson jsonParse document
  checkFrame validate frame
  .ok frame

/-- `FrameCodec::encode`. -/
def encode (frame : Json) : Except Thrown Bytes := do
  checkFrame validate frame
  canonicalJson frame

/-- `FrameCodec::validate_document`. -/
def validateDocument (schemaName : String) (document : Json) : Except Thrown Unit := do
  let result ← validate schemaName document
  requireValid result "protocol document"

end

variable {validate : Validate} {jsonParse : Bytes → Except Thrown Json}

theorem requireValid_eq_ok {result : ValidationResult} {label : String} :
    requireValid result label = .ok () ↔ result.valid = true := by
  rw [requireValid]
  split_ifs with h
  · simp [h]
  · simp [h]

/-- A frame is accepted when it is an object that the schema validates. -/
theorem checkFrame_eq_ok {frame : Json} :
    checkFrame validate frame = .ok () ↔
      frame.isObject = true ∧ Validates validate "websocket-frame.schema.json" frame := by
  rw [checkFrame]
  split_ifs with h
  · simp only [h, true_and, Except.bind_eq_ok, requireValid_eq_ok, Validates]
  · simp [h]

/-- A document is accepted when the schema validates it. -/
theorem validateDocument_eq_ok {schemaName : String} {document : Json} :
    validateDocument validate schemaName document = .ok () ↔
      Validates validate schemaName document := by
  simp only [validateDocument, Except.bind_eq_ok, requireValid_eq_ok, Validates]

/-- A frame conforms to its schema in every text of its data, if it does in one. -/
def KeepsValid (validate : Validate) (frame : Json) : Prop :=
  ∀ decoded, Json.Denoted decoded → Json.SameData decoded frame →
    Validates validate "websocket-frame.schema.json" frame →
      Validates validate "websocket-frame.schema.json" decoded

theorem KeepsValid.of_data (hdata : DependsOnData validate) (frame : Json) :
    KeepsValid validate frame := fun _ _ hsame => hdata _ _ _ hsame.symm

/-- No text of small numbers has a wide integer. -/
theorem KeepsValid.of_narrow (hdata : DependsOnNarrowData validate) {frame : Json}
    (hnarrow : frame.Narrow) (hsmall : frame.SmallNumbers) : KeepsValid validate frame :=
  fun _ hdenoted hsame =>
    hdata _ _ _ ⟨hsame.symm, hnarrow, hdenoted.narrow (hsmall.of_data hsame)⟩

/-- Such a frame is accepted in every text of its data. -/
theorem KeepsValid.checkFrame {decoded frame : Json} (hkeeps : KeepsValid validate frame)
    (hdenoted : Json.Denoted decoded) (hsame : Json.SameData decoded frame)
    (h : checkFrame validate frame = .ok ()) : checkFrame validate decoded = .ok () := by
  obtain ⟨hobject, hvalid⟩ := checkFrame_eq_ok.mp h
  exact checkFrame_eq_ok.mpr ⟨Json.isObject_of_data hsame hobject,
    hkeeps decoded hdenoted hsame hvalid⟩

/-- A decoded frame is what its text denotes, and nested no deeper than the
decoder reads. -/
theorem denoted_of_decode (hparse : DecodesJson jsonParse) {document : Bytes} {frame : Json}
    (h : decode validate jsonParse document = .ok frame) :
    Json.Denoted frame ∧ frame.nesting ≤ maximumDepth := by
  obtain ⟨parsed, hparsed, h⟩ := Except.bind_eq_ok.mp h
  obtain ⟨_, _, h⟩ := Except.bind_eq_ok.mp h
  rw [← Except.ok.inj h]
  obtain ⟨htext, hdepth⟩ := (parseStrictJson_eq_ok hparse).mp hparsed
  exact ⟨.of_jsonText htext, hdepth⟩

/-- An encoded frame that is not nested too deeply is decoded to the same data,
and to an equal value if its integers are safe. -/
theorem decode_encode_data (hparse : DecodesJson jsonParse) {frame : Json}
    (hkeeps : KeepsValid validate frame) {document : Bytes} (hordered : frame.Ordered)
    (hdepth : frame.nesting ≤ maximumDepth) (h : encode validate frame = .ok document) :
    ∃ decoded, decode validate jsonParse document = .ok decoded ∧ Json.SameData decoded frame ∧
      (frame.SafeIntegers → frame.equals decoded = true) := by
  obtain ⟨_, hcheck, htext⟩ := Except.bind_eq_ok.mp h
  obtain ⟨decoded, hdecoded, hsame⟩ := parse_canonicalJson hparse hordered hdepth htext
  have hdenoted := Json.Denoted.of_jsonText ((parseStrictJson_eq_ok hparse).mp hdecoded).1
  refine ⟨decoded, ?_, hsame, fun hsafe => ?_⟩
  · rw [decode, hdecoded, Except.ok_bind, hkeeps.checkFrame hdenoted hsame hcheck, Except.ok_bind]
  · exact Json.equals_of_data (wellFormed_of_serialize hordered htext).2 hsafe hsame.symm

/-- A decoded frame is encoded, if its numbers have a finite `double`. -/
theorem encode_of_decode (hparse : DecodesJson jsonParse) {document : Bytes} {frame : Json}
    (h : decode validate jsonParse document = .ok frame) (hfinite : frame.FiniteNumbers) :
    ∃ encoded, encode validate frame = .ok encoded := by
  obtain ⟨parsed, hparsed, h⟩ := Except.bind_eq_ok.mp h
  obtain ⟨⟨⟩, hcheck, h⟩ := Except.bind_eq_ok.mp h
  rw [Except.ok.inj h] at hparsed hcheck
  obtain ⟨htext, _⟩ := (parseStrictJson_eq_ok hparse).mp hparsed
  obtain ⟨encoded, _, hencoded, _⟩ := serialize_spec (wellFormed_of_jsonText htext) hfinite
  exact ⟨encoded, by rw [encode, hcheck, Except.ok_bind, canonicalJson, hencoded]⟩

/-- Every frame that `encode` accepts and that is nested no deeper than the
decoder reads is decoded from its encoding: to the same RFC 8785 data, and to
an equal value if its integers are safe.  A frame that `decode` returns is
nested no deeper than that, and is encoded if its numbers have a finite
`double`. -/
theorem decode_encode (hparse : DecodesJson jsonParse) (hdata : DependsOnData validate) :
    (∀ (frame : Json) (document : Bytes), frame.Ordered → frame.nesting ≤ maximumDepth →
      encode validate frame = .ok document →
        ∃ decoded, decode validate jsonParse document = .ok decoded ∧
          Json.SameData decoded frame ∧ (frame.SafeIntegers → frame.equals decoded = true)) ∧
    (∀ (received : Bytes) (frame : Json), decode validate jsonParse received = .ok frame →
      frame.Ordered ∧ frame.nesting ≤ maximumDepth ∧
        (frame.FiniteNumbers → ∃ document, encode validate frame = .ok document)) :=
  ⟨fun frame _ hordered hdepth h =>
      decode_encode_data hparse (.of_data hdata frame) hordered hdepth h,
    fun _ _ h => ⟨ordered_of_wellFormed (denoted_of_decode hparse h).1.wellFormed,
      (denoted_of_decode hparse h).2, encode_of_decode hparse h⟩⟩

/-- An `ERROR` frame whose free-form `details` hold one member. -/
def errorFrame (count : Json) : Json :=
  .object [
    (ascii "error", .object [
      (ascii "code", .string (ascii "INTERNAL_ERROR")),
      (ascii "details", .object [(ascii "count", count)]),
      (ascii "message", .string (ascii "failed")),
      (ascii "occurredAt", .string (ascii "2026-01-01T00:00:00Z")),
      (ascii "retryable", .bool false)]),
    (ascii "frameId", .string (ascii "urn:frame:1")),
    (ascii "frameType", .string (ascii "ERROR")),
    (ascii "protocolVersion", .string (ascii "0.1"))]

/-- A text of it, with spaces and in another order. -/
def errorText (count : String) : Bytes := List.flatMap ascii [
  "\x7b \"protocolVersion\": \"0.1\", \"frameType\": \"ERROR\", \"frameId\": \"urn:frame:1\", ",
  "\"error\": \x7b \"code\": \"INTERNAL_ERROR\", \"message\": \"failed\", ",
  "\"retryable\": false, \"occurredAt\": \"2026-01-01T00:00:00Z\", ",
  "\"details\": \x7b \"count\": ", count, " \x7d \x7d \x7d"]

theorem ordered_errorFrame {count : Json} (h : count.Ordered) : (errorFrame count).Ordered := by
  have hframe : (["error", "frameId", "frameType", "protocolVersion"].map ascii).Pairwise
      fun m n => compare m n = .lt := by decide
  have herror : (["code", "details", "message", "occurredAt", "retryable"].map ascii).Pairwise
      fun m n => compare m n = .lt := by decide
  refine .object (.of_names hframe) ?_
  simp only [List.forall_mem_cons, List.not_mem_nil, false_implies, implies_true, and_true]
  refine ⟨.object (.of_names herror) ?_, .leaf rfl rfl, .leaf rfl rfl, .leaf rfl rfl⟩
  simp only [List.forall_mem_cons, List.not_mem_nil, false_implies, implies_true, and_true]
  exact ⟨.leaf rfl rfl, .object (List.pairwise_singleton _ _) (List.forall_mem_singleton.mpr h),
    .leaf rfl rfl, .leaf rfl rfl, .leaf rfl rfl⟩

/-- Arrays inside each other. -/
def nested : Nat → Json
  | 0 => .array []
  | n + 1 => .array [nested n]

/-- A text that is no JSON text to the supported depth is not decoded. -/
theorem isOk_decode_of_none {document : Bytes} (h : (Decoder.decode document).isSome = false) :
    (decode validate jsonParse document).isOk = false := by
  cases hdecode : decode validate jsonParse document with
  | error thrown => rfl
  | ok frame =>
    obtain ⟨_, hparsed, _⟩ := Except.bind_eq_ok.mp hdecode
    obtain ⟨v, hv⟩ := (StrictScanner.scan_eq_ok_iff_decode document).mp
      (parseStrictJson_eq_ok_iff_scan.mp hparsed).1
    rw [hv] at h
    cases h

theorem decode_encode_reference :
    ∃ document decoded, encode acceptAll (errorFrame (.uint64 1)) = .ok document ∧
      decode acceptAll referenceParse document = .ok decoded ∧
      Json.SameData decoded (errorFrame (.uint64 1)) := by
  have hok : (encode acceptAll (errorFrame (.uint64 1))).isOk = true := by decide +kernel
  obtain ⟨document, hdocument⟩ := Except.exists_ok_of_isOk hok
  obtain ⟨decoded, hdecoded, hsame, _⟩ :=
    (decode_encode decodesJson_referenceParse dependsOnData_acceptAll).1 _ _
      (ordered_errorFrame (.leaf rfl rfl)) (by decide) hdocument
  exact ⟨document, decoded, hdocument, hdecoded, hsame⟩

/-- The encoder changes a wide integer, writes a frame that is too deep for the
decoder, and rejects a decoded number beyond the range of `double`. -/
theorem decode_encode_counterexamples :
    (do
      let document ← encode acceptAll (errorFrame (.uint64 9007199254740993))
      let decoded ← decode acceptAll referenceParse document
      .ok ((errorFrame (.uint64 9007199254740993)).equals decoded)) = Except.ok false ∧
    (do
      let document ← encode acceptAll (errorFrame (nested 510))
      .ok (decode acceptAll referenceParse document).isOk) = Except.ok false ∧
    (do
      let frame ← decode acceptAll referenceParse (errorText "1e400")
      .ok (encode acceptAll frame).isOk) = Except.ok false := by
  refine ⟨by decide +kernel, ?_, by decide +kernel⟩
  have hdeep : (do
      let document ← encode acceptAll (errorFrame (nested 510))
      .ok (Decoder.decode document).isSome) = Except.ok false := by decide +kernel
  obtain ⟨document, hdocument, hnone⟩ := Except.bind_eq_ok.mp hdeep
  rw [hdocument, Except.ok_bind, isOk_decode_of_none (Except.ok.inj hnone)]

end MissionWeave.FrameCodec
