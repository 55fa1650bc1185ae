import MissionWeave.Bundle.Assets
import MissionWeave.Bundle.Requirements
import MissionWeave.Json.Denoted

/-!
# The protocol pin

The pin that is compiled into `bundle.cpp`, and `parse_protocol_pin`, which
compares `PROTOCOL_PIN.json` with it.

`parseProtocolPin_eq_ok_iff`: one JSON document passes, in all its spellings.
-/

namespace MissionWeave.Bundle

open SignedDocumentCodec (NotNumeral)
open StrictScanner (maximumDepth)

/-! ## The pin -/

structure ProtocolArtifacts where
  schemas : ArtifactPin
  conformance : ArtifactPin

structure CryptographyPin where
  path : Bytes
  sourceCommit : Bytes
  profileId : Bytes
  manifestVersion : Nat
  artifactDigest : Bytes
  artifactCount : Nat
  caseCount : Nat
  evaluationCount : Nat

structure AdmissionPin where
  path : Bytes
  sourceCommit : Bytes
  profileId : Bytes
  manifestVersion : Nat
  cryptographyArtifactDigest : Bytes
  artifactDigest : Bytes
  artifactCount : Nat
  caseCount : Nat
  evaluationCount : Nat

structure ProtocolPin where
  repository : Bytes
  commit : Bytes
  protocolVersion : Bytes
  wireNamespace : Bytes
  artifacts : ProtocolArtifacts
  cryptography : CryptographyPin
  admission : AdmissionPin
  bundleSha256 : Bytes

/-- `embedded_pin`. -/
def embeddedPin : ProtocolPin where
  repository := ascii "https://github.com/missionweaveprotocol/missionweaveprotocol"
  commit := ascii "f7e70a72c76bbeb5014c186cd820aac2112f0dde"
  protocolVersion := ascii "0.1"
  wireNamespace := ascii "missionweaveprotocol"
  artifacts := {
    schemas := {
      path := ascii "schemas"
      files := 22
      sha256 := ascii "941a5a19b8664207f1ff48b799219c2f981ecd491a5cca527d586028d976ec76" }
    conformance := {
      path := ascii "conformance"
      files := 59
      sha256 := ascii "2362acd8345e5860e605ed06984f1673a1ea0a00e76c1fe00fed222326782f24" } }
  cryptography := {
    path := ascii "cryptography/manifest.json"
    sourceCommit := ascii "f7e70a72c76bbeb5014c186cd820aac2112f0dde"
    profileId := ascii "missionweaveprotocol.signed-document-verification.v0.1"
    manifestVersion := 1
    artifactDigest :=
      ascii "sha256:5eade516e4bc5dcf04477727ebcccd11f33348b2d9135fb6fe0365c6e6cc2ea3"
    artifactCount := 98
    caseCount := 22
    evaluationCount := 62 }
  admission := {
    path := ascii "admission/manifest.json"
    sourceCommit := ascii "f7e70a72c76bbeb5014c186cd820aac2112f0dde"
    profileId := ascii "missionweaveprotocol.first-admission-historical-trust.v0.1"
    manifestVersion := 1
    cryptographyArtifactDigest :=
      ascii "sha256:5eade516e4bc5dcf04477727ebcccd11f33348b2d9135fb6fe0365c6e6cc2ea3"
    artifactDigest :=
      ascii "sha256:39971bfafb68ef6c18f9026220cccc4f023fd4d5c8074f8ff0276cb1129cd0a0"
    artifactCount := 19
    caseCount := 5
    evaluationCount := 30 }
  bundleSha256 := ascii "c95fc8f8334947dacf51a2c6e84d9b13f5b39b7d3827591569a1e2c5acfe47d7"

/-! ## Its fields in the document -/

def ArtifactPin.fields (pin : ArtifactPin) : List (String × Pinned) :=
  [("path", .text pin.path), ("files", .size pin.files), ("sha256", .text pin.sha256)]

def CryptographyPin.fields (pin : CryptographyPin) : List (String × Pinned) := [
  ("path", .text pin.path),
  ("sourceCommit", .text pin.sourceCommit),
  ("profileId", .text pin.profileId),
  ("manifestVersion", .size pin.manifestVersion),
  ("artifactDigest", .text pin.artifactDigest),
  ("artifactCount", .size pin.artifactCount),
  ("caseCount", .size pin.caseCount),
  ("evaluationCount", .size pin.evaluationCount)]

def AdmissionPin.fields (pin : AdmissionPin) : List (String × Pinned) := [
  ("path", .text pin.path),
  ("sourceCommit", .text pin.sourceCommit),
  ("profileId", .text pin.profileId),
  ("manifestVersion", .size pin.manifestVersion),
  ("cryptographyArtifactDigest", .text pin.cryptographyArtifactDigest),
  ("artifactDigest", .text pin.artifactDigest),
  ("artifactCount", .size pin.artifactCount),
  ("caseCount", .size pin.caseCount),
  ("evaluationCount", .size pin.evaluationCount)]

/-- The fields of the document itself that are no objects. -/
def ProtocolPin.fields (pin : ProtocolPin) : List (String × Pinned) := [
  ("repository", .text pin.repository),
  ("commit", .text pin.commit),
  ("protocolVersion", .text pin.protocolVersion),
  ("wireNamespace", .text pin.wireNamespace),
  ("bundleSha256", .text pin.bundleSha256)]

/-! ## `parse_protocol_pin` -/

/-- `validate_artifact_pin`. -/
def validateArtifactPin (artifacts : Json) (name : String) (expected : ArtifactPin) :
    Except Thrown Unit := do
  let artifact ← requiredObject artifacts name "protocol pin artifacts"
  requireFields artifact ["files", "path", "sha256"] "protocol pin artifact"
  requirePinned artifact "protocol pin artifact" expected.fields

/-- `validate_protocol_pin`. -/
def validateProtocolPin (pin : Json) : Except Thrown Unit :=
  if ¬pin.isObject then bundleError "PROTOCOL_PIN.json must be a JSON object"
  else do
    requireFields pin ["admission", "artifacts", "bundleSha256", "commit", "cryptography",
      "protocolVersion", "repository", "wireNamespace"] "protocol pin"
    requirePinned pin "protocol pin" embeddedPin.fields
    let artifacts ← requiredObject pin "artifacts" "protocol pin"
    requireFields artifacts ["conformance", "schemas"] "protocol pin artifacts"
    validateArtifactPin artifacts "schemas" embeddedPin.artifacts.schemas
    validateArtifactPin artifacts "conformance" embeddedPin.artifacts.conformance
    let cryptography ← requiredObject pin "cryptography" "protocol pin"
    requireFields cryptography ["artifactCount", "artifactDigest", "caseCount", "evaluationCount",
      "manifestVersion", "path", "profileId", "sourceCommit"] "protocol pin cryptography"
    requirePinned cryptography "protocol pin cryptography" embeddedPin.cryptography.fields
    let admission ← requiredObject pin "admission" "protocol pin"
    requireFields admission ["artifactCount", "artifactDigest", "caseCount",
      "cryptographyArtifactDigest", "evaluationCount", "manifestVersion", "path", "profileId",
      "sourceCommit"] "protocol pin admission"
    requirePinned admission "protocol pin admission" embeddedPin.admission.fields

/-- `parse_protocol_pin`.  Only the parser throws what is no `BundleError`. -/
def parseProtocolPin (env : Environment) (bytes : Bytes) : Except Thrown ProtocolPin := do
  let pin ← catchException (env.parseStrictJson bytes) fun what =>
    bundleError ("embedded PROTOCOL_PIN.json is invalid: " ++ what)
  validateProtocolPin pin
  .ok embeddedPin

/-! ## The document -/

def Pinned.value : Pinned → Json
  | .text expected => .string expected
  | .size expected => .uint64 (UInt64.ofNat expected)

/-- The members with their values. -/
def pinnedMembers (fields : List (String × Pinned)) : List (Bytes × Json) :=
  fields.map fun field => (ascii field.1, field.2.value)

/-- The object of the fields. -/
def pinnedObject (fields : List (String × Pinned)) : Json := .ofMembers (pinnedMembers fields)

/-- The contents of `PROTOCOL_PIN.json`. -/
def ProtocolPin.document (pin : ProtocolPin) : Json :=
  .ofMembers (pinnedMembers pin.fields ++ [
    (ascii "artifacts", .ofMembers [
      (ascii "schemas", pinnedObject pin.artifacts.schemas.fields),
      (ascii "conformance", pinnedObject pin.artifacts.conformance.fields)]),
    (ascii "cryptography", pinnedObject pin.cryptography.fields),
    (ascii "admission", pinnedObject pin.admission.fields)])

/-- The value is spelled in one way only. -/
def Pinned.Plain : Pinned → Prop
  | .text expected => NotNumeral expected
  | .size expected => expected ≠ 0

instance : DecidablePred Pinned.Plain
  | .text expected => inferInstanceAs (Decidable (∃ b ∈ expected, _))
  | .size expected => inferInstanceAs (Decidable (expected ≠ 0))

/-- A member from a text that is compared with the value is the value. -/
theorem Pinned.Holds.eq_value {pinned : Pinned} {object : Json} {key : String}
    (h : pinned.Holds object key) (hplain : pinned.Plain) (hobject : object.Denoted) :
    object.member? key = some pinned.value := by
  cases pinned with
  | text expected => exact NotNumeral.stringMember hplain h
  | size expected =>
    obtain ⟨value, hvalue, hsize⟩ := h
    rw [hvalue, (hobject.member hvalue).eq_uint64 hplain hsize, Pinned.value]

/-- An object from a text is settled by its fields, if they are all compared. -/
theorem eq_object_of_fields {object : Json} {names : List String} {members : List (Bytes × Json)}
    {label : String} {u : Unit} (hdenoted : object.Denoted) (hobject : object.isObject = true)
    (hnames : requireFields object names label = .ok u)
    (hperm : (members.map Prod.fst).Perm (names.map ascii)) (hnodup : (names.map ascii).Nodup)
    (hvalues : ∀ m ∈ members, Json.lookup m.1 object.members = some m.2) :
    object = .ofMembers members := by
  rw [requireFields_eq_ok] at hnames
  apply Json.eq_ofMembers (Canonical.ordered_of_wellFormed hdenoted.wellFormed) hobject
    (hperm.nodup_iff.mpr hnodup) _ hvalues
  intro name
  rw [hnames, hperm.mem_iff]

/-- The members that are compared. -/
theorem lookup_pinnedMembers {object : Json} {fields : List (String × Pinned)} {label : String}
    {u : Unit} (hdenoted : object.Denoted) (h : requirePinned object label fields = .ok u)
    (hplain : ∀ field ∈ fields, field.2.Plain) :
    ∀ m ∈ pinnedMembers fields, Json.lookup m.1 object.members = some m.2 := by
  intro m hm
  obtain ⟨field, hfield, rfl⟩ := List.mem_map.mp hm
  exact (requirePinned_eq_ok.mp h field hfield).eq_value (hplain field hfield) hdenoted

/-- An object with the fields and no others. -/
theorem eq_pinnedObject {object : Json} {names : List String} {fields : List (String × Pinned)}
    {label label' : String} {u u' : Unit} (hdenoted : object.Denoted)
    (hobject : object.isObject = true) (hnames : requireFields object names label = .ok u)
    (hfields : requirePinned object label' fields = .ok u')
    (hperm : ((pinnedMembers fields).map Prod.fst).Perm (names.map ascii))
    (hnodup : (names.map ascii).Nodup) (hplain : ∀ field ∈ fields, field.2.Plain) :
    object = pinnedObject fields :=
  eq_object_of_fields hdenoted hobject hnames hperm hnodup
    (lookup_pinnedMembers hdenoted hfields hplain)

theorem eq_of_validateArtifactPin {artifacts : Json} {name : String} {expected : ArtifactPin}
    {u : Unit} (hdenoted : artifacts.Denoted)
    (h : validateArtifactPin artifacts name expected = .ok u)
    (hplain : ∀ field ∈ expected.fields, field.2.Plain) :
    artifacts.member? name = some (pinnedObject expected.fields) := by
  simp only [validateArtifactPin, Except.bind_eq_ok, requiredObject_eq_ok] at h
  obtain ⟨artifact, ⟨hartifact, hobject⟩, _, hnames, hfields⟩ := h
  rw [hartifact]
  congr 1
  exact eq_pinnedObject (hdenoted.member hartifact) hobject hnames hfields
    (show [ascii "path", ascii "files", ascii "sha256"].Perm _ by decide) (by decide) hplain

/-- The pinned texts are no numerals, and the pinned sizes are positive. -/
theorem embeddedPin_plain :
    ∀ field ∈ embeddedPin.fields ++ embeddedPin.artifacts.schemas.fields ++
      embeddedPin.artifacts.conformance.fields ++ embeddedPin.cryptography.fields ++
        embeddedPin.admission.fields, field.2.Plain := by
  decide +kernel

/-- What passes is the document of the pin. -/
theorem eq_document_of_validate {pin : Json} {u : Unit} (hdenoted : pin.Denoted)
    (h : validateProtocolPin pin = .ok u) : pin = embeddedPin.document := by
  have hplain := embeddedPin_plain
  simp only [List.forall_mem_append] at hplain
  obtain ⟨⟨⟨⟨hpin, hschemas⟩, hconformance⟩, hcryptography⟩, hadmission⟩ := hplain
  simp only [validateProtocolPin, bundleError, Except.ite_error_eq_ok, not_not, Except.bind_eq_ok,
    requiredObject_eq_ok] at h
  obtain ⟨hobject, _, hnames, _, hfields, artifacts, ⟨hartifacts, hartifactsObject⟩, _,
    hartifactNames, _, hschemasPin, _, hconformancePin, cryptography,
    ⟨hcrypto, hcryptoObject⟩, _, hcryptoNames, _, hcryptoFields, admission,
    ⟨hadm, hadmObject⟩, _, hadmNames, hadmFields⟩ := h
  have hartifactsDenoted := hdenoted.member hartifacts
  have hartifactsEq : artifacts = .ofMembers [
      (ascii "schemas", pinnedObject embeddedPin.artifacts.schemas.fields),
      (ascii "conformance", pinnedObject embeddedPin.artifacts.conformance.fields)] := by
    refine eq_object_of_fields hartifactsDenoted hartifactsObject hartifactNames
      (show [ascii "schemas", ascii "conformance"].Perm _ by decide) (by decide) ?_
    simp only [List.forall_mem_cons, List.not_mem_nil, false_imp_iff, implies_true, and_true]
    exact ⟨eq_of_validateArtifactPin hartifactsDenoted hschemasPin hschemas,
      eq_of_validateArtifactPin hartifactsDenoted hconformancePin hconformance⟩
  have hcryptoEq := eq_pinnedObject (hdenoted.member hcrypto) hcryptoObject hcryptoNames
    hcryptoFields (by decide) (by decide) hcryptography
  have hadmEq := eq_pinnedObject (hdenoted.member hadm) hadmObject hadmNames hadmFields
    (by decide) (by decide) hadmission
  rw [hartifactsEq] at hartifacts
  rw [hcryptoEq] at hcrypto
  rw [hadmEq] at hadm
  refine eq_object_of_fields hdenoted hobject hnames
    (show [ascii "repository", ascii "commit", ascii "protocolVersion", ascii "wireNamespace",
      ascii "bundleSha256", ascii "artifacts", ascii "cryptography", ascii "admission"].Perm _ by
        decide) (by decide) ?_
  rw [List.forall_mem_append]
  refine ⟨lookup_pinnedMembers hdenoted hfields hpin, ?_⟩
  simp only [List.forall_mem_cons, List.not_mem_nil, false_imp_iff, implies_true, and_true]
  exact ⟨hartifacts, hcrypto, hadm⟩

/-- One document passes as `PROTOCOL_PIN.json`: the JSON text has to denote the
pin that is compiled in, with nothing added, left out or stored in another way.
Its spelling is free. -/
theorem parseProtocolPin_eq_ok_iff {env : Environment} (hparse : DecodesJson env.jsonParse)
    (bytes : Bytes) (pin : ProtocolPin) :
    parseProtocolPin env bytes = .ok pin ↔
      JsonText bytes embeddedPin.document ∧ pin = embeddedPin := by
  have hvalid : validateProtocolPin embeddedPin.document = .ok () := by decide +kernel
  have hnesting : embeddedPin.document.nesting ≤ maximumDepth := by decide +kernel
  have hread (value : Json) : catchException (env.parseStrictJson bytes) (fun what =>
      bundleError ("embedded PROTOCOL_PIN.json is invalid: " ++ what)) = .ok value ↔
        JsonText bytes value ∧ value.nesting ≤ maximumDepth := by
    rw [catchException_eq_ok (by simp [bundleError]), Environment.parseStrictJson,
      parseStrictJson_eq_ok hparse]
  simp only [parseProtocolPin, Except.bind_eq_ok, Except.ok.injEq, hread]
  constructor
  · rintro ⟨value, ⟨htext, _⟩, _, hvalidate, rfl⟩
    rw [← eq_document_of_validate (.of_jsonText htext) hvalidate]
    exact ⟨htext, rfl⟩
  · rintro ⟨htext, rfl⟩
    exact ⟨_, ⟨htext, hnesting⟩, _, hvalid, rfl⟩

end MissionWeave.Bundle
