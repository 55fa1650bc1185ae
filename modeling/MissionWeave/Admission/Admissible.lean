import MissionWeave.Admission.Preparation
import MissionWeave.Schema.Record
import MissionWeave.SignedDocument.Rfc3339

/-!
# Admissible documents

`prepare_first_admission` checks the record that it builds against the schema of
the records.  The identifiers in it come from the document, whose schema limits
their length as well, and from the registry, which has no limit.

* `schema_recordJson`: the schema accepts the value that is built.
* `prepareFirstAdmission_iff`: exactly the verified documents with identifiers
  within the limit are admissible.
* `admissible_counterexample`: a long name of an organization.
-/

namespace MissionWeave.AdmissionService

open Canonical (canonicalJson parse_canonicalJson)
open Interaction
open Schema (idSchema actorSchema closedObject_iff firstAdmissionRecordSchema isIdentifier
  isIdentifier_iff isSha256 maxIdentifierLength enumSchema enumSchema_string
  textSchema_string)
open SignedDocumentCodec

/-- What the schema library asserts of identifiers and of records. -/
structure AssertsIdentifiers (env : Environment) (isDateTime : Bytes → Bool) : Prop where
  documents : ∀ kind document, Validates env.validate (profile kind).schema document →
    ∀ position ∈ identifierPositions kind, ∀ value ∈ document.reach position,
      idSchema env value = true
  records : ∀ record, Validates env.validate "first-admission-record.schema.json" record →
    ∀ position ∈ recordIdentifierPositions, ∀ value ∈ record.reach position,
      idSchema env value = true
  accepts : ∀ record, firstAdmissionRecordSchema env isDateTime record = true →
    Validates env.validate "first-admission-record.schema.json" record
  instants : ∀ text i, parseInstant text = .ok i → isDateTime text = true

/-- The context is one that the schema of the records accepts, of a service, and
its time is in the validity interval of the key. -/
structure TrustedFor (env : Environment) (context : AdmissionContextValue)
    (resolved : ResolvedKey) : Prop where
  admissionRecordId : idSchema env (.string context.admissionRecordId) = true
  acceptedBy : actorSchema env (principalJson context.acceptedBy) = true
  service : context.acceptedBy.type = ascii "service"
  trustedAcceptedAt : ∃ i, parseInstant context.trustedAcceptedAt = .ok i ∧ resolved.ValidAt i

/-! ## The value that is built -/

section

variable {env : Environment} {isDateTime : Bytes → Bool} {verified : VerifiedSignedDocument}
  {context : AdmissionContextValue} {principal : Principal}

theorem member?_principalJson_type :
    (principalJson principal).member? "type" = some (.string principal.type) := rfl

theorem member?_principalJson_id :
    (principalJson principal).member? "id" = some (.string principal.id) := rfl

theorem names_principalJson :
    (principalJson principal).members.map Prod.fst = ["id", "type"].map ascii := rfl

/-- The schema of actors accepts the principals of known types with an
identifier. -/
theorem actorSchema_principalJson :
    actorSchema env (principalJson principal) = true ↔
      principal.type ∈ Registry.principalTypes ∧ isIdentifier env principal.id = true := by
  have htype : enumSchema ["agent", "human", "service"] (.string principal.type) = true ↔
      principal.type ∈ Registry.principalTypes := enumSchema_string
  rw [actorSchema, closedObject_iff]
  constructor
  · intro ⟨_, hfields, _⟩
    obtain ⟨type, htype', hvalue⟩ := hfields _ List.mem_cons_self
    obtain ⟨id, hid, hvalue'⟩ := hfields _ (List.mem_cons_of_mem _ List.mem_cons_self)
    rw [member?_principalJson_type, Option.some.injEq] at htype'
    rw [member?_principalJson_id, Option.some.injEq] at hid
    subst htype' hid
    exact ⟨htype.mp hvalue, hvalue'⟩
  · intro ⟨hprincipal, hid⟩
    refine ⟨rfl, ?_, ?_⟩
    · simp only [List.forall_mem_cons]
      exact ⟨⟨_, rfl, htype.mpr hprincipal⟩, ⟨_, rfl, hid⟩, by simp⟩
    · show _ ⊆ ["type", "id"].map ascii
      rw [names_principalJson]
      decide

theorem names_recordJson :
    (recordJson verified context).members.map Prod.fst = List.map ascii [
      "acceptedBy", "admissionRecordId", "documentKind", "keyId", "organizationId", "principal",
      "protocolVersion", "signingHash", "trustedAcceptedAt"] := rfl

/-- What the record is built from is within the limits of its schema. -/
structure Recordable (env : Environment) (verified : VerifiedSignedDocument)
    (context : AdmissionContextValue) : Prop where
  organizationId : isIdentifier env verified.resolvedKey.organizationId = true
  signingHash : isSha256 verified.signingHash = true
  keyId : isIdentifier env verified.resolvedKey.keyId = true
  type : verified.resolvedKey.principal.type ∈ Registry.principalTypes
  id : isIdentifier env verified.resolvedKey.principal.id = true
  trusted : TrustedFor env context verified.resolvedKey

/-- The schema accepts the value that is built. -/
theorem schema_recordJson (h : Recordable env verified context)
    (hinstants : ∀ text i, parseInstant text = .ok i → isDateTime text = true) :
    firstAdmissionRecordSchema env isDateTime (recordJson verified context) = true := by
  rw [firstAdmissionRecordSchema, closedObject_iff]
  obtain ⟨i, hi, _⟩ := h.trusted.trustedAcceptedAt
  have hkind : ascii (signedDocumentKindId verified.kind) ∈ List.map ascii [
      "agent-card", "approval", "artifact", "command", "context-package", "event", "evidence",
      "extension-profile", "group-snapshot"] := by
    cases verified.kind <;> decide
  have hprincipal := actorSchema_principalJson.mpr ⟨h.type, h.id⟩
  have hservice : enumSchema ["service"] (.string context.acceptedBy.type) = true :=
    enumSchema_string.mpr (by simp [h.trusted.service])
  refine ⟨rfl, ?_, ?_⟩
  · simp only [List.forall_mem_cons]
    exact ⟨⟨_, rfl, by decide⟩, ⟨_, rfl, h.trusted.admissionRecordId⟩, ⟨_, rfl, h.organizationId⟩,
      ⟨_, rfl, enumSchema_string.mpr hkind⟩, ⟨_, rfl, h.signingHash⟩, ⟨_, rfl, h.keyId⟩,
      ⟨_, rfl, hprincipal⟩, ⟨_, rfl, hinstants _ i hi⟩,
      ⟨_, rfl, Bool.and_eq_true_iff.mpr ⟨h.trusted.acceptedBy, hservice⟩⟩, by simp⟩
  · show _ ⊆ List.map ascii [
      "protocolVersion", "admissionRecordId", "organizationId", "documentKind", "signingHash",
      "keyId", "principal", "trustedAcceptedAt", "acceptedBy"]
    rw [names_recordJson]
    decide

theorem textual_ascii {text : Bytes} (h : text.all (fun b => decide (b < 0x80)) = true) :
    (Json.string text).Textual :=
  .string (.ascii (forall_mem_of_all h))

theorem textual_identifier {text : Bytes} (h : isIdentifier env text = true) :
    (Json.string text).Textual :=
  .string (Schema.wellFormed_of_isProtocolUri (Schema.isProtocolUri_of_isIdentifier h))

theorem textual_principalJson (htype : principal.type ∈ Registry.principalTypes)
    (hid : isIdentifier env principal.id = true) : (principalJson principal).Textual := by
  have hall : Registry.principalTypes.all (fun type =>
      type.all fun b => decide (b < 0x80)) = true := by decide
  have htext := textual_ascii (List.all_eq_true.mp hall _ htype)
  exact (Json.textual_empty.set rfl (by decide) htext).set rfl (by decide) (textual_identifier hid)

theorem Recordable.textual (h : Recordable env verified context) :
    (recordJson verified context).Textual := by
  obtain ⟨hservice, hacceptedBy⟩ := actorSchema_principalJson.mp h.trusted.acceptedBy
  obtain ⟨i, hi, _⟩ := h.trusted.trustedAcceptedAt
  have hkind : (ascii (signedDocumentKindId verified.kind)).all
      (fun b => decide (b < 0x80)) = true := by
    cases verified.kind <;> decide
  have hhash := Schema.wellFormed_of_isSha256 h.signingHash
  unfold recordJson
  apply Json.Textual.set _ rfl (by decide) (textual_principalJson hservice hacceptedBy)
  apply Json.Textual.set _ rfl (by decide) (.string (Rfc3339.wellFormed_of_parseInstant hi))
  apply Json.Textual.set _ rfl (by decide) (textual_principalJson h.type h.id)
  apply Json.Textual.set _ rfl (by decide) (textual_identifier h.keyId)
  apply Json.Textual.set _ rfl (by decide) (.string hhash)
  apply Json.Textual.set _ rfl (by decide) (textual_ascii hkind)
  apply Json.Textual.set _ rfl (by decide) (textual_identifier h.organizationId)
  apply Json.Textual.set _ rfl (by decide) (textual_identifier h.trusted.admissionRecordId)
  exact Json.textual_empty.set rfl (by decide) (textual_ascii (by decide))

/-! ## The record that is built -/

/-- The record is written, read back as it is, and belongs to the document. -/
theorem Recordable.exists_prepared (h : Recordable env verified context)
    (hasserts : AssertsIdentifiers env isDateTime) (hparse : DecodesJson env.jsonParse) :
    ∃ prepared, prepareRecord env verified context = .ok prepared := by
  have htextual := h.textual
  have hshallow : Shallow 2 (recordJson verified context) := shallow_recordJson
  obtain ⟨bytes, _, hbytes, _⟩ :=
    Canonical.serialize_spec htextual.wellFormed htextual.finiteNumbers
  obtain ⟨value, hvalue, hdata⟩ := parse_canonicalJson hparse hshallow.ordered
    (hshallow.nesting.trans (by decide)) hbytes
  obtain rfl : value = recordJson verified context := htextual.eq_of_data hdata
  obtain ⟨i, hi, hvalid⟩ := h.trusted.trustedAcceptedAt
  let record : FirstAdmissionRecord := {
    bytes := bytes
    protocolVersion := ascii "0.1"
    admissionRecordId := context.admissionRecordId
    organizationId := verified.resolvedKey.organizationId
    documentKind := verified.kind
    signingHash := verified.signingHash
    keyId := verified.resolvedKey.keyId
    principal := verified.resolvedKey.principal
    trustedAcceptedAt := context.trustedAcceptedAt
    trustedAcceptedInstant := i
    acceptedBy := context.acceptedBy }
  have hprincipal (principal : Principal) : TextMember (principalJson principal) "type"
      principal.type ∧ TextMember (principalJson principal) "id" principal.id :=
    ⟨⟨_, rfl, rfl⟩, ⟨_, rfl, rfl⟩⟩
  have hreads : ReadsRecord env (recordJson verified context) record := {
    schema := hasserts.accepts _ (schema_recordJson h hasserts.instants)
    protocolVersion := ⟨_, rfl, rfl⟩
    admissionRecordId := ⟨_, rfl, rfl⟩
    organizationId := ⟨_, rfl, rfl⟩
    documentKind := ⟨_, rfl, rfl⟩
    signingHash := ⟨_, rfl, rfl⟩
    keyId := ⟨_, rfl, rfl⟩
    principal := ⟨_, rfl, hprincipal _⟩
    trustedAcceptedAt := ⟨_, rfl, rfl⟩
    instant := hi
    acceptedBy := ⟨_, rfl, hprincipal _⟩
    service := h.trusted.service }
  have hprepares : Prepares env verified context record :=
    ⟨hbytes, ⟨⟨_, hvalue, hreads⟩, rfl⟩, ⟨rfl, rfl, rfl, rfl, rfl, rfl, hvalid⟩⟩
  exact ⟨_, hprepares.prepareRecord hi⟩

/-- The schema of the records limits the identifiers in what was prepared. -/
theorem Prepares.isIdentifier {record : FirstAdmissionRecord}
    (h : Prepares env verified context record) (hasserts : AssertsIdentifiers env isDateTime)
    (hparse : DecodesJson env.jsonParse) :
    isIdentifier env verified.resolvedKey.organizationId = true ∧
      isIdentifier env verified.resolvedKey.principal.id = true := by
  obtain ⟨value, hvalue, hdata, _⟩ := h.exists_value hparse
  obtain ⟨value', hvalue', hreads⟩ := h.parses.reads
  obtain rfl : value = value' := Except.ok.inj (hvalue.symm.trans hvalue')
  have hrecords := hasserts.records value hreads.schema
  constructor
  · have hmember : value.member? "organizationId" =
        some (.string verified.resolvedKey.organizationId) :=
      Json.member?_string_of_data hdata rfl
    exact hrecords [.member "organizationId"] (by decide) _ (Json.mem_reach_member.mpr hmember)
  · obtain ⟨principal, hprincipal, hdata⟩ : ∃ principal,
        value.member? "principal" = some principal ∧
          principal.data = (principalJson verified.resolvedKey.principal).data :=
      Json.exists_member?_of_data hdata rfl
    have hmember := Json.member?_string_of_data hdata member?_principalJson_id
    exact hrecords [.member "principal", .member "id"] (by decide) _
      (Json.mem_reach_members.mpr ⟨principal, hprincipal, hmember⟩)

/-! ## The identifiers of a verified document -/

/-- The signer of a kind other than the Agent Card is named in the document. -/
theorem exists_signer {kind : SignedDocumentKind} {document : Json}
    (h : Signs (profile kind) document principal) (hkind : kind ≠ .agentCard) :
    ∃ position ∈ identifierPositions kind, ∃ value ∈ document.reach position,
      value.asString? = some principal.id := by
  have hsecond {first second : Position} {rest : List Position} :
      second ∈ first :: second :: rest := List.mem_cons_of_mem _ List.mem_cons_self
  cases kind with
  | agentCard => exact absurd rfl hkind
  | artifact =>
    obtain ⟨_, producer, hproducer, value, hvalue, hid⟩ := h
    exact ⟨_, hsecond, value, Json.mem_reach_members.mpr ⟨producer, hproducer, hvalue⟩, hid⟩
  | _ =>
    obtain ⟨_, signer, hsigner, _, value, hvalue, hid⟩ := h
    exact ⟨_, hsecond, value, Json.mem_reach_members.mpr ⟨signer, hsigner, hvalue⟩, hid⟩

theorem isIdentifier_of_idSchema {value : Json} {text : Bytes}
    (htext : value.asString? = some text) (h : idSchema env value = true) :
    isIdentifier env text = true := by
  rw [idSchema, Schema.textSchema, htext] at h
  exact h

/-- A record of a verified document is within the limits of its schema, if the
identifiers are that the schema of the document does not limit. -/
theorem recordable_of_authentic {kind : SignedDocumentKind} {receivedBytes : Bytes}
    {resolver : KeyResolver} (hauthentic : Authentic env kind receivedBytes resolver verified)
    (hasserts : AssertsIdentifiers env isDateTime)
    (haddress : Uri.ReadsAddresses env.a2iIpAddress)
    (hdigest : ∀ bytes digest, env.evpDigest bytes = some digest → digest.length = 32)
    (htrusted : TrustedFor env context verified.resolvedKey)
    (horganization : verified.resolvedKey.organizationId.length ≤ maxIdentifierLength)
    (hservice : kind = .agentCard →
      verified.resolvedKey.principal.id.length ≤ maxIdentifierLength) :
    Recordable env verified context := by
  obtain ⟨request, _, _, _, _, _, _, _, hresolve, _⟩ := hauthentic.resolved
  obtain ⟨horganizationUri, htype⟩ := Registry.organization_of_resolve hresolve
  have hanswers := Registry.answers_of_resolve hresolve
  have hdocument := hasserts.documents kind _ hauthentic.schema
  refine ⟨(isIdentifier_iff haddress).mpr ⟨horganizationUri, horganization⟩,
    Schema.isSha256_of_sha256 hdigest hauthentic.signingHash, ?_, htype, ?_, htrusted⟩
  · obtain ⟨signature, hsignature, hreads⟩ := hauthentic.signature
    obtain ⟨value, hvalue, htext⟩ := hreads.keyId
    have hposition : keyIdPosition ∈ identifierPositions kind := by cases kind <;> decide
    rw [hauthentic.keyId]
    exact isIdentifier_of_idSchema htext (hdocument _ hposition value
      (Json.mem_reach_members.mpr ⟨signature, hsignature, hvalue⟩))
  · by_cases hkind : kind = .agentCard
    · exact (isIdentifier_iff haddress).mpr ⟨hanswers.principalUri, hservice hkind⟩
    · obtain ⟨position, hposition, value, hvalue, htext⟩ := exists_signer hauthentic.signer hkind
      exact isIdentifier_of_idSchema htext (hdocument position hposition value hvalue)

end

/-- A verified document is admissible in a trusted context exactly if the name
of the organization, and that of the service which signs an Agent Card, are
within the limit of the schema. -/
theorem prepareFirstAdmission_iff (env : Environment) (isDateTime : Bytes → Bool)
    (hasserts : AssertsIdentifiers env isDateTime)
    (haddress : Uri.ReadsAddresses env.a2iIpAddress)
    (hdigest : ∀ bytes digest, env.evpDigest bytes = some digest → digest.length = 32)
    (hparse : DecodesJson env.jsonParse) (kind : SignedDocumentKind) (receivedBytes : Bytes)
    (resolver : KeyResolver) (verified : VerifiedSignedDocument)
    (hverified : verify env kind receivedBytes resolver = .ok verified)
    (adapters : Adapters) (context : AdmissionContextValue)
    (hissue : adapters (.issue verified.resolvedKey.organizationId verified.signingHash) =
      .ok context)
    (htrusted : TrustedFor env context verified.resolvedKey) :
    (∃ prepared, (prepareFirstAdmission env verified).run adapters = .ok prepared) ↔
      verified.resolvedKey.organizationId.length ≤ maxIdentifierLength ∧
        (kind = .agentCard →
          verified.resolvedKey.principal.id.length ≤ maxIdentifierLength) := by
  obtain ⟨opened, hopens, hcompletes⟩ := verify_eq_ok.mp hverified
  have hauthentic := authentic_of_opens hopens hcompletes
  rw [run_prepareFirstAdmission hissue]
  constructor
  · intro ⟨prepared, hprepared⟩
    obtain ⟨_, hprepares⟩ := prepares_of_prepareRecord hprepared
    obtain ⟨horganization, hid⟩ := hprepares.isIdentifier hasserts hparse
    exact ⟨((isIdentifier_iff haddress).mp horganization).2,
      fun _ => ((isIdentifier_iff haddress).mp hid).2⟩
  · intro ⟨horganization, hservice⟩
    exact (recordable_of_authentic hauthentic hasserts haddress hdigest htrusted horganization
      hservice).exists_prepared hasserts hparse

/-! ## A long name -/

/-- A catalog that asserts identifiers and records. -/
def identifierCatalog (env : Environment) : Validate := fun schemaName v =>
  .ok ⟨documentKinds.all (fun kind => (profile kind).schema != schemaName ||
      (identifierPositions kind).all fun position => (v.reach position).all (idSchema env)) &&
    (schemaName != "first-admission-record.schema.json" ||
      firstAdmissionRecordSchema env Rfc3339.isDateTime v), none⟩

def identifierEnvironment : Environment :=
  { sampleEnvironment with validate := identifierCatalog sampleEnvironment }

theorem assertsIdentifiers_sample :
    AssertsIdentifiers identifierEnvironment Rfc3339.isDateTime := by
  constructor
  · intro kind document hvalid position hposition value hvalue
    obtain ⟨result, hresult, hvalid⟩ := hvalid
    rw [← Except.ok.inj hresult, Bool.and_eq_true, List.all_eq_true] at hvalid
    have hkind : kind ∈ documentKinds := by cases kind <;> decide
    have h := hvalid.1 kind hkind
    rw [bne_self_eq_false, Bool.false_or, List.all_eq_true] at h
    exact List.all_eq_true.mp (h position hposition) value hvalue
  · intro record hvalid
    obtain ⟨result, hresult, hvalid⟩ := hvalid
    rw [← Except.ok.inj hresult, Bool.and_eq_true] at hvalid
    exact Schema.idSchema_of_record hvalid.2
  · intro record h
    refine ⟨_, rfl, ?_⟩
    have hnames : ∀ kind ∈ documentKinds,
        ((profile kind).schema != "first-admission-record.schema.json") = true := by decide
    rw [Bool.and_eq_true, List.all_eq_true]
    refine ⟨fun kind hkind => ?_, h⟩
    rw [hnames kind hkind, Bool.true_or]
  · intro text i hi
    exact Rfc3339.isDateTime_of_parseInstant hi

/-- The registry of the sample, for an organization of some name. -/
def namedRegistry (organizationId : Bytes) : Bytes :=
  ascii "\x7b\"organizationId\":\"" ++ organizationId ++ List.flatMap ascii [
    "\",\"bindings\":[\x7b\"keyId\":\"urn:mwp:key:one\",\"algorithm\":\"Ed25519\",",
    "\"principal\":\x7b\"type\":\"agent\",\"id\":\"urn:mwp:agent:one\"\x7d,",
    "\"publicKey\":\"11qYAYKxCrfVS_7TyWQHOg7hcvPapiMlrwIaaPcHURo\",",
    "\"validFrom\":\"2026-07-15T00:00:00Z\",\"validityHistory\":[]\x7d]\x7d"]

/-- A name of so many characters behind its prefix. -/
def namedOrganization (count : Nat) : Bytes :=
  ascii "urn:mwp:organization:" ++ List.replicate count 0x61

/-- The sample with that name, without the scanner in front of the decoder. -/
def namedVerification (count : Nat) : Except Thrown (Bool × Nat) := do
  let verified ← referenceVerify identifierEnvironment .evidence
    (sampleEvidence "9007199254740993") (namedRegistry (namedOrganization count))
  let accepted ← parseInstant (sampleContext "2026-07-16T01:05:00Z").trustedAcceptedAt
  .ok (outsideKeyInterval verified.resolvedKey accepted,
    verified.resolvedKey.organizationId.length)

theorem exists_named {count length : Nat}
    (hok : namedVerification count = .ok (false, length)) :
    ∃ verified, verify identifierEnvironment .evidence (sampleEvidence "9007199254740993")
        (completeResolver (namedRegistry (namedOrganization count))) = .ok verified ∧
      TrustedFor identifierEnvironment (sampleContext "2026-07-16T01:05:00Z")
        verified.resolvedKey ∧
      verified.resolvedKey.organizationId.length = length := by
  obtain ⟨verified, hverified, hok⟩ := Except.bind_eq_ok.mp hok
  obtain ⟨accepted, haccepted, hok⟩ := Except.bind_eq_ok.mp hok
  obtain ⟨hinterval, hlength⟩ := Prod.mk.inj (Except.ok.inj hok)
  exact ⟨verified, verify_of_referenceVerify rfl hverified, ⟨by decide +kernel, by decide +kernel,
    rfl, accepted, haccepted, outsideKeyInterval_eq_false.mp hinterval⟩, hlength⟩

theorem readsAddresses_none : Uri.ReadsAddresses fun _ => none where
  ne_nil s h := by cases h.2
  user s h := by cases h.2

/-- The name of the organization is longer than a record may have it. -/
theorem admissible_counterexample :
    ∃ verified, verify identifierEnvironment .evidence (sampleEvidence "9007199254740993")
        (completeResolver (namedRegistry (namedOrganization 600))) = .ok verified ∧
      TrustedFor identifierEnvironment (sampleContext "2026-07-16T01:05:00Z")
        verified.resolvedKey ∧
      ∀ prepared, prepareRecord identifierEnvironment verified
        (sampleContext "2026-07-16T01:05:00Z") ≠ .ok prepared := by
  have hok : namedVerification 600 = .ok (false, 621) := by decide +kernel
  obtain ⟨verified, hverified, htrusted, hlength⟩ := exists_named hok
  refine ⟨verified, hverified, htrusted, fun prepared hprepared => ?_⟩
  obtain ⟨_, hprepares⟩ := prepares_of_prepareRecord hprepared
  obtain ⟨horganization, _⟩ :=
    hprepares.isIdentifier assertsIdentifiers_sample decodesJson_referenceParse
  have hle := ((isIdentifier_iff readsAddresses_none).mp horganization).2
  rw [hlength] at hle
  exact absurd hle (by decide)

/-- Adapters that issue the context, and fail else. -/
def issuing (context : AdmissionContextValue) : Adapters
  | .resolve _ => .error .foreign
  | .lookup _ _ => .error .foreign
  | .issue _ _ => .ok context
  | .appendOrReturnExisting _ _ _ => .error .foreign

theorem prepareFirstAdmission_iff_sample :
    ∃ verified prepared, verify identifierEnvironment .evidence
        (sampleEvidence "9007199254740993")
        (completeResolver (namedRegistry (namedOrganization 4))) = .ok verified ∧
      (prepareFirstAdmission identifierEnvironment verified).run
        (issuing (sampleContext "2026-07-16T01:05:00Z")) = .ok prepared := by
  have hok : namedVerification 4 = .ok (false, 25) := by decide +kernel
  obtain ⟨verified, hverified, htrusted, hlength⟩ := exists_named hok
  have hdigest (bytes digest : Bytes)
      (h : identifierEnvironment.evpDigest bytes = some digest) : digest.length = 32 := by
    rw [← Option.some.inj h]
    split_ifs <;> rfl
  obtain ⟨prepared, hprepared⟩ := (prepareFirstAdmission_iff identifierEnvironment
    Rfc3339.isDateTime assertsIdentifiers_sample readsAddresses_none hdigest
    decodesJson_referenceParse .evidence _ _ verified hverified
    (issuing (sampleContext "2026-07-16T01:05:00Z")) _ rfl htrusted).mpr
      ⟨by rw [hlength]; decide, fun h => by cases h⟩
  exact ⟨verified, prepared, hverified, hprepared⟩

end MissionWeave.AdmissionService
