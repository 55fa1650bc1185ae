import MissionWeave.SignedDocument.Codec

/-!
# First-Admission Records

The records of `admission.hpp`, and the functions of the Admission Service that
make no call: `parse_record`, `validate_bindings`, the second half of
`prepare_first_admission` and `validate_authenticated_record`.
-/

namespace MissionWeave

structure AdmissionContextValue where
  admissionRecordId : Bytes
  trustedAcceptedAt : Bytes
  acceptedBy : Principal

structure FirstAdmissionRecord where
  bytes : Bytes
  protocolVersion : Bytes
  admissionRecordId : Bytes
  organizationId : Bytes
  documentKind : SignedDocumentKind
  signingHash : Bytes
  keyId : Bytes
  principal : Principal
  trustedAcceptedAt : Bytes
  trustedAcceptedInstant : ExactInstant
  acceptedBy : Principal

structure PreparedFirstAdmission where
  verified : VerifiedSignedDocument
  record : FirstAdmissionRecord

structure AdmittedSignedDocument where
  verified : VerifiedSignedDocument
  record : FirstAdmissionRecord

/-- A record and the service that the log has authenticated.  The constructor
throws unless it is a service. -/
structure AuthenticatedAdmissionRecord where
  recordBytes : Bytes
  authenticatedService : Principal
  service : authenticatedService.type = ascii "service"

structure AdmissionLookup where
  record : Option AuthenticatedAdmissionRecord

def AdmissionLookup.found (record : AuthenticatedAdmissionRecord) : AdmissionLookup :=
  ⟨some record⟩

def AdmissionLookup.authoritativeAbsence : AdmissionLookup := ⟨none⟩

def AdmissionLookup.isAuthoritativeAbsence (lookup : AdmissionLookup) : Bool :=
  lookup.record.isNone

namespace AdmissionService

/-! ## Reading a record -/

/-- `fail`. -/
def fail {α : Type} (reason : AdmissionReason) : Except Thrown α :=
  .error (.admissionError reason)

/-- `catch (const AdmissionAdapterError& error) { remap_adapter_error(error); }`. -/
def remapAdapterError {α : Type} : Except Thrown α → Except Thrown α
  | .error (.admissionAdapterError reason _) => fail reason
  | result => result

def requiredString (object : Json) (field : String) : Except Thrown Bytes :=
  requiredStringField "First-Admission Record field is not text: " object field

/-- `principal`. -/
def parsePrincipal (value : Json) : Except Thrown Principal := do
  let type ← requiredString value "type"
  let id ← requiredString value "id"
  .ok ⟨type, id⟩

/-- The kinds in the order of `document_kind`. -/
def documentKinds : List SignedDocumentKind :=
  [.agentCard, .approval, .artifact, .command, .contextPackage, .event, .evidence,
    .extensionProfile, .groupSnapshot]

def documentKind (id : Bytes) : Except Thrown SignedDocumentKind :=
  match documentKinds.find? fun kind => ascii (signedDocumentKindId kind) == id with
  | some kind => .ok kind
  | none => .error (.invalidArgument "unknown First-Admission Record documentKind")

structure ParsedAdmissionRecord where
  record : FirstAdmissionRecord
  trustedAcceptedInstant : ExactInstant

/-- `catch (const AdmissionError&) { throw; } catch (const std::exception&)` with
`record_schema_invalid`. -/
def failSchemaInvalid {α : Type} : Except Thrown α → Except Thrown α
  | .error (.admissionError reason) => .error (.admissionError reason)
  | result => catchException result fun _ => fail .recordSchemaInvalid

section

variable (env : Environment)

/-- The record of a parsed value. -/
def readRecord (bytes : Bytes) (value : Json) : Except Thrown ParsedAdmissionRecord := do
  let validation ← env.validate "first-admission-record.schema.json" value
  if ¬validation.valid then fail .recordSchemaInvalid
  else do
    let acceptedByValue ← value.at' "acceptedBy"
    let acceptedBy ← parsePrincipal acceptedByValue
    if acceptedBy.type ≠ ascii "service" then fail .recordSchemaInvalid
    else do
      let trustedAcceptedAt ← requiredString value "trustedAcceptedAt"
      let trustedAcceptedInstant ← parseInstant trustedAcceptedAt
      let protocolVersion ← requiredString value "protocolVersion"
      let admissionRecordId ← requiredString value "admissionRecordId"
      let organizationId ← requiredString value "organizationId"
      let documentKindId ← requiredString value "documentKind"
      let documentKind ← documentKind documentKindId
      let signingHash ← requiredString value "signingHash"
      let keyId ← requiredString value "keyId"
      let principalValue ← value.at' "principal"
      let principal ← parsePrincipal principalValue
      .ok ⟨⟨bytes, protocolVersion, admissionRecordId, organizationId, documentKind,
        signingHash, keyId, principal, trustedAcceptedAt, trustedAcceptedInstant, acceptedBy⟩,
        trustedAcceptedInstant⟩

/-- `parse_record`. -/
def parseRecord (bytes : Bytes) : Except Thrown ParsedAdmissionRecord :=
  failSchemaInvalid do
    let value ← env.parseStrictJson bytes
    readRecord env bytes value

end

/-- The check of a trusted time against the validity of the resolved key. -/
def outsideKeyInterval (resolved : ResolvedKey) (accepted : ExactInstant) : Bool :=
  accepted.lt resolved.validFromInstant ||
    (resolved.validUntilInstant.map fun limit => !accepted.lt limit).getD false ||
      (resolved.revokedAtInstant.map fun limit => !accepted.lt limit).getD false

/-- `validate_bindings`. -/
def validateBindings (parsed : ParsedAdmissionRecord) (verified : VerifiedSignedDocument)
    (authenticatedService : Principal) : Except Thrown Unit :=
  let record := parsed.record
  let resolved := verified.resolvedKey
  if record.organizationId ≠ resolved.organizationId ∨ record.documentKind ≠ verified.kind ∨
      record.signingHash ≠ verified.signingHash ∨ record.keyId ≠ resolved.keyId ∨
        record.principal ≠ resolved.principal then
    fail .recordBindingMismatch
  else if record.acceptedBy ≠ authenticatedService then fail .logAuthenticationFailed
  else if outsideKeyInterval resolved parsed.trustedAcceptedInstant then
    fail .trustedTimeOutsideKeyInterval
  else .ok ()

/-! ## Preparing a record -/

def principalJson (value : Principal) : Json :=
  ((Json.object []).set "type" (.string value.type)).set "id" (.string value.id)

/-- The value that `prepare_first_admission` builds. -/
def recordJson (verified : VerifiedSignedDocument) (context : AdmissionContextValue) : Json :=
  let resolved := verified.resolvedKey
  (Json.object []).set "protocolVersion" (.string (ascii "0.1"))
    |>.set "admissionRecordId" (.string context.admissionRecordId)
    |>.set "organizationId" (.string resolved.organizationId)
    |>.set "documentKind" (.string (ascii (signedDocumentKindId verified.kind)))
    |>.set "signingHash" (.string verified.signingHash)
    |>.set "keyId" (.string resolved.keyId)
    |>.set "principal" (principalJson resolved.principal)
    |>.set "trustedAcceptedAt" (.string context.trustedAcceptedAt)
    |>.set "acceptedBy" (principalJson context.acceptedBy)

section

variable (env : Environment)

/-- `prepare_first_admission` from the issued context on. -/
def prepareRecord (verified : VerifiedSignedDocument) (context : AdmissionContextValue) :
    Except Thrown PreparedFirstAdmission := do
  let accepted ← catchException (parseInstant context.trustedAcceptedAt) fun _ =>
    fail .malformedTrustedTime
  if outsideKeyInterval verified.resolvedKey accepted then fail .trustedTimeOutsideKeyInterval
  else do
    let canonical ← catchException (Canonical.canonicalJson (recordJson verified context)) fun _ =>
      fail .recordSchemaInvalid
    let parsed ← parseRecord env canonical
    validateBindings parsed verified context.acceptedBy
    if ¬parsed.trustedAcceptedInstant.equals accepted then fail .recordSchemaInvalid
    else .ok ⟨verified, parsed.record⟩

/-! ## Validating an authenticated record -/

def isEventSelfAnchoring (recordBytes : Bytes) (verified : VerifiedSignedDocument) :
    Except Thrown Bool :=
  if verified.kind ≠ .event then .ok false
  else if recordBytes = verified.receivedBytes then .ok true
  else
    catchException
      (do
        let value ← env.parseStrictJson recordBytes
        let canonical ← Canonical.canonicalJson value
        .ok (canonical == verified.canonicalBytes))
      fun _ => .ok false

/-- `validate_authenticated_record`. -/
def validateAuthenticatedRecord (authenticated : AuthenticatedAdmissionRecord)
    (verified : VerifiedSignedDocument) : Except Thrown AdmittedSignedDocument := do
  let selfAnchoring ← isEventSelfAnchoring env authenticated.recordBytes verified
  if selfAnchoring then fail .eventSelfAnchoring
  else do
    let parsed ← parseRecord env authenticated.recordBytes
    validateBindings parsed verified authenticated.authenticatedService
    .ok ⟨verified, parsed.record⟩

end

end AdmissionService

end MissionWeave
