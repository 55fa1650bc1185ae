import MissionWeave.SignedDocument.Sanitize
import MissionWeave.Registry.Resolve

/-!
# `SignedDocumentCodec`

`sign` and `verify`.  Each `try` block of `verify` is a function of its own,
and `openDocument` is what comes before the resolver is asked: what the
resolver answers, or throws, is an argument of what comes after.
-/

namespace MissionWeave

open Sanitizer (sanitizeUnpairedSurrogates)

/-! ## Fields -/

def requiredString (object : Json) (field : String) : Except Thrown Bytes :=
  requiredStringField "required field is not a string: " object field

/-- `principal`. -/
def parsePrincipal (value : Json) : Except Thrown Principal := do
  let type ← requiredString value "type"
  let id ← requiredString value "id"
  if type ∉ Registry.principalTypes then
    .error (.invalidArgument "expected signer has an unsupported Principal type")
  else .ok ⟨type, id⟩

def expectedPrincipal (selected : Profile) (document : Json) :
    Except Thrown (Option Principal) :=
  if selected.signerRule = .service then .ok none
  else if ¬document.contains selected.signer then
    .error (.invalidArgument "expected signer field is absent")
  else if selected.signerRule = .agentId then do
    let producer ← document.at' selected.signer
    let id ← requiredString producer "agentId"
    .ok (some ⟨ascii "agent", id⟩)
  else do
    let signer ← document.at' selected.signer
    let principal ← parsePrincipal signer
    .ok (some principal)

/-- `ends_with('Z')`. -/
def endsWithZ (time : Bytes) : Bool := time.getLast? == some 0x5A

/-- The characters in front of the first NUL. -/
def cString (text : String) : String := String.ofList (text.toList.takeWhile (· != '\x00'))

/-- `exception_reason`. -/
def exceptionReason (what : String) : String :=
  if cString what = "" then "unknown verification failure" else cString what

/-- A `try` block of `verify` and its handler, which calls `fail`. -/
def inStage {α : Type} (stage : VerificationStage) (block : Except Thrown α) : Except Thrown α :=
  catchException block fun what => .error (.verificationError ⟨stage, exceptionReason what⟩)

/-! ## What verification returns -/

structure VerifiedSignedDocument where
  kind : SignedDocumentKind
  document : Json
  receivedBytes : Bytes
  signingBytes : Bytes
  signingHash : Bytes
  canonicalBytes : Bytes
  canonicalHash : Bytes
  protectedTime : Bytes
  protectedInstant : ExactInstant
  signature : SignatureMaterial
  resolvedKey : ResolvedKey

/-- A signing key.  It returns an array of 64 bytes, or throws. -/
structure SigningKey where
  keyId : Except Thrown Bytes
  sign : Bytes → Except Thrown Ed25519Signature
  length_sign : ∀ message signature, sign message = .ok signature → signature.length = 64

/-- What a resolver returns or throws on a request. -/
abbrev KeyResolver := KeyResolutionRequest → Except Thrown KeyRegistrySnapshot

namespace SignedDocumentCodec

variable (env : Environment)

/-- `require_schema`. -/
def requireSchema (name : String) (value : Json) : Except Thrown Unit := do
  let result ← env.validate name value
  if result.valid then .ok ()
  else
    .error (.invalidArgument (name ++ " validation failed" ++
      match result.issue with
      | none => ""
      | some issue => ": " ++ issue.message))

/-! ## Signing -/

/-- The envelope that `sign` sets. -/
def signatureEnvelope (keyId createdAt value : Bytes) : Json :=
  (((Json.object []).set "algorithm" (.string (ascii "Ed25519"))).set "keyId"
    (.string keyId)).set "createdAt" (.string createdAt) |>.set "value" (.string value)

/-- The placeholder that stands for the signature. -/
def placeholder : Ed25519Signature := List.replicate 64 0

/-- `SignedDocumentCodec::sign`. -/
def sign (kind : SignedDocumentKind) (unsignedDocument : Json) (signingKey : SigningKey) :
    Except Thrown Json :=
  if ¬unsignedDocument.isObject then
    .error (.invalidArgument "Unsigned Signed Document must be a JSON object")
  else if unsignedDocument.contains "signature" then
    .error (.invalidArgument "Unsigned Signed Document already has a signature")
  else do
    let protectedTime ← requiredString unsignedDocument (profile kind).protectedTime
    let _ ← parseInstant protectedTime
    if ¬endsWithZ protectedTime then
      .error (.invalidArgument "Protected signed time must use uppercase Z")
    else do
      let keyId ← signingKey.keyId
      let envelope := signatureEnvelope keyId protectedTime
      requireSchema env (profile kind).schema
        (unsignedDocument.set "signature" (envelope (base64urlEncode placeholder)))
      let signingBytes ← Canonical.canonicalJson unsignedDocument
      let signature ← signingKey.sign signingBytes
      validateSignatureEncoding signature
      .ok (unsignedDocument.set "signature" (envelope (base64urlEncode signature)))

/-! ## Verification, before the resolver is asked -/

structure ParsedDocument where
  document : Json
  unpairedSurrogate : Bool

def parseStage (receivedBytes : Bytes) : Except Thrown ParsedDocument :=
  inStage .parse do
    let sanitized := sanitizeUnpairedSurrogates receivedBytes
    let document ← env.parseStrictJson sanitized.text
    .ok ⟨document, sanitized.unpairedSurrogate⟩

def schemaStage (selected : Profile) (document : Json) : Except Thrown Unit :=
  inStage .schema do
    requireSchema env selected.schema document
    if ¬document.isObject then
      .error (.invalidArgument "Signed Document is not a JSON object")
    else do
      let protectedTime ← requiredString document selected.protectedTime
      let _ ← parseInstant protectedTime
      let envelope ← document.at' "signature"
      let createdAt ← requiredString envelope "createdAt"
      let _ ← parseInstant createdAt
      .ok ()

/-- What the stage of the signature envelope reads. -/
structure Envelope where
  protectedTime : Bytes
  protectedInstant : ExactInstant
  expected : Option Principal
  signature : SignatureMaterial

def envelopeStage (selected : Profile) (document : Json) : Except Thrown Envelope :=
  inStage .signatureEnvelope do
    let protectedTime ← requiredString document selected.protectedTime
    let protectedInstant ← parseInstant protectedTime
    let envelope ← document.at' "signature"
    let createdAt ← requiredString envelope "createdAt"
    let _ ← parseInstant createdAt
    if ¬endsWithZ protectedTime ∨ ¬endsWithZ createdAt then
      .error (.invalidArgument
        "protected time and signature.createdAt must use uppercase Z")
    else if protectedTime ≠ createdAt then
      .error (.invalidArgument "protected time and signature.createdAt are not byte-equal")
    else do
      let expected ← expectedPrincipal selected document
      let value ← requiredString envelope "value"
      let decoded ← base64urlDecode value "signature.value"
      if decoded.length ≠ 64 then
        .error (.invalidArgument "signature.value does not decode to 64 bytes")
      else do
        validateSignatureEncoding decoded
        let algorithm ← requiredString envelope "algorithm"
        let keyId ← requiredString envelope "keyId"
        .ok ⟨protectedTime, protectedInstant, expected,
          ⟨algorithm, keyId, createdAt, value, decoded⟩⟩

/-- What verification has established when it asks the resolver. -/
structure OpenedDocument where
  kind : SignedDocumentKind
  receivedBytes : Bytes
  parsed : ParsedDocument
  envelope : Envelope

/-- The request to the resolver. -/
def OpenedDocument.request (opened : OpenedDocument) : KeyResolutionRequest :=
  ⟨opened.kind, opened.envelope.signature.keyId, opened.envelope.expected,
    (profile opened.kind).signerRule = .service, opened.envelope.protectedTime,
    opened.envelope.protectedInstant⟩

/-- `verify` up to the call of the resolver. -/
def openDocument (kind : SignedDocumentKind) (receivedBytes : Bytes) :
    Except Thrown OpenedDocument := do
  let parsed ← parseStage env receivedBytes
  schemaStage env (profile kind) parsed.document
  let envelope ← envelopeStage (profile kind) parsed.document
  .ok ⟨kind, receivedBytes, parsed, envelope⟩

/-! ## Verification, after the resolver has answered -/

/-- The stage of the key resolution, with what the resolver returned or threw. -/
def resolutionStage (request : KeyResolutionRequest)
    (response : Except Thrown KeyRegistrySnapshot) : Except Thrown RegistryKeyResolution :=
  inStage .keyResolution do
    let snapshot ← response
    if snapshot.completeness ≠ .organizationWide then
      .error (.invalidArgument "Registry evidence is not Organization-wide complete")
    else Registry.resolveAgentRegistryKey env snapshot.registryBytes request

structure CanonicalBytes where
  signingBytes : Bytes
  canonicalBytes : Bytes

def canonicalizationStage (parsed : ParsedDocument) : Except Thrown CanonicalBytes :=
  inStage .canonicalization do
    if parsed.unpairedSurrogate then
      .error (.invalidArgument "document contains an unpaired Unicode surrogate")
    else do
      let signingBytes ← Canonical.canonicalJson (parsed.document.erase "signature")
      let canonicalBytes ← Canonical.canonicalJson parsed.document
      .ok ⟨signingBytes, canonicalBytes⟩

def signatureStage (publicKey : Ed25519PublicKey) (signingBytes : Bytes)
    (signature : Ed25519Signature) : Except Thrown Unit :=
  inStage .signature do
    let verifies ← env.ed25519Verify publicKey signingBytes signature
    if ¬verifies then .error (.invalidArgument "Ed25519 signature does not verify")
    else .ok ()

/-- `verify` from the resolved key on. -/
def finishDocument (opened : OpenedDocument) (resolution : RegistryKeyResolution) :
    Except Thrown VerifiedSignedDocument := do
  let bytes ← canonicalizationStage opened.parsed
  signatureStage env resolution.publicKey bytes.signingBytes opened.envelope.signature.bytes
  let signingHash ← env.sha256 bytes.signingBytes
  let canonicalHash ← env.sha256 bytes.canonicalBytes
  .ok {
    kind := opened.kind
    document := opened.parsed.document
    receivedBytes := opened.receivedBytes
    signingBytes := bytes.signingBytes
    signingHash := signingHash
    canonicalBytes := bytes.canonicalBytes
    canonicalHash := canonicalHash
    protectedTime := opened.envelope.protectedTime
    protectedInstant := opened.envelope.protectedInstant
    signature := opened.envelope.signature
    resolvedKey := resolution.resolvedKey }

/-- `verify` from the answer of the resolver on. -/
def completeDocument (opened : OpenedDocument) (response : Except Thrown KeyRegistrySnapshot) :
    Except Thrown VerifiedSignedDocument := do
  let resolution ← resolutionStage env opened.request response
  finishDocument env opened resolution

/-- `SignedDocumentCodec::verify`. -/
def verify (kind : SignedDocumentKind) (receivedBytes : Bytes) (resolver : KeyResolver) :
    Except Thrown VerifiedSignedDocument := do
  let opened ← openDocument env kind receivedBytes
  completeDocument env opened (resolver opened.request)

end SignedDocumentCodec

end MissionWeave
