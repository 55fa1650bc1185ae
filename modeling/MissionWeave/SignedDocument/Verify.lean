import MissionWeave.SignedDocument.Codec
import MissionWeave.Registry.Spec

/-!
# What `verify` establishes

Each stage of `verify` is described by what it reads and checks, and the stages
are put together.

* `openDocument_eq_ok`, `completeDocument_eq_ok`: the two halves of `verify`.
* `authentic_of_verify`: what holds of a document that `verify` accepts.
-/

namespace MissionWeave.SignedDocumentCodec

open Sanitizer (sanitizeUnpairedSurrogates sanitize_of_jsonText text_of_not_flagged)

/-! ## Single stages -/

/-- A stage returns what its block returns. -/
theorem inStage_eq_ok {α : Type} {stage : VerificationStage} {block : Except Thrown α} {v : α} :
    inStage stage block = .ok v ↔ block = .ok v :=
  catchException_eq_ok fun _ _ => by simp

section

variable {env : Environment} {selected : Profile} {document : Json}

theorem requiredString_eq_ok {object : Json} {field : String} {text : Bytes} :
    requiredString object field = .ok text ↔ TextMember object field text :=
  requiredStringField_eq_ok

theorem requireSchema_eq_ok {name : String} {value : Json} :
    requireSchema env name value = .ok () ↔ Validates env.validate name value := by
  rw [requireSchema, Except.bind_eq_ok, Validates]
  refine exists_congr fun result => and_congr_right fun _ => ?_
  split_ifs with h
  · simp [h]
  · simp [h]

/-- The principal that signs a document, by the rule of its kind. -/
def Signs (selected : Profile) (document : Json) (principal : Principal) : Prop :=
  match selected.signerRule with
  | .service => principal.type = ascii "service"
  | .agentId => principal.type = ascii "agent" ∧
      ∃ producer, document.member? selected.signer = some producer ∧
        TextMember producer "agentId" principal.id
  | .principal => principal.type ∈ Registry.principalTypes ∧
      ∃ signer, document.member? selected.signer = some signer ∧
        TextMember signer "type" principal.type ∧ TextMember signer "id" principal.id

/-- The principal that is passed on to the resolver. -/
def Expects (selected : Profile) (document : Json) (expected : Option Principal) : Prop :=
  if selected.signerRule = .service then expected = none
  else ∃ principal, expected = some principal ∧ Signs selected document principal

theorem parsePrincipal_eq_ok {value : Json} {principal : Principal} :
    parsePrincipal value = .ok principal ↔
      principal.type ∈ Registry.principalTypes ∧ TextMember value "type" principal.type ∧
        TextMember value "id" principal.id := by
  constructor
  · intro h
    obtain ⟨type, htype, h⟩ := Except.bind_eq_ok.mp h
    obtain ⟨id, hid, h⟩ := Except.bind_eq_ok.mp h
    split_ifs at h with hsupported
    rw [← Except.ok.inj h]
    exact ⟨hsupported, requiredString_eq_ok.mp htype, requiredString_eq_ok.mp hid⟩
  · rintro ⟨hsupported, htype, hid⟩
    rw [parsePrincipal, requiredString_eq_ok.mpr htype, Except.ok_bind,
      requiredString_eq_ok.mpr hid, Except.ok_bind, if_neg (not_not.mpr hsupported)]

theorem contains_of_member? {field : String} {value : Json}
    (h : document.member? field = some value) : document.contains field = true := by
  rw [Json.contains, h]
  rfl

theorem expectedPrincipal_eq_ok {expected : Option Principal} :
    expectedPrincipal selected document = .ok expected ↔ Expects selected document expected := by
  rw [expectedPrincipal, Expects]
  cases hrule : selected.signerRule with
  | service => simp [eq_comm]
  | agentId =>
    have hne : SignerRule.agentId ≠ .service := by decide
    rw [if_neg hne, if_neg hne, if_pos rfl]
    simp only [Signs, hrule]
    constructor
    · intro h
      split_ifs at h
      obtain ⟨producer, hproducer, h⟩ := Except.bind_eq_ok.mp h
      obtain ⟨id, hid, h⟩ := Except.bind_eq_ok.mp h
      exact ⟨⟨ascii "agent", id⟩, (Except.ok.inj h).symm, rfl, producer,
        Json.at'_eq_ok.mp hproducer, requiredString_eq_ok.mp hid⟩
    · rintro ⟨⟨type, id⟩, rfl, rfl, producer, hproducer, hid⟩
      rw [if_neg (not_not.mpr (contains_of_member? hproducer)), Json.at'_eq_ok.mpr hproducer,
        Except.ok_bind, requiredString_eq_ok.mpr hid, Except.ok_bind]
  | principal =>
    have hne : SignerRule.principal ≠ .service := by decide
    have hne' : SignerRule.principal ≠ .agentId := by decide
    rw [if_neg hne, if_neg hne, if_neg hne']
    simp only [Signs, hrule]
    constructor
    · intro h
      split_ifs at h
      obtain ⟨signer, hsigner, h⟩ := Except.bind_eq_ok.mp h
      obtain ⟨principal, hprincipal, h⟩ := Except.bind_eq_ok.mp h
      obtain ⟨hsupported, htype, hid⟩ := parsePrincipal_eq_ok.mp hprincipal
      exact ⟨principal, (Except.ok.inj h).symm, hsupported, signer, Json.at'_eq_ok.mp hsigner,
        htype, hid⟩
    · rintro ⟨principal, rfl, hsupported, signer, hsigner, htype, hid⟩
      rw [if_neg (not_not.mpr (contains_of_member? hsigner)), Json.at'_eq_ok.mpr hsigner,
        Except.ok_bind, parsePrincipal_eq_ok.mpr ⟨hsupported, htype, hid⟩, Except.ok_bind]

/-- The value of a `signature` member. -/
structure ReadsSignature (value : Json) (signature : SignatureMaterial) : Prop where
  algorithm : TextMember value "algorithm" signature.algorithm
  keyId : TextMember value "keyId" signature.keyId
  createdAt : TextMember value "createdAt" signature.createdAt
  value : TextMember value "value" signature.value
  encoded : signature.value = base64urlEncode signature.bytes
  length : signature.bytes.length = 64
  encoding : validateSignatureEncoding signature.bytes = .ok ()

/-- What the stage of the signature envelope reads. -/
structure ReadsEnvelope (selected : Profile) (document : Json) (envelope : Envelope) : Prop where
  protectedTime : TextMember document selected.protectedTime envelope.protectedTime
  instant : parseInstant envelope.protectedTime = .ok envelope.protectedInstant
  zulu : endsWithZ envelope.protectedTime = true
  createdAt : envelope.signature.createdAt = envelope.protectedTime
  expected : Expects selected document envelope.expected
  signature : ∃ value, document.member? "signature" = some value ∧
    ReadsSignature value envelope.signature

theorem base64urlDecode_eq_ok {text decoded : Bytes} {label : String} (hne : decoded ≠ []) :
    base64urlDecode text label = .ok decoded ↔ text = base64urlEncode decoded := by
  constructor
  · exact base64urlEncode_of_decode
  · rintro rfl
    exact base64urlDecode_encode hne label

theorem envelopeStage_eq_ok {envelope : Envelope} :
    envelopeStage selected document = .ok envelope ↔ ReadsEnvelope selected document envelope := by
  rw [envelopeStage, inStage_eq_ok]
  constructor
  · intro h
    obtain ⟨protectedTime, hprotectedTime, h⟩ := Except.bind_eq_ok.mp h
    obtain ⟨protectedInstant, hinstant, h⟩ := Except.bind_eq_ok.mp h
    obtain ⟨value, hvalue, h⟩ := Except.bind_eq_ok.mp h
    obtain ⟨createdAt, hcreatedAt, h⟩ := Except.bind_eq_ok.mp h
    obtain ⟨_, _, h⟩ := Except.bind_eq_ok.mp h
    split_ifs at h with hzulu hequal
    obtain ⟨expected, hexpected, h⟩ := Except.bind_eq_ok.mp h
    obtain ⟨encoded, hencoded, h⟩ := Except.bind_eq_ok.mp h
    obtain ⟨decoded, hdecoded, h⟩ := Except.bind_eq_ok.mp h
    split_ifs at h with hlength
    obtain ⟨⟨⟩, hencoding, h⟩ := Except.bind_eq_ok.mp h
    obtain ⟨algorithm, halgorithm, h⟩ := Except.bind_eq_ok.mp h
    obtain ⟨keyId, hkeyId, h⟩ := Except.bind_eq_ok.mp h
    rw [not_or, not_not, not_not] at hzulu
    rw [not_not] at hlength hequal
    rw [← Except.ok.inj h]
    exact ⟨requiredString_eq_ok.mp hprotectedTime, hinstant, hzulu.1, hequal.symm,
      expectedPrincipal_eq_ok.mp hexpected, value, Json.at'_eq_ok.mp hvalue,
      ⟨requiredString_eq_ok.mp halgorithm, requiredString_eq_ok.mp hkeyId,
        requiredString_eq_ok.mp hcreatedAt, requiredString_eq_ok.mp hencoded,
        base64urlEncode_of_decode hdecoded, hlength, hencoding⟩⟩
  · rintro ⟨hprotectedTime, hinstant, hzulu, hequal, hexpected, value, hvalue, hsignature⟩
    obtain ⟨protectedTime, protectedInstant, expected, algorithm, keyId, createdAt, encoded,
      bytes⟩ := envelope
    obtain rfl : createdAt = protectedTime := hequal
    have hne : bytes ≠ [] := fun hnil => by
      have hlength : bytes.length = 64 := hsignature.length
      rw [hnil] at hlength
      cases hlength
    rw [requiredString_eq_ok.mpr hprotectedTime, Except.ok_bind, hinstant, Except.ok_bind,
      Json.at'_eq_ok.mpr hvalue, Except.ok_bind, requiredString_eq_ok.mpr hsignature.createdAt,
      Except.ok_bind, hinstant, Except.ok_bind, if_neg (by simp [hzulu]),
      if_neg (not_not.mpr rfl), expectedPrincipal_eq_ok.mpr hexpected, Except.ok_bind,
      requiredString_eq_ok.mpr hsignature.value, Except.ok_bind,
      (base64urlDecode_eq_ok hne).mpr hsignature.encoded, Except.ok_bind,
      if_neg (not_not.mpr hsignature.length), hsignature.encoding, Except.ok_bind,
      requiredString_eq_ok.mpr hsignature.algorithm, Except.ok_bind,
      requiredString_eq_ok.mpr hsignature.keyId, Except.ok_bind]

/-! ## Up to the resolver -/

/-- What `verify` establishes before it asks the resolver. -/
structure Opens (env : Environment) (kind : SignedDocumentKind) (receivedBytes : Bytes)
    (opened : OpenedDocument) : Prop where
  parsed : env.parseStrictJson (sanitizeUnpairedSurrogates receivedBytes).text =
    .ok opened.parsed.document
  unpairedSurrogate : opened.parsed.unpairedSurrogate =
    (sanitizeUnpairedSurrogates receivedBytes).unpairedSurrogate
  schema : Validates env.validate (profile kind).schema opened.parsed.document
  object : opened.parsed.document.isObject = true
  envelope : ReadsEnvelope (profile kind) opened.parsed.document opened.envelope
  kind : opened.kind = kind
  receivedBytes : opened.receivedBytes = receivedBytes

theorem parseStage_eq_ok {receivedBytes : Bytes} {parsed : ParsedDocument} :
    parseStage env receivedBytes = .ok parsed ↔
      env.parseStrictJson (sanitizeUnpairedSurrogates receivedBytes).text =
        .ok parsed.document ∧
      parsed.unpairedSurrogate = (sanitizeUnpairedSurrogates receivedBytes).unpairedSurrogate := by
  rw [parseStage, inStage_eq_ok]
  constructor
  · intro h
    obtain ⟨document, hdocument, h⟩ := Except.bind_eq_ok.mp h
    rw [← Except.ok.inj h]
    exact ⟨hdocument, rfl⟩
  · rintro ⟨hdocument, hflag⟩
    dsimp only
    rw [hdocument, Except.ok_bind, ← hflag]

/-- The schema stage accepts what it validates, on a document whose envelope can
be read. -/
theorem schemaStage_of_readsEnvelope {envelope : Envelope}
    (h : ReadsEnvelope selected document envelope) :
    schemaStage env selected document = .ok () ↔
      Validates env.validate selected.schema document ∧ document.isObject = true := by
  rw [schemaStage, inStage_eq_ok]
  constructor
  · intro h
    obtain ⟨⟨⟩, hschema, h⟩ := Except.bind_eq_ok.mp h
    split_ifs at h with hobject
    exact ⟨requireSchema_eq_ok.mp hschema, hobject⟩
  · rintro ⟨hschema, hobject⟩
    obtain ⟨value, hvalue, hsignature⟩ := h.signature
    have hcreatedAt := hsignature.createdAt
    rw [h.createdAt] at hcreatedAt
    rw [requireSchema_eq_ok.mpr hschema, Except.ok_bind, if_neg (not_not.mpr hobject),
      requiredString_eq_ok.mpr h.protectedTime, Except.ok_bind, h.instant, Except.ok_bind,
      Json.at'_eq_ok.mpr hvalue, Except.ok_bind, requiredString_eq_ok.mpr hcreatedAt,
      Except.ok_bind, h.instant, Except.ok_bind]

theorem openDocument_eq_ok {kind : SignedDocumentKind} {receivedBytes : Bytes}
    {opened : OpenedDocument} :
    openDocument env kind receivedBytes = .ok opened ↔ Opens env kind receivedBytes opened := by
  constructor
  · intro h
    obtain ⟨parsed, hparsed, h⟩ := Except.bind_eq_ok.mp h
    obtain ⟨⟨⟩, hschema, h⟩ := Except.bind_eq_ok.mp h
    obtain ⟨envelope, henvelope, h⟩ := Except.bind_eq_ok.mp h
    rw [envelopeStage_eq_ok] at henvelope
    rw [schemaStage_of_readsEnvelope henvelope] at hschema
    rw [parseStage_eq_ok] at hparsed
    rw [← Except.ok.inj h]
    exact ⟨hparsed.1, hparsed.2, hschema.1, hschema.2, henvelope, rfl, rfl⟩
  · rintro ⟨hparsed, hflag, hschema, hobject, henvelope, rfl, rfl⟩
    rw [openDocument, parseStage_eq_ok.mpr ⟨hparsed, hflag⟩, Except.ok_bind,
      (schemaStage_of_readsEnvelope henvelope).mpr ⟨hschema, hobject⟩, Except.ok_bind,
      envelopeStage_eq_ok.mpr henvelope, Except.ok_bind]

/-! ## From the answer of the resolver on -/

theorem resolutionStage_eq_ok {request : KeyResolutionRequest}
    {response : Except Thrown KeyRegistrySnapshot} {resolution : RegistryKeyResolution} :
    resolutionStage env request response = .ok resolution ↔
      ∃ snapshot, response = .ok snapshot ∧ snapshot.completeness = .organizationWide ∧
        Registry.resolveAgentRegistryKey env snapshot.registryBytes request = .ok resolution := by
  rw [resolutionStage, inStage_eq_ok, Except.bind_eq_ok]
  refine exists_congr fun snapshot => and_congr_right fun _ => ?_
  split_ifs with h
  · simp [h]
  · simp [not_not.mp h]

theorem canonicalizationStage_eq_ok {parsed : ParsedDocument} {bytes : CanonicalBytes} :
    canonicalizationStage parsed = .ok bytes ↔
      parsed.unpairedSurrogate = false ∧
        Canonical.canonicalJson (parsed.document.erase "signature") = .ok bytes.signingBytes ∧
          Canonical.canonicalJson parsed.document = .ok bytes.canonicalBytes := by
  rw [canonicalizationStage, inStage_eq_ok]
  cases hflag : parsed.unpairedSurrogate with
  | true => simp
  | false =>
    rw [if_neg Bool.false_ne_true]
    constructor
    · intro h
      obtain ⟨signingBytes, hsigning, h⟩ := Except.bind_eq_ok.mp h
      obtain ⟨canonicalBytes, hcanonical, h⟩ := Except.bind_eq_ok.mp h
      rw [← Except.ok.inj h]
      exact ⟨rfl, hsigning, hcanonical⟩
    · rintro ⟨_, hsigning, hcanonical⟩
      rw [hsigning, Except.ok_bind, hcanonical, Except.ok_bind]

theorem signatureStage_eq_ok {publicKey : Ed25519PublicKey} {signingBytes : Bytes}
    {signature : Ed25519Signature} :
    signatureStage env publicKey signingBytes signature = .ok () ↔
      env.ed25519Verify publicKey signingBytes signature = .ok true := by
  rw [signatureStage, inStage_eq_ok, Except.bind_eq_ok]
  constructor
  · rintro ⟨verifies, hverifies, h⟩
    split_ifs at h with htrue
    rw [hverifies, htrue]
  · intro h
    exact ⟨true, h, if_neg (by simp)⟩

/-- What `verify` establishes with the answer of the resolver. -/
structure Completes (env : Environment) (opened : OpenedDocument)
    (response : Except Thrown KeyRegistrySnapshot) (verified : VerifiedSignedDocument) : Prop where
  kind : verified.kind = opened.kind
  document : verified.document = opened.parsed.document
  receivedBytes : verified.receivedBytes = opened.receivedBytes
  protectedTime : verified.protectedTime = opened.envelope.protectedTime
  protectedInstant : verified.protectedInstant = opened.envelope.protectedInstant
  signature : verified.signature = opened.envelope.signature
  paired : opened.parsed.unpairedSurrogate = false
  signingBytes : Canonical.canonicalJson (verified.document.erase "signature") =
    .ok verified.signingBytes
  signingHash : env.sha256 verified.signingBytes = .ok verified.signingHash
  canonicalBytes : Canonical.canonicalJson verified.document = .ok verified.canonicalBytes
  canonicalHash : env.sha256 verified.canonicalBytes = .ok verified.canonicalHash
  resolvedKey : ∃ snapshot publicKey, response = .ok snapshot ∧
    snapshot.completeness = .organizationWide ∧
      Registry.resolveAgentRegistryKey env snapshot.registryBytes opened.request =
        .ok ⟨verified.resolvedKey, publicKey⟩ ∧
      env.ed25519Verify publicKey verified.signingBytes verified.signature.bytes = .ok true

theorem completeDocument_eq_ok {opened : OpenedDocument}
    {response : Except Thrown KeyRegistrySnapshot} {verified : VerifiedSignedDocument} :
    completeDocument env opened response = .ok verified ↔
      Completes env opened response verified := by
  constructor
  · intro h
    obtain ⟨resolution, hresolution, h⟩ := Except.bind_eq_ok.mp h
    obtain ⟨bytes, hbytes, h⟩ := Except.bind_eq_ok.mp h
    obtain ⟨⟨⟩, hverifies, h⟩ := Except.bind_eq_ok.mp h
    obtain ⟨signingHash, hsigningHash, h⟩ := Except.bind_eq_ok.mp h
    obtain ⟨canonicalHash, hcanonicalHash, h⟩ := Except.bind_eq_ok.mp h
    obtain ⟨snapshot, hresponse, hcomplete, hresolve⟩ := resolutionStage_eq_ok.mp hresolution
    obtain ⟨hpaired, hsigning, hcanonical⟩ := canonicalizationStage_eq_ok.mp hbytes
    rw [← Except.ok.inj h]
    exact ⟨rfl, rfl, rfl, rfl, rfl, rfl, hpaired, hsigning, hsigningHash, hcanonical,
      hcanonicalHash, snapshot, resolution.publicKey, hresponse, hcomplete, hresolve,
      signatureStage_eq_ok.mp hverifies⟩
  · intro h
    obtain ⟨snapshot, publicKey, hresponse, hcomplete, hresolve, hverifies⟩ := h.resolvedKey
    have hbytes : canonicalizationStage opened.parsed =
        .ok ⟨verified.signingBytes, verified.canonicalBytes⟩ :=
      canonicalizationStage_eq_ok.mpr ⟨h.paired, h.document ▸ h.signingBytes,
        h.document ▸ h.canonicalBytes⟩
    have hstage := signatureStage_eq_ok.mpr hverifies
    rw [h.signature] at hstage
    rw [completeDocument, resolutionStage_eq_ok.mpr ⟨snapshot, hresponse, hcomplete, hresolve⟩,
      Except.ok_bind, finishDocument, hbytes, Except.ok_bind, hstage, Except.ok_bind, h.signingHash,
      Except.ok_bind, h.canonicalHash, Except.ok_bind, ← h.kind, ← h.document,
      ← h.receivedBytes, ← h.protectedTime, ← h.protectedInstant, ← h.signature]

/-- All but the resolved key is determined by what was opened. -/
theorem Completes.eq_of_opened {opened : OpenedDocument}
    {response response' : Except Thrown KeyRegistrySnapshot}
    {verified verified' : VerifiedSignedDocument} (h : Completes env opened response verified)
    (h' : Completes env opened response' verified') :
    verified' = { verified with resolvedKey := verified'.resolvedKey } := by
  have hdocument : verified'.document = verified.document := h'.document.trans h.document.symm
  have hsigningBytes : verified'.signingBytes = verified.signingBytes := by
    have hbytes := h'.signingBytes
    rw [hdocument, h.signingBytes] at hbytes
    exact (Except.ok.inj hbytes).symm
  have hsigningHash : verified'.signingHash = verified.signingHash := by
    have hhash := h'.signingHash
    rw [hsigningBytes, h.signingHash] at hhash
    exact (Except.ok.inj hhash).symm
  have hcanonicalBytes : verified'.canonicalBytes = verified.canonicalBytes := by
    have hbytes := h'.canonicalBytes
    rw [hdocument, h.canonicalBytes] at hbytes
    exact (Except.ok.inj hbytes).symm
  have hcanonicalHash : verified'.canonicalHash = verified.canonicalHash := by
    have hhash := h'.canonicalHash
    rw [hcanonicalBytes, h.canonicalHash] at hhash
    exact (Except.ok.inj hhash).symm
  rw [← hdocument, ← hsigningBytes, ← hsigningHash, ← hcanonicalBytes, ← hcanonicalHash,
    h.kind, ← h'.kind, h.receivedBytes, ← h'.receivedBytes, h.protectedTime, ← h'.protectedTime,
    h.protectedInstant, ← h'.protectedInstant, h.signature, ← h'.signature]

/-- The document is verified with another resolution of the same public key. -/
theorem Completes.resolve_again {opened : OpenedDocument}
    {verified : VerifiedSignedDocument} {registryBytes registryBytes' : Bytes}
    {resolution resolution' : RegistryKeyResolution}
    (h : Completes env opened (.ok ⟨registryBytes, .organizationWide⟩) verified)
    (hresolve : Registry.resolveAgentRegistryKey env registryBytes opened.request = .ok resolution)
    (hresolve' : Registry.resolveAgentRegistryKey env registryBytes' opened.request =
      .ok resolution')
    (hpublicKey : resolution'.publicKey = resolution.publicKey) :
    Completes env opened (.ok ⟨registryBytes', .organizationWide⟩)
      { verified with resolvedKey := resolution'.resolvedKey } := by
  obtain ⟨_, publicKey, ⟨⟩, _, hresolved, hverifies⟩ := h.resolvedKey
  obtain rfl := Except.ok.inj (hresolve.symm.trans hresolved)
  refine ⟨h.kind, h.document, h.receivedBytes, h.protectedTime, h.protectedInstant, h.signature,
    h.paired, h.signingBytes, h.signingHash, h.canonicalBytes, h.canonicalHash, _, _, rfl, rfl,
    hresolve', ?_⟩
  rw [hpublicKey]
  exact hverifies

end

/-! ## Soundness -/

section

variable {env : Environment} {kind : SignedDocumentKind} {receivedBytes : Bytes}
  {resolver : KeyResolver} {verified : VerifiedSignedDocument}

/-- The two halves of `verify`. -/
theorem verify_eq_ok :
    verify env kind receivedBytes resolver = .ok verified ↔
      ∃ opened, Opens env kind receivedBytes opened ∧
        Completes env opened (resolver opened.request) verified := by
  rw [verify, Except.bind_eq_ok]
  simp only [openDocument_eq_ok, completeDocument_eq_ok]

/-- The requested principal signs by the rule of the kind. -/
theorem signs_of_requested {opened : OpenedDocument} {document : Json} {principal : Principal}
    (hexpects : Expects (profile opened.kind) document opened.envelope.expected)
    (h : Registry.RequestedPrincipal opened.request principal) :
    Signs (profile opened.kind) document principal := by
  rw [Registry.RequestedPrincipal, OpenedDocument.request] at h
  rw [Expects] at hexpects
  by_cases hservice : (profile opened.kind).signerRule = .service
  · rw [if_pos (by simpa using hservice)] at h
    rw [Signs, hservice]
    exact h
  · rw [if_neg (by simpa using hservice)] at h
    rw [if_neg hservice] at hexpects
    obtain ⟨expected, hexpected, hsigns⟩ := hexpects
    rw [hexpected, Option.some.injEq] at h
    rwa [← h]

/-- What holds of a document that was accepted. -/
structure Authentic (env : Environment) (kind : SignedDocumentKind) (receivedBytes : Bytes)
    (resolver : KeyResolver) (verified : VerifiedSignedDocument) : Prop where
  parsed : env.parseStrictJson receivedBytes = .ok verified.document
  schema : Validates env.validate (profile kind).schema verified.document
  protectedTime : TextMember verified.document (profile kind).protectedTime verified.protectedTime
  createdAt : verified.signature.createdAt = verified.protectedTime
  zulu : endsWithZ verified.protectedTime = true
  instant : parseInstant verified.protectedTime = .ok verified.protectedInstant
  signature : ∃ value, verified.document.member? "signature" = some value ∧
    ReadsSignature value verified.signature
  keyId : verified.resolvedKey.keyId = verified.signature.keyId
  signer : Signs (profile kind) verified.document verified.resolvedKey.principal
  validAt : verified.resolvedKey.ValidAt verified.protectedInstant
  signingBytes : Canonical.canonicalJson (verified.document.erase "signature") =
    .ok verified.signingBytes
  signingHash : env.sha256 verified.signingBytes = .ok verified.signingHash
  canonicalBytes : Canonical.canonicalJson verified.document = .ok verified.canonicalBytes
  resolved : ∃ request snapshot publicKey, request.kind = kind ∧
    request.keyId = verified.signature.keyId ∧
    request.protectedInstant = verified.protectedInstant ∧ resolver request = .ok snapshot ∧
    snapshot.completeness = .organizationWide ∧
    Registry.resolveAgentRegistryKey env snapshot.registryBytes request =
      .ok ⟨verified.resolvedKey, publicKey⟩ ∧
    decodeStrictEd25519PublicKey verified.resolvedKey.publicKey = .ok publicKey ∧
    env.ed25519Verify publicKey verified.signingBytes verified.signature.bytes = .ok true
  receivedBytes : verified.receivedBytes = receivedBytes
  kind : verified.kind = kind

theorem authentic_of_opens {opened : OpenedDocument}
    (hopens : Opens env kind receivedBytes opened)
    (hcompletes : Completes env opened (resolver opened.request) verified) :
    Authentic env kind receivedBytes resolver verified := by
  obtain ⟨snapshot, publicKey, hresponse, hcomplete, hresolve, hverifies⟩ :=
    hcompletes.resolvedKey
  have hanswers := Registry.answers_of_resolve hresolve
  have henvelope := hopens.envelope
  have hkind := hopens.kind
  subst hkind
  -- the flag is down, so the text that was parsed is the one received
  have hunflagged := hopens.unpairedSurrogate.symm.trans hcompletes.paired
  have hparsed := hopens.parsed
  rw [text_of_not_flagged hunflagged] at hparsed
  rw [← hcompletes.document] at hparsed henvelope
  have hsignature := henvelope.signature
  rw [← hcompletes.signature] at hsignature
  exact {
    parsed := hparsed
    schema := hcompletes.document ▸ hopens.schema
    protectedTime := hcompletes.protectedTime ▸ henvelope.protectedTime
    createdAt := by
      rw [hcompletes.signature, henvelope.createdAt, hcompletes.protectedTime]
    zulu := hcompletes.protectedTime ▸ henvelope.zulu
    instant := by
      rw [hcompletes.protectedTime, henvelope.instant, hcompletes.protectedInstant]
    signature := hsignature
    keyId := by
      rw [hanswers.keyId, hcompletes.signature]
      rfl
    signer := signs_of_requested henvelope.expected hanswers.principal
    validAt := hcompletes.protectedInstant ▸ hanswers.validAt
    signingBytes := hcompletes.signingBytes
    signingHash := hcompletes.signingHash
    canonicalBytes := hcompletes.canonicalBytes
    resolved := ⟨opened.request, snapshot, publicKey, rfl, by rw [hcompletes.signature]; rfl,
      by rw [hcompletes.protectedInstant]; rfl, hresponse, hcomplete, hresolve,
      hanswers.publicKey, hverifies⟩
    receivedBytes := by rw [hcompletes.receivedBytes, hopens.receivedBytes]
    kind := hcompletes.kind }

/-- A document that `verify` accepts, whatever the resolver returned, is the
strict JSON text that was received, and it is signed by the principal that its
kind asks for, with a key of a complete registry that was valid at the
protected instant. -/
theorem authentic_of_verify (env : Environment) (kind : SignedDocumentKind)
    (receivedBytes : Bytes) (resolver : KeyResolver) (verified : VerifiedSignedDocument)
    (h : verify env kind receivedBytes resolver = .ok verified) :
    Authentic env kind receivedBytes resolver verified := by
  obtain ⟨opened, hopens, hcompletes⟩ := verify_eq_ok.mp h
  exact authentic_of_opens hopens hcompletes

end

/-! ## A sample -/

/-- `verify` with the reference decoder and a resolver that returns a complete
registry, without the scanner in front of the decoder. -/
def referenceVerify (env : Environment) (kind : SignedDocumentKind)
    (receivedBytes registryBytes : Bytes) : Except Thrown VerifiedSignedDocument := do
  let document ← referenceParse receivedBytes
  let registry ← referenceParse registryBytes
  schemaStage env (profile kind) document
  let envelope ← envelopeStage (profile kind) document
  let opened : OpenedDocument := ⟨kind, receivedBytes, ⟨document, false⟩, envelope⟩
  let (organizationId, bindings) ← Registry.evaluateRegistry env registry
  let resolution ← Registry.selectKey organizationId bindings opened.request
  finishDocument env opened resolution

/-- A resolver that returns a complete registry. -/
def completeResolver (registryBytes : Bytes) : KeyResolver := fun _ =>
  .ok ⟨registryBytes, .organizationWide⟩

theorem parseStrictJson_of_referenceParse {env : Environment}
    (henv : env.jsonParse = referenceParse) {bytes : Bytes} {value : Json}
    (h : referenceParse bytes = .ok value) : env.parseStrictJson bytes = .ok value := by
  rw [Environment.parseStrictJson, henv]
  exact parseStrictJson_reference h

theorem parseStage_of_referenceParse {env : Environment} (henv : env.jsonParse = referenceParse)
    {receivedBytes : Bytes} {document : Json} (h : referenceParse receivedBytes = .ok document) :
    parseStage env receivedBytes = .ok ⟨document, false⟩ := by
  have htext := ((parseStrictJson_eq_ok decodesJson_referenceParse).mp
    (parseStrictJson_reference h)).1
  rw [parseStage_eq_ok, sanitize_of_jsonText htext]
  exact ⟨parseStrictJson_of_referenceParse henv h, rfl⟩

theorem verify_of_referenceVerify {env : Environment} (henv : env.jsonParse = referenceParse)
    {kind : SignedDocumentKind} {receivedBytes registryBytes : Bytes}
    {verified : VerifiedSignedDocument}
    (h : referenceVerify env kind receivedBytes registryBytes = .ok verified) :
    verify env kind receivedBytes (completeResolver registryBytes) = .ok verified := by
  obtain ⟨document, hdocument, h⟩ := Except.bind_eq_ok.mp h
  obtain ⟨registry, hregistry, h⟩ := Except.bind_eq_ok.mp h
  obtain ⟨⟨⟩, hschema, h⟩ := Except.bind_eq_ok.mp h
  obtain ⟨envelope, henvelope, h⟩ := Except.bind_eq_ok.mp h
  obtain ⟨⟨organizationId, bindings⟩, hevaluate, h⟩ := Except.bind_eq_ok.mp h
  obtain ⟨resolution, hselect, h⟩ := Except.bind_eq_ok.mp h
  have hresolve : Registry.resolveAgentRegistryKey env registryBytes
      (OpenedDocument.request ⟨kind, receivedBytes, ⟨document, false⟩, envelope⟩) =
        .ok resolution := by
    rw [Registry.resolveAgentRegistryKey, parseStrictJson_of_referenceParse henv hregistry,
      Except.ok_bind, hevaluate]
    exact hselect
  rw [verify, openDocument, parseStage_of_referenceParse henv hdocument, Except.ok_bind, hschema,
    Except.ok_bind, henvelope,
    Except.ok_bind, Except.ok_bind, completeDocument, completeResolver,
    resolutionStage_eq_ok.mpr ⟨_, rfl, rfl, hresolve⟩]
  exact h

/-- An evidence in canonical form, up to its signature. -/
def sampleHead (count : String) : List String := [
  "\x7b\"artifactHashes\":[],\"createdAt\":\"2026-07-16T01:00:00Z\",",
  "\"criterionIds\":[\"tests\"],\"details\":\x7b\"count\":", count, "\x7d,",
  "\"evidenceId\":\"urn:mwp:evidence:one\",",
  "\"generatedBy\":\x7b\"id\":\"urn:mwp:agent:one\",\"type\":\"agent\"\x7d,",
  "\"groupId\":\"urn:mwp:group:one\",\"method\":\"unit tests\",",
  "\"missionId\":\"urn:mwp:mission:one\",\"result\":\"passed\","]

def sampleTail : List String := [
  "\"subject\":\x7b\"id\":\"urn:mwp:work-item:one\",\"type\":\"work_item\"\x7d,",
  "\"type\":\"deterministic_test\",\"workItemId\":\"urn:mwp:work-item:one\"\x7d"]

def sampleSignature : Ed25519Signature := [
  108, 248, 100, 238, 164, 157, 34, 129, 85, 57, 58, 141, 91, 24, 35, 163,
  100, 0, 179, 104, 194, 62, 96, 187, 173, 243, 196, 70, 211, 16, 103, 51,
  165, 218, 9, 192, 99, 29, 176, 233, 99, 52, 74, 11, 249, 165, 183, 226,
  188, 84, 42, 218, 228, 143, 70, 68, 211, 110, 196, 88, 244, 58, 58, 0]

def sampleSigningBytes : Bytes :=
  (sampleHead "9007199254740992").flatMap ascii ++ sampleTail.flatMap ascii

/-- The signed evidence, with some text for the number in its details. -/
def sampleEvidence (count : String) : Bytes :=
  (sampleHead count).flatMap ascii ++
    List.flatMap ascii [
      "\"signature\":\x7b\"algorithm\":\"Ed25519\",",
      "\"createdAt\":\"2026-07-16T01:00:00Z\",\"keyId\":\"urn:mwp:key:one\",",
      "\"value\":\""] ++ base64urlEncode sampleSignature ++ ascii "\"\x7d," ++
    sampleTail.flatMap ascii

def sampleSigningDigest : Bytes := [
  232, 229, 61, 38, 136, 236, 198, 123, 58, 202, 108, 167, 253, 132, 39, 32,
  9, 184, 181, 27, 35, 146, 62, 232, 29, 241, 232, 155, 126, 183, 90, 203]

def sampleCanonicalDigest : Bytes := [
  13, 101, 142, 179, 162, 63, 57, 104, 237, 56, 106, 150, 128, 235, 240, 63,
  193, 83, 207, 188, 249, 138, 82, 133, 174, 37, 88, 49, 204, 116, 162, 45]

/-- What OpenSSL computes on the sample. -/
def sampleEnvironment : Environment :=
  { Environment.reference with
    evpDigest := fun bytes =>
      some (if bytes = sampleSigningBytes then sampleSigningDigest else sampleCanonicalDigest)
    evpDigestVerify := fun publicKey message signature =>
      .ok (if base64urlEncode publicKey = ascii "11qYAYKxCrfVS_7TyWQHOg7hcvPapiMlrwIaaPcHURo" ∧
          message = sampleSigningBytes ∧ signature = sampleSignature then 1 else 0) }

theorem authentic_of_verify_sample :
    ∃ verified, verify sampleEnvironment .evidence (sampleEvidence "9007199254740993")
        (completeResolver Registry.sampleRegistry) = .ok verified ∧
      Authentic sampleEnvironment .evidence (sampleEvidence "9007199254740993")
        (completeResolver Registry.sampleRegistry) verified := by
  have hok : (referenceVerify sampleEnvironment .evidence (sampleEvidence "9007199254740993")
      Registry.sampleRegistry).isOk = true := by decide +kernel
  obtain ⟨verified, h⟩ := Except.exists_ok_of_isOk hok
  have hverify := verify_of_referenceVerify rfl h
  exact ⟨verified, hverify, authentic_of_verify _ _ _ _ _ hverify⟩

end MissionWeave.SignedDocumentCodec
