import MissionWeave.Admission.Record
import MissionWeave.SignedDocument.Verify

/-!
# What the Admission Service accepts

* `ReadsRecord`: the record of a JSON value.  `parseRecord_eq_ok` says that
  `parseRecord` returns it.
* `Binds`: the record belongs to a verified document and to a service.
* `Admits`: an authenticated record admits a verified document.
  `validateAuthenticatedRecord_eq_ok` says that exactly these pass.
-/

namespace MissionWeave.AdmissionService

open SignedDocumentCodec (requiredString_eq_ok)

/-! ## Handlers -/

/-- An adapter error is thrown as another error: what is returned is what the
block returned. -/
theorem remapAdapterError_eq_ok {α : Type} {result : Except Thrown α} {value : α} :
    remapAdapterError result = .ok value ↔ result = .ok value := by
  cases result with
  | ok v => exact Iff.rfl
  | error thrown => cases thrown <;> simp [remapAdapterError, fail]

theorem failSchemaInvalid_eq_ok {α : Type} {result : Except Thrown α} {value : α} :
    failSchemaInvalid result = .ok value ↔ result = .ok value := by
  have hcatch : catchException result (fun _ => fail .recordSchemaInvalid) = .ok value ↔
      result = .ok value := catchException_eq_ok fun _ _ => by simp [fail]
  cases result with
  | ok v => exact Iff.rfl
  | error thrown => cases thrown <;> first | exact hcatch | simp [failSchemaInvalid]

/-! ## Reading a record -/

/-- The principal that a member holds. -/
def PrincipalMember (object : Json) (field : String) (principal : Principal) : Prop :=
  ∃ value, object.member? field = some value ∧
    TextMember value "type" principal.type ∧ TextMember value "id" principal.id

theorem parsePrincipal_eq_ok {value : Json} {principal : Principal} :
    parsePrincipal value = .ok principal ↔
      TextMember value "type" principal.type ∧ TextMember value "id" principal.id := by
  constructor
  · intro h
    obtain ⟨type, htype, h⟩ := Except.bind_eq_ok.mp h
    obtain ⟨id, hid, h⟩ := Except.bind_eq_ok.mp h
    rw [← Except.ok.inj h]
    exact ⟨requiredStringField_eq_ok.mp htype, requiredStringField_eq_ok.mp hid⟩
  · rintro ⟨htype, hid⟩
    rw [parsePrincipal, requiredString, requiredStringField_eq_ok.mpr htype, Except.ok_bind,
      requiredString, requiredStringField_eq_ok.mpr hid, Except.ok_bind]

theorem documentKind_eq_ok {id : Bytes} {kind : SignedDocumentKind} :
    documentKind id = .ok kind ↔ id = ascii (signedDocumentKindId kind) := by
  constructor
  · intro h
    rw [documentKind] at h
    cases hfind : documentKinds.find? fun kind => ascii (signedDocumentKindId kind) == id with
    | none =>
      rw [hfind] at h
      cases h
    | some found =>
      rw [hfind] at h
      have hid := List.find?_some (p := fun kind => ascii (signedDocumentKindId kind) == id) hfind
      rw [← Except.ok.inj h]
      exact (beq_iff_eq.mp hid).symm
  · rintro rfl
    cases kind <;> decide +kernel

/-- The record of a JSON value. -/
structure ReadsRecord (env : Environment) (value : Json) (record : FirstAdmissionRecord) :
    Prop where
  schema : Validates env.validate "first-admission-record.schema.json" value
  protocolVersion : TextMember value "protocolVersion" record.protocolVersion
  admissionRecordId : TextMember value "admissionRecordId" record.admissionRecordId
  organizationId : TextMember value "organizationId" record.organizationId
  documentKind : TextMember value "documentKind" (ascii (signedDocumentKindId record.documentKind))
  signingHash : TextMember value "signingHash" record.signingHash
  keyId : TextMember value "keyId" record.keyId
  principal : PrincipalMember value "principal" record.principal
  trustedAcceptedAt : TextMember value "trustedAcceptedAt" record.trustedAcceptedAt
  instant : parseInstant record.trustedAcceptedAt = .ok record.trustedAcceptedInstant
  acceptedBy : PrincipalMember value "acceptedBy" record.acceptedBy
  service : record.acceptedBy.type = ascii "service"

section

variable {env : Environment} {bytes : Bytes} {value : Json} {parsed : ParsedAdmissionRecord}
  {record : FirstAdmissionRecord}

theorem readRecord_eq_ok :
    readRecord env bytes value = .ok parsed ↔
      ReadsRecord env value parsed.record ∧ parsed.record.bytes = bytes ∧
        parsed.trustedAcceptedInstant = parsed.record.trustedAcceptedInstant := by
  constructor
  · intro h
    obtain ⟨validation, hvalidation, h⟩ := Except.bind_eq_ok.mp h
    split_ifs at h with hvalid
    swap
    · cases h
    obtain ⟨acceptedByValue, hacceptedByValue, h⟩ := Except.bind_eq_ok.mp h
    obtain ⟨acceptedBy, hacceptedBy, h⟩ := Except.bind_eq_ok.mp h
    split_ifs at h with hservice
    · cases h
    obtain ⟨trustedAcceptedAt, htrusted, h⟩ := Except.bind_eq_ok.mp h
    obtain ⟨instant, hinstant, h⟩ := Except.bind_eq_ok.mp h
    obtain ⟨protocolVersion, hprotocolVersion, h⟩ := Except.bind_eq_ok.mp h
    obtain ⟨admissionRecordId, hadmissionRecordId, h⟩ := Except.bind_eq_ok.mp h
    obtain ⟨organizationId, horganizationId, h⟩ := Except.bind_eq_ok.mp h
    obtain ⟨kindId, hkindId, h⟩ := Except.bind_eq_ok.mp h
    obtain ⟨kind, hkind, h⟩ := Except.bind_eq_ok.mp h
    obtain ⟨signingHash, hsigningHash, h⟩ := Except.bind_eq_ok.mp h
    obtain ⟨keyId, hkeyId, h⟩ := Except.bind_eq_ok.mp h
    obtain ⟨principalValue, hprincipalValue, h⟩ := Except.bind_eq_ok.mp h
    obtain ⟨principal, hprincipal, h⟩ := Except.bind_eq_ok.mp h
    rw [← Except.ok.inj h]
    obtain rfl := documentKind_eq_ok.mp hkind
    exact ⟨⟨⟨validation, hvalidation, by simpa using hvalid⟩,
      requiredStringField_eq_ok.mp hprotocolVersion,
      requiredStringField_eq_ok.mp hadmissionRecordId,
      requiredStringField_eq_ok.mp horganizationId, requiredStringField_eq_ok.mp hkindId,
      requiredStringField_eq_ok.mp hsigningHash, requiredStringField_eq_ok.mp hkeyId,
      ⟨principalValue, Json.at'_eq_ok.mp hprincipalValue, parsePrincipal_eq_ok.mp hprincipal⟩,
      requiredStringField_eq_ok.mp htrusted, hinstant,
      ⟨acceptedByValue, Json.at'_eq_ok.mp hacceptedByValue, parsePrincipal_eq_ok.mp hacceptedBy⟩,
      by simpa using hservice⟩, rfl, rfl⟩
  · obtain ⟨record, instant⟩ := parsed
    rintro ⟨hreads, rfl, hinstant⟩
    obtain rfl : instant = record.trustedAcceptedInstant := hinstant
    obtain ⟨validation, hvalidation, hvalid⟩ := hreads.schema
    obtain ⟨principalValue, hprincipalValue, hprincipal⟩ := hreads.principal
    obtain ⟨acceptedByValue, hacceptedByValue, hacceptedBy⟩ := hreads.acceptedBy
    rw [readRecord, hvalidation, Except.ok_bind, if_neg (by simp [hvalid]),
      Json.at'_eq_ok.mpr hacceptedByValue, Except.ok_bind, parsePrincipal_eq_ok.mpr hacceptedBy,
      Except.ok_bind, if_neg (not_not.mpr hreads.service), requiredString,
      requiredStringField_eq_ok.mpr hreads.trustedAcceptedAt, Except.ok_bind, hreads.instant,
      Except.ok_bind, requiredString, requiredStringField_eq_ok.mpr hreads.protocolVersion,
      Except.ok_bind, requiredString, requiredStringField_eq_ok.mpr hreads.admissionRecordId,
      Except.ok_bind, requiredString, requiredStringField_eq_ok.mpr hreads.organizationId,
      Except.ok_bind, requiredString, requiredStringField_eq_ok.mpr hreads.documentKind,
      Except.ok_bind, documentKind_eq_ok.mpr rfl, Except.ok_bind, requiredString,
      requiredStringField_eq_ok.mpr hreads.signingHash, Except.ok_bind, requiredString,
      requiredStringField_eq_ok.mpr hreads.keyId, Except.ok_bind,
      Json.at'_eq_ok.mpr hprincipalValue, Except.ok_bind, parsePrincipal_eq_ok.mpr hprincipal,
      Except.ok_bind]

/-- The bytes of a record, and what they say. -/
structure ParsesTo (env : Environment) (bytes : Bytes) (record : FirstAdmissionRecord) :
    Prop where
  reads : ∃ value, env.parseStrictJson bytes = .ok value ∧ ReadsRecord env value record
  bytes : record.bytes = bytes

/-- `parseRecord` returns the record of its bytes. -/
theorem parseRecord_eq_ok :
    parseRecord env bytes = .ok parsed ↔
      ParsesTo env bytes parsed.record ∧
        parsed.trustedAcceptedInstant = parsed.record.trustedAcceptedInstant := by
  rw [parseRecord, failSchemaInvalid_eq_ok, Except.bind_eq_ok]
  constructor
  · rintro ⟨value, hvalue, h⟩
    obtain ⟨hreads, hbytes, hinstant⟩ := readRecord_eq_ok.mp h
    exact ⟨⟨⟨value, hvalue, hreads⟩, hbytes⟩, hinstant⟩
  · rintro ⟨⟨⟨value, hvalue, hreads⟩, hbytes⟩, hinstant⟩
    exact ⟨value, hvalue, readRecord_eq_ok.mpr ⟨hreads, hbytes, hinstant⟩⟩

/-- A record is determined by its bytes. -/
theorem ParsesTo.unique {record' : FirstAdmissionRecord} (h : ParsesTo env bytes record)
    (h' : ParsesTo env bytes record') : record = record' := by
  have hparsed : parseRecord env bytes = .ok ⟨record, record.trustedAcceptedInstant⟩ :=
    parseRecord_eq_ok.mpr ⟨h, rfl⟩
  have hparsed' : parseRecord env bytes = .ok ⟨record', record'.trustedAcceptedInstant⟩ :=
    parseRecord_eq_ok.mpr ⟨h', rfl⟩
  exact congrArg ParsedAdmissionRecord.record (Except.ok.inj (hparsed.symm.trans hparsed'))

end

/-! ## Bindings -/

/-- The check of the interval is the membership in it. -/
theorem outsideKeyInterval_eq_false {resolved : ResolvedKey} {accepted : ExactInstant} :
    outsideKeyInterval resolved accepted = false ↔ resolved.ValidAt accepted := by
  have hlimit (limit : Option ExactInstant) :
      (limit.map fun limit => !accepted.lt limit).getD false = false ↔
        ∀ l ∈ limit, accepted.lt l = true := by
    cases limit with
    | none => simp
    | some l => simp
  rw [outsideKeyInterval, Bool.or_eq_false_iff, Bool.or_eq_false_iff, hlimit, hlimit]
  constructor
  · rintro ⟨⟨hfrom, huntil⟩, hrevoked⟩
    exact ⟨hfrom, huntil, hrevoked⟩
  · rintro ⟨hfrom, huntil, hrevoked⟩
    exact ⟨⟨hfrom, huntil⟩, hrevoked⟩

/-- The record belongs to the document and to the service. -/
structure Binds (record : FirstAdmissionRecord) (verified : VerifiedSignedDocument)
    (authenticatedService : Principal) : Prop where
  organizationId : record.organizationId = verified.resolvedKey.organizationId
  documentKind : record.documentKind = verified.kind
  signingHash : record.signingHash = verified.signingHash
  keyId : record.keyId = verified.resolvedKey.keyId
  principal : record.principal = verified.resolvedKey.principal
  acceptedBy : record.acceptedBy = authenticatedService
  valid : verified.resolvedKey.ValidAt record.trustedAcceptedInstant

theorem validateBindings_eq_ok {parsed : ParsedAdmissionRecord}
    {verified : VerifiedSignedDocument} {authenticatedService : Principal}
    (hinstant : parsed.trustedAcceptedInstant = parsed.record.trustedAcceptedInstant) :
    validateBindings parsed verified authenticatedService = .ok () ↔
      Binds parsed.record verified authenticatedService := by
  rw [validateBindings, hinstant]
  constructor
  · intro h
    split_ifs at h with hmismatch hservice hinterval
    · cases h
    · cases h
    · cases h
    simp only [not_or, not_not] at hmismatch hservice
    obtain ⟨horganization, hkind, hhash, hkey, hprincipal⟩ := hmismatch
    exact ⟨horganization, hkind, hhash, hkey, hprincipal, hservice,
      outsideKeyInterval_eq_false.mp (by simpa using hinterval)⟩
  · intro h
    rw [if_neg (by simp [h.organizationId, h.documentKind, h.signingHash, h.keyId, h.principal]),
      if_neg (not_not.mpr h.acceptedBy), if_neg (by simp [outsideKeyInterval_eq_false.mpr h.valid])]

/-! ## Preparing and accepting a record -/

section

variable {env : Environment} {verified : VerifiedSignedDocument}

/-- What `prepare_first_admission` establishes from the issued context on. -/
structure Prepares (env : Environment) (verified : VerifiedSignedDocument)
    (context : AdmissionContextValue) (record : FirstAdmissionRecord) : Prop where
  canonical : Canonical.canonicalJson (recordJson verified context) = .ok record.bytes
  parses : ParsesTo env record.bytes record
  binds : Binds record verified context.acceptedBy

theorem prepares_of_prepareRecord {context : AdmissionContextValue}
    {prepared : PreparedFirstAdmission}
    (h : prepareRecord env verified context = .ok prepared) :
    prepared.verified = verified ∧ Prepares env verified context prepared.record := by
  obtain ⟨accepted, _, h⟩ := Except.bind_eq_ok.mp h
  split_ifs at h with hinterval
  · cases h
  obtain ⟨canonical, hcanonical, h⟩ := Except.bind_eq_ok.mp h
  rw [catchException_eq_ok fun _ _ => by simp [fail]] at hcanonical
  obtain ⟨parsed, hparsed, h⟩ := Except.bind_eq_ok.mp h
  obtain ⟨⟨⟩, hbinds, h⟩ := Except.bind_eq_ok.mp h
  split_ifs at h with hequal
  swap
  · cases h
  obtain ⟨hparses, hinstant⟩ := parseRecord_eq_ok.mp hparsed
  rw [validateBindings_eq_ok hinstant] at hbinds
  rw [← Except.ok.inj h]
  refine ⟨rfl, ?_, ?_, hbinds⟩
  · rw [hcanonical, hparses.bytes]
  · rwa [hparses.bytes]

theorem Prepares.prepareRecord {context : AdmissionContextValue} {record : FirstAdmissionRecord}
    (h : Prepares env verified context record)
    (hinstant : parseInstant context.trustedAcceptedAt = .ok record.trustedAcceptedInstant) :
    prepareRecord env verified context = .ok ⟨verified, record⟩ := by
  have hparsed : parseRecord env record.bytes = .ok ⟨record, record.trustedAcceptedInstant⟩ :=
    parseRecord_eq_ok.mpr ⟨h.parses, rfl⟩
  have hequals : record.trustedAcceptedInstant.equals record.trustedAcceptedInstant = true :=
    ExactInstant.equals_iff.mpr rfl
  rw [AdmissionService.prepareRecord, hinstant, catchException, Except.ok_bind,
    outsideKeyInterval_eq_false.mpr h.binds.valid, if_neg Bool.false_ne_true, h.canonical,
    catchException, Except.ok_bind, hparsed, Except.ok_bind,
    (validateBindings_eq_ok rfl).mpr h.binds,
    Except.ok_bind, if_neg (not_not.mpr hequals)]

/-- An authenticated record that admits a document. -/
structure Admits (env : Environment) (authenticated : AuthenticatedAdmissionRecord)
    (verified : VerifiedSignedDocument) (record : FirstAdmissionRecord) : Prop where
  parses : ParsesTo env authenticated.recordBytes record
  binds : Binds record verified authenticated.authenticatedService
  notSelfAnchoring : isEventSelfAnchoring env authenticated.recordBytes verified = .ok false

/-- Exactly the records that admit the document pass. -/
theorem validateAuthenticatedRecord_eq_ok {authenticated : AuthenticatedAdmissionRecord}
    {admitted : AdmittedSignedDocument} :
    validateAuthenticatedRecord env authenticated verified = .ok admitted ↔
      admitted.verified = verified ∧ Admits env authenticated verified admitted.record := by
  constructor
  · intro h
    obtain ⟨selfAnchoring, hself, h⟩ := Except.bind_eq_ok.mp h
    split_ifs at h with hfalse
    · cases h
    obtain ⟨parsed, hparsed, h⟩ := Except.bind_eq_ok.mp h
    obtain ⟨⟨⟩, hbinds, h⟩ := Except.bind_eq_ok.mp h
    obtain ⟨hparses, hinstant⟩ := parseRecord_eq_ok.mp hparsed
    rw [validateBindings_eq_ok hinstant] at hbinds
    rw [← Except.ok.inj h]
    refine ⟨rfl, hparses, hbinds, ?_⟩
    rw [hself, Bool.eq_false_iff.mpr hfalse]
  · obtain ⟨verified', record⟩ := admitted
    rintro ⟨rfl, hparses, hbinds, hself⟩
    have hparsed : parseRecord env authenticated.recordBytes =
        .ok ⟨record, record.trustedAcceptedInstant⟩ := parseRecord_eq_ok.mpr ⟨hparses, rfl⟩
    rw [validateAuthenticatedRecord, hself, Except.ok_bind, if_neg Bool.false_ne_true, hparsed,
      Except.ok_bind, (validateBindings_eq_ok rfl).mpr hbinds, Except.ok_bind]

/-- What was prepared for a document admits it, unless it is taken for the
document. -/
theorem Prepares.admits {context : AdmissionContextValue} {record : FirstAdmissionRecord}
    (h : Prepares env verified context record)
    (hself : isEventSelfAnchoring env record.bytes verified = .ok false) :
    ∃ authenticated : AuthenticatedAdmissionRecord, authenticated.recordBytes = record.bytes ∧
      authenticated.authenticatedService = context.acceptedBy ∧
      Admits env authenticated verified record := by
  obtain ⟨value, _, hreads⟩ := h.parses.reads
  have hservice : context.acceptedBy.type = ascii "service" := by
    rw [← h.binds.acceptedBy]
    exact hreads.service
  exact ⟨⟨record.bytes, context.acceptedBy, hservice⟩, rfl, rfl, h.parses, h.binds, hself⟩

end

end MissionWeave.AdmissionService
