import MissionWeave.Admission.Run
import MissionWeave.Admission.Safety
import MissionWeave.SignedDocument.TamperEvidence

/-!
# A prepared candidate survives its own validation

`prepare_first_admission` builds a value, writes its canonical text and reads
that again.  Nothing is lost on the way, and what a log commits verbatim passes
every later check.

* `Carries`: the record says what it was prepared from.
* `isEventSelfAnchoring_eq_false`: the candidate is no Event.
* `prepared_survives`: the whole statement.
-/

namespace MissionWeave.AdmissionService

open Canonical (canonicalJson parse_canonicalJson)
open Interaction
open SignedDocumentCodec
open StrictScanner (maximumDepth)

/-! ## The value that is built -/

/-- The value is as jsoncons keeps it, and nested at most so deep. -/
structure Shallow (depth : Nat) (value : Json) : Prop where
  ordered : value.Ordered
  nesting : value.nesting ≤ depth

section

variable {depth : Nat} {value member : Json} {field : String}

theorem shallow_empty (depth : Nat) : Shallow depth (.object []) where
  ordered := .object List.Pairwise.nil (by simp)
  nesting := Nat.zero_le depth

theorem shallow_string (text : Bytes) : Shallow 0 (.string text) where
  ordered := .leaf rfl rfl
  nesting := Nat.le_refl 0

theorem Shallow.set {inner : Nat} (h : Shallow depth value) (hmember : Shallow inner member)
    (hdepth : inner < depth) : Shallow depth (value.set field member) where
  ordered := h.ordered.set hmember.ordered
  nesting := Json.nesting_set_le h.nesting
    (Nat.succ_le_of_lt (Nat.lt_of_le_of_lt hmember.nesting hdepth))

/-- A string is set. -/
theorem Shallow.setText (h : Shallow depth value) (text : Bytes) (hdepth : 0 < depth) :
    Shallow depth (value.set field (.string text)) :=
  h.set (shallow_string text) hdepth

end

section

variable {verified : VerifiedSignedDocument} {context : AdmissionContextValue}

theorem shallow_principalJson (principal : Principal) : Shallow 1 (principalJson principal) :=
  ((shallow_empty 1).setText _ (by decide)).setText _ (by decide)

theorem shallow_recordJson : Shallow 2 (recordJson verified context) := by
  have hdepth : 0 < 2 := by decide
  have hprincipal (principal : Principal) := shallow_principalJson principal
  unfold recordJson
  apply Shallow.set _ (hprincipal _) (by decide)
  apply Shallow.setText _ _ hdepth
  apply Shallow.set _ (hprincipal _) (by decide)
  apply Shallow.setText _ _ hdepth
  apply Shallow.setText _ _ hdepth
  apply Shallow.setText _ _ hdepth
  apply Shallow.setText _ _ hdepth
  apply Shallow.setText _ _ hdepth
  exact (shallow_empty 2).setText _ hdepth

theorem member?_recordJson_admissionRecordId :
    (recordJson verified context).member? "admissionRecordId" =
      some (.string context.admissionRecordId) := rfl

theorem member?_recordJson_trustedAcceptedAt :
    (recordJson verified context).member? "trustedAcceptedAt" =
      some (.string context.trustedAcceptedAt) := rfl

theorem member?_recordJson_signature :
    (recordJson verified context).member? "signature" = none := rfl

end

/-! ## The candidate that is read back -/

/-- The record says what it was prepared from. -/
structure Carries (record : FirstAdmissionRecord) (verified : VerifiedSignedDocument)
    (context : AdmissionContextValue) : Prop where
  organizationId : record.organizationId = verified.resolvedKey.organizationId
  documentKind : record.documentKind = verified.kind
  signingHash : record.signingHash = verified.signingHash
  keyId : record.keyId = verified.resolvedKey.keyId
  principal : record.principal = verified.resolvedKey.principal
  trustedAcceptedAt : record.trustedAcceptedAt = context.trustedAcceptedAt
  instant : parseInstant context.trustedAcceptedAt = .ok record.trustedAcceptedInstant
  admissionRecordId : record.admissionRecordId = context.admissionRecordId
  acceptedBy : record.acceptedBy = context.acceptedBy

section

variable {env : Environment} {kind : SignedDocumentKind} {receivedBytes : Bytes}
  {resolver : KeyResolver} {verified : VerifiedSignedDocument} {context : AdmissionContextValue}
  {record : FirstAdmissionRecord}

/-- The candidate is read back to the data that it was written from, and is the
canonical text of it. -/
theorem Prepares.exists_value (hparse : DecodesJson env.jsonParse)
    (h : Prepares env verified context record) :
    ∃ value, env.parseStrictJson record.bytes = .ok value ∧
      value.data = (recordJson verified context).data ∧
      canonicalJson value = .ok record.bytes := by
  have hshallow : Shallow 2 (recordJson verified context) := shallow_recordJson
  obtain ⟨value, hvalue, hdata⟩ := parse_canonicalJson hparse hshallow.ordered
    (hshallow.nesting.trans (by decide)) h.canonical
  refine ⟨value, hvalue, hdata, ?_⟩
  rw [canonicalJson, Canonical.serialize_congr hdata]
  exact h.canonical

theorem Prepares.carries (hparse : DecodesJson env.jsonParse)
    (h : Prepares env verified context record) : Carries record verified context := by
  obtain ⟨value, hvalue, hdata, _⟩ := h.exists_value hparse
  obtain ⟨value', hvalue', hreads⟩ := h.parses.reads
  obtain rfl : value = value' := Except.ok.inj (hvalue.symm.trans hvalue')
  have htext {field : String} {text : Bytes}
      (hmember : (recordJson verified context).member? field = some (.string text)) :
      TextMember value field text :=
    ⟨_, Json.member?_string_of_data hdata hmember, rfl⟩
  have haccepted : record.trustedAcceptedAt = context.trustedAcceptedAt :=
    hreads.trustedAcceptedAt.unique (htext member?_recordJson_trustedAcceptedAt)
  have hinstant := hreads.instant
  rw [haccepted] at hinstant
  have hid : record.admissionRecordId = context.admissionRecordId :=
    hreads.admissionRecordId.unique (htext member?_recordJson_admissionRecordId)
  exact ⟨h.binds.organizationId, h.binds.documentKind, h.binds.signingHash, h.binds.keyId,
    h.binds.principal, haccepted, hinstant, hid, h.binds.acceptedBy⟩

/-- The candidate has no signature, and a verified document has one: neither the
received bytes nor the canonical bytes of the document are the candidate. -/
theorem isEventSelfAnchoring_eq_false (hparse : DecodesJson env.jsonParse)
    (hauthentic : Authentic env kind receivedBytes resolver verified)
    (h : Prepares env verified context record) :
    isEventSelfAnchoring env record.bytes verified = .ok false := by
  obtain ⟨value, hvalue, hdata, hcanonical⟩ := h.exists_value hparse
  obtain ⟨signature, hsignature, _⟩ := hauthentic.signature
  have hunsigned {document : Json} (hdocument : document.data = verified.document.data)
      (heq : env.parseStrictJson record.bytes = .ok document) : False := by
    obtain rfl : value = document := Except.ok.inj (hvalue.symm.trans heq)
    obtain ⟨signature', hmember, _⟩ := Json.exists_member?_of_data
      (hdata.symm.trans hdocument) hsignature
    rw [member?_recordJson_signature] at hmember
    cases hmember
  have hreceived : record.bytes ≠ verified.receivedBytes := by
    intro heq
    apply hunsigned rfl
    rw [heq, hauthentic.receivedBytes]
    exact hauthentic.parsed
  have hbytes : record.bytes ≠ verified.canonicalBytes := by
    intro heq
    obtain ⟨hordered, hdepth⟩ := hauthentic.ordered hparse
    obtain ⟨document, hdocument, hsame⟩ :=
      parse_canonicalJson hparse hordered hdepth hauthentic.canonicalBytes
    rw [← heq] at hdocument
    exact hunsigned hsame hdocument
  unfold isEventSelfAnchoring
  by_cases hkind : verified.kind = .event
  · rw [if_neg (not_not.mpr hkind), if_neg hreceived, hvalue, Except.ok_bind, hcanonical,
      Except.ok_bind, beq_eq_false_iff_ne.mpr hbytes]
    rfl
  · rw [if_pos hkind]

/-- The adapters verify the document, and their log has the candidate. -/
structure HasCandidate (adapters : Adapters) (resolver : KeyResolver)
    (verified : VerifiedSignedDocument) (candidate : AuthenticatedAdmissionRecord) : Prop where
  resolver : adapters.resolver = resolver
  lookup : adapters (.lookup verified.resolvedKey.organizationId verified.signingHash) =
    .ok (.found candidate)

/-- The adapters verify the document, and issue the context; their log has no
record and commits the candidate as it is. -/
structure Commits (adapters : Adapters) (resolver : KeyResolver)
    (verified : VerifiedSignedDocument) (context : AdmissionContextValue)
    (candidate : AuthenticatedAdmissionRecord) : Prop where
  resolver : adapters.resolver = resolver
  lookup : adapters (.lookup verified.resolvedKey.organizationId verified.signingHash) =
    .ok .authoritativeAbsence
  issue : adapters (.issue verified.resolvedKey.organizationId verified.signingHash) = .ok context
  append : adapters (.appendOrReturnExisting verified.resolvedKey.organizationId
    verified.signingHash candidate.recordBytes) = .ok candidate

end

/-- What is prepared for a verified document is canonical, says what it was
prepared from, and is accepted when the log returns it: at once after it was
committed, and from then on. -/
theorem prepared_survives (env : Environment) (hparse : DecodesJson env.jsonParse)
    (kind : SignedDocumentKind) (receivedBytes : Bytes) (resolver : KeyResolver)
    (verified : VerifiedSignedDocument) (context : AdmissionContextValue)
    (prepared : PreparedFirstAdmission)
    (hverified : verify env kind receivedBytes resolver = .ok verified)
    (h : prepareRecord env verified context = .ok prepared) :
    (∃ value, env.parseStrictJson prepared.record.bytes = .ok value ∧
      canonicalJson value = .ok prepared.record.bytes) ∧
    Carries prepared.record verified context ∧
    ∃ candidate : AuthenticatedAdmissionRecord, candidate.recordBytes = prepared.record.bytes ∧
      candidate.authenticatedService = context.acceptedBy ∧
      validateAuthenticatedRecord env candidate verified = .ok ⟨verified, prepared.record⟩ ∧
      (∀ adapters, Commits adapters resolver verified context candidate →
        (admitFirst env kind receivedBytes).run adapters = .ok ⟨verified, prepared.record⟩) ∧
      ∀ adapters, HasCandidate adapters resolver verified candidate →
        (verifyHistoricalAdmission env kind receivedBytes).run adapters =
          .ok ⟨verified, prepared.record⟩ := by
  obtain ⟨_, hprepares⟩ := prepares_of_prepareRecord h
  obtain ⟨opened, hopens, hcompletes⟩ := verify_eq_ok.mp hverified
  have hauthentic := authentic_of_opens hopens hcompletes
  obtain ⟨value, hvalue, _, hcanonical⟩ := hprepares.exists_value hparse
  obtain ⟨candidate, hbytes, hservice, hadmits⟩ :=
    hprepares.admits (isEventSelfAnchoring_eq_false hparse hauthentic hprepares)
  have hvalidate : validateAuthenticatedRecord env candidate verified =
      .ok ⟨verified, prepared.record⟩ := validateAuthenticatedRecord_eq_ok.mpr ⟨rfl, hadmits⟩
  refine ⟨⟨value, hvalue, hcanonical⟩, hprepares.carries hparse, candidate, hbytes, hservice,
    hvalidate, fun adapters hcommits => ?_, fun adapters hhas => ?_⟩
  · have happend := hcommits.append
    rw [hbytes] at happend
    rw [← hcommits.resolver] at hverified
    exact run_admitFirst hverified hcommits.lookup hcommits.issue h happend hvalidate
  · rw [← hhas.resolver] at hverified
    exact run_verifyHistoricalAdmission_eq_ok.mpr ⟨hverified, candidate, hhas.lookup, hadmits⟩

theorem prepared_survives_sample :
    ∃ verified prepared,
      prepareRecord sampleEnvironment verified (sampleContext "2026-07-16T01:05:00Z") =
        .ok prepared ∧
      Carries prepared.record verified (sampleContext "2026-07-16T01:05:00Z") := by
  obtain ⟨verified, prepared, _, _, hverified, hprepared, _, _⟩ :=
    exists_prepared_sample samplePreparation_eq_ok
  exact ⟨verified, prepared, hprepared, (prepared_survives _ decodesJson_referenceParse _ _ _ _ _ _
    hverified hprepared).2.1⟩

end MissionWeave.AdmissionService
