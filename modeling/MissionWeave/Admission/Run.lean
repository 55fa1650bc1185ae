import MissionWeave.Admission.Service
import MissionWeave.Admission.RecordSpec

/-!
# Running the service

The functions of the service when every adapter is a function.

* `run_verifyDocument`: the document is verified with the resolver.
* `run_verifyHistoricalAdmission_eq_ok`: what `verify_historical_admission`
  returns.
* `run_admitFirst`: what `admit_first` returns after authoritative absence.
-/

namespace MissionWeave.AdmissionService

open Interaction
open SignedDocumentCodec

/-- The answers of all adapters. -/
abbrev Adapters := (call : AdapterCall) → AdapterAnswer call

/-- The resolver among the adapters. -/
def Adapters.resolver (adapters : Adapters) : KeyResolver :=
  fun request => adapters (.resolve request)

section

variable {env : Environment} {kind : SignedDocumentKind} {documentBytes : Bytes}
  {adapters : Adapters} {verified : VerifiedSignedDocument} {admitted : AdmittedSignedDocument}

theorem run_verifyDocument :
    (verifyDocument env kind documentBytes).run adapters =
      verify env kind documentBytes adapters.resolver := by
  rw [verifyDocument, Program.run_andThen]
  rfl

theorem run_lookupRecord :
    (lookupRecord verified).run adapters =
      remapAdapterError
        (adapters (.lookup verified.resolvedKey.organizationId verified.signingHash)) :=
  rfl

/-- A document is returned when it is verified, and the log has a record that
admits it. -/
theorem run_verifyHistoricalAdmission_eq_ok :
    (verifyHistoricalAdmission env kind documentBytes).run adapters = .ok admitted ↔
      verify env kind documentBytes adapters.resolver = .ok admitted.verified ∧
      ∃ authenticated, adapters (.lookup admitted.verified.resolvedKey.organizationId
          admitted.verified.signingHash) = .ok (.found authenticated) ∧
        Admits env authenticated admitted.verified admitted.record := by
  rw [verifyHistoricalAdmission, Program.run_andThen, run_verifyDocument]
  constructor
  · intro h
    obtain ⟨verified, hverified, h⟩ := Except.bind_eq_ok.mp h
    rw [Program.run_andThen, run_lookupRecord] at h
    obtain ⟨⟨record⟩, hlookup, h⟩ := Except.bind_eq_ok.mp h
    rw [remapAdapterError_eq_ok] at hlookup
    cases record with
    | none => cases h
    | some authenticated =>
      obtain ⟨rfl, hadmits⟩ := validateAuthenticatedRecord_eq_ok.mp h
      exact ⟨hverified, authenticated, hlookup, hadmits⟩
  · intro h
    obtain ⟨hverified, authenticated, hlookup, hadmits⟩ := h
    rw [hverified, Except.ok_bind, Program.run_andThen, run_lookupRecord,
      remapAdapterError_eq_ok.mpr hlookup, Except.ok_bind]
    exact validateAuthenticatedRecord_eq_ok.mpr ⟨rfl, hadmits⟩

theorem run_prepareFirstAdmission {context : AdmissionContextValue}
    (hissue : adapters (.issue verified.resolvedKey.organizationId verified.signingHash) =
      .ok context) :
    (prepareFirstAdmission env verified).run adapters = prepareRecord env verified context := by
  show remapAdapterError _ >>= prepareRecord env verified = _
  rw [remapAdapterError_eq_ok.mpr hissue, Except.ok_bind]

/-- A document without a record is returned with the record that the log
commits for the prepared candidate. -/
theorem run_admitFirst {context : AdmissionContextValue} {prepared : PreparedFirstAdmission}
    {committed : AuthenticatedAdmissionRecord}
    (hverified : verify env kind documentBytes adapters.resolver = .ok verified)
    (hlookup : adapters (.lookup verified.resolvedKey.organizationId verified.signingHash) =
      .ok .authoritativeAbsence)
    (hissue : adapters (.issue verified.resolvedKey.organizationId verified.signingHash) =
      .ok context)
    (hprepared : prepareRecord env verified context = .ok prepared)
    (happend : adapters (.appendOrReturnExisting verified.resolvedKey.organizationId
      verified.signingHash prepared.record.bytes) = .ok committed)
    (hadmitted : validateAuthenticatedRecord env committed verified = .ok admitted) :
    (admitFirst env kind documentBytes).run adapters = .ok admitted := by
  have hprepare : (prepareFirstAdmission env verified).run adapters = .ok prepared :=
    (run_prepareFirstAdmission hissue).trans hprepared
  have hcommit : (commitRecord env prepared verified).run adapters = .ok admitted := by
    show remapAdapterError (_ >>= fun record => validateAuthenticatedRecord env record verified) = _
    rw [remapAdapterError_eq_ok, happend, Except.ok_bind, hadmitted]
  rw [admitFirst, Program.run_andThen, run_verifyDocument, hverified, Except.ok_bind,
    Program.run_andThen, run_lookupRecord, remapAdapterError_eq_ok.mpr hlookup, Except.ok_bind]
  show ((prepareFirstAdmission env verified).andThen fun prepared =>
    commitRecord env prepared verified).run adapters = _
  rw [Program.run_andThen, hprepare, Except.ok_bind, hcommit]

end

end MissionWeave.AdmissionService
