import MissionWeave.Admission.Record
import MissionWeave.CodeLib.Interaction

/-!
# `AdmissionService`

`admit_first` and `verify_historical_admission` as programs that call their
adapters: the resolver, the Admission Log and the trusted context.  An adapter
answers with a value, or with an exception of any kind.
-/

namespace MissionWeave.AdmissionService

open Interaction

/-- The calls of the adapters. -/
inductive AdapterCall
  | resolve (request : KeyResolutionRequest)
  | lookup (organizationId signingHash : Bytes)
  | issue (organizationId signingHash : Bytes)
  | appendOrReturnExisting (organizationId signingHash candidateBytes : Bytes)

/-- What an adapter returns or throws. -/
abbrev AdapterAnswer : AdapterCall → Type
  | .resolve _ => Except Thrown KeyRegistrySnapshot
  | .lookup _ _ => Except Thrown AdmissionLookup
  | .issue _ _ => Except Thrown AdmissionContextValue
  | .appendOrReturnExisting _ _ _ => Except Thrown AuthenticatedAdmissionRecord

/-- A function of the service: it calls adapters, and returns or throws. -/
abbrev Procedure (α : Type) := Program AdapterCall AdapterAnswer (Except Thrown α)

abbrev AdapterEvent := Event AdapterCall AdapterAnswer

variable (env : Environment)

/-- `codec_.verify` with the resolver as an adapter. -/
def verifyDocument (kind : SignedDocumentKind) (documentBytes : Bytes) :
    Procedure VerifiedSignedDocument :=
  (Program.done (SignedDocumentCodec.openDocument env kind documentBytes)).andThen fun opened =>
    .call (.resolve opened.request) fun response =>
      .done (SignedDocumentCodec.completeDocument env opened response)

/-- The lookup of both functions. -/
def lookupRecord (verified : VerifiedSignedDocument) : Procedure AdmissionLookup :=
  .call (.lookup verified.resolvedKey.organizationId verified.signingHash) fun lookup =>
    .done (remapAdapterError lookup)

/-- `prepare_first_admission`. -/
def prepareFirstAdmission (verified : VerifiedSignedDocument) :
    Procedure PreparedFirstAdmission :=
  .call (.issue verified.resolvedKey.organizationId verified.signingHash) fun context =>
    .done (remapAdapterError context >>= prepareRecord env verified)

/-- The `try` block around the append. -/
def commitRecord (prepared : PreparedFirstAdmission) (verified : VerifiedSignedDocument) :
    Procedure AdmittedSignedDocument :=
  .call (.appendOrReturnExisting verified.resolvedKey.organizationId verified.signingHash
    prepared.record.bytes) fun committed =>
      .done (remapAdapterError (committed >>= fun record =>
        validateAuthenticatedRecord env record verified))

/-- `admit_first`. -/
def admitFirst (kind : SignedDocumentKind) (documentBytes : Bytes) :
    Procedure AdmittedSignedDocument :=
  (verifyDocument env kind documentBytes).andThen fun verified =>
    (lookupRecord verified).andThen fun lookup =>
      match lookup.record with
      | some record => .done (validateAuthenticatedRecord env record verified)
      | none =>
        if ¬lookup.isAuthoritativeAbsence then .done (fail .logIndeterminate)
        else (prepareFirstAdmission env verified).andThen fun prepared =>
          commitRecord env prepared verified

/-- `verify_historical_admission`. -/
def verifyHistoricalAdmission (kind : SignedDocumentKind) (documentBytes : Bytes) :
    Procedure AdmittedSignedDocument :=
  (verifyDocument env kind documentBytes).andThen fun verified =>
    (lookupRecord verified).andThen fun lookup =>
      match lookup.record with
      | some record => .done (validateAuthenticatedRecord env record verified)
      | none =>
        if lookup.isAuthoritativeAbsence then .done (fail .recordMissing)
        else .done (fail .logIndeterminate)

end MissionWeave.AdmissionService
