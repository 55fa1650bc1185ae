import MissionWeave.Admission.Service
import MissionWeave.Admission.RecordSpec

/-!
# Admission against arbitrary adapters

The runs of `admitFirst` and of `verifyHistoricalAdmission` for all answers of
the adapters.

* `AllowedLookup`, `AllowedAdmission`: the calls that may be made after the
  calls before them.
* `Admitted`: what is established when a document is admitted.
* `ensures_admitFirst`, `ensures_verifyHistoricalAdmission`: every call is
  allowed, and every admitted document has been established.
* `admission_safe`: the same for the runs.
-/

namespace MissionWeave.AdmissionService

open Interaction SignedDocumentCodec

/-! ## Calls -/

/-- The function of an adapter that is called. -/
inductive AdapterFunction
  | resolve
  | lookup
  | issue
  | appendOrReturnExisting
  deriving DecidableEq, Repr

def AdapterCall.function : AdapterCall → AdapterFunction
  | .resolve _ => .resolve
  | .lookup _ _ => .lookup
  | .issue _ _ => .issue
  | .appendOrReturnExisting _ _ _ => .appendOrReturnExisting

/-- The functions that were called, in order. -/
def functions (events : List AdapterEvent) : List AdapterFunction :=
  events.map fun event => event.request.function

section

variable (env : Environment) (kind : SignedDocumentKind) (documentBytes : Bytes)

/-- With this answer of the resolver the verification succeeds. -/
def VerifiesWith (response : Except Thrown KeyRegistrySnapshot)
    (verified : VerifiedSignedDocument) : Prop :=
  verify env kind documentBytes (fun _ => response) = .ok verified

/-- The calls up to the lookup: the resolver is asked first, and the log after
the whole verification, for the verified document. -/
inductive AllowedLookup : List AdapterEvent → AdapterCall → Prop
  | resolve {opened : OpenedDocument} (opens : openDocument env kind documentBytes = .ok opened) :
      AllowedLookup [] (.resolve opened.request)
  | lookup {request : KeyResolutionRequest} {response : Except Thrown KeyRegistrySnapshot}
      {verified : VerifiedSignedDocument}
      (verifies : VerifiesWith env kind documentBytes response verified) :
      AllowedLookup [⟨.resolve request, response⟩]
        (.lookup verified.resolvedKey.organizationId verified.signingHash)

/-- The calls of `admit_first`: a context is issued after authoritative absence
only, and only a candidate that was prepared from it is appended. -/
inductive AllowedAdmission : List AdapterEvent → AdapterCall → Prop
  | lookup {past : List AdapterEvent} {call : AdapterCall}
      (allowed : AllowedLookup env kind documentBytes past call) : AllowedAdmission past call
  | issue {request : KeyResolutionRequest} {response : Except Thrown KeyRegistrySnapshot}
      {verified : VerifiedSignedDocument}
      (verifies : VerifiesWith env kind documentBytes response verified) :
      AllowedAdmission
        [⟨.resolve request, response⟩,
          ⟨.lookup verified.resolvedKey.organizationId verified.signingHash,
            .ok .authoritativeAbsence⟩]
        (.issue verified.resolvedKey.organizationId verified.signingHash)
  | append {request : KeyResolutionRequest} {response : Except Thrown KeyRegistrySnapshot}
      {verified : VerifiedSignedDocument} {context : AdmissionContextValue}
      {prepared : PreparedFirstAdmission}
      (verifies : VerifiesWith env kind documentBytes response verified)
      (prepares : prepareRecord env verified context = .ok prepared) :
      AllowedAdmission
        [⟨.resolve request, response⟩,
          ⟨.lookup verified.resolvedKey.organizationId verified.signingHash,
            .ok .authoritativeAbsence⟩,
          ⟨.issue verified.resolvedKey.organizationId verified.signingHash, .ok context⟩]
        (.appendOrReturnExisting verified.resolvedKey.organizationId verified.signingHash
          prepared.record.bytes)

end

/-! ## Results -/

/-- An organization id and a signing hash. -/
abbrev LogKey := Bytes × Bytes

/-- The record that the log returns with an event, and its key. -/
def returnedRecord : AdapterEvent → Option (LogKey × AuthenticatedAdmissionRecord)
  | ⟨.lookup organizationId signingHash, .ok lookup⟩ =>
    lookup.record.map fun record => ((organizationId, signingHash), record)
  | ⟨.appendOrReturnExisting organizationId signingHash _, .ok record⟩ =>
    some ((organizationId, signingHash), record)
  | _ => none

/-- The key under which a verified document is looked up. -/
def logKey (verified : VerifiedSignedDocument) : LogKey :=
  (verified.resolvedKey.organizationId, verified.signingHash)

/-- What an admission has established: the document is verified with what the
resolver returned, and the record is one that the log returned for it and that
admits it. -/
structure Admitted (env : Environment) (kind : SignedDocumentKind) (documentBytes : Bytes)
    (events : List AdapterEvent) (admitted : AdmittedSignedDocument) : Prop where
  verified : ∃ request response, (⟨.resolve request, response⟩ : AdapterEvent) ∈ events ∧
    VerifiesWith env kind documentBytes response admitted.verified
  logged : ∃ authenticated,
    (∃ event ∈ events, returnedRecord event = some (logKey admitted.verified, authenticated)) ∧
    Admits env authenticated admitted.verified admitted.record

section

variable {env : Environment} {kind : SignedDocumentKind} {documentBytes : Bytes}

/-- The condition on a result: it throws, or the document has been admitted. -/
def AdmittedOrThrows (env : Environment) (kind : SignedDocumentKind) (documentBytes : Bytes)
    (events : List AdapterEvent) (result : Except Thrown AdmittedSignedDocument) : Prop :=
  ∀ admitted, result = .ok admitted → Admitted env kind documentBytes events admitted

theorem admittedOrThrows_error {events : List AdapterEvent} {thrown : Thrown} :
    AdmittedOrThrows env kind documentBytes events (.error thrown) :=
  fun _ h => nomatch h

/-- The record that the log returned is validated. -/
theorem admittedOrThrows_validate {events : List AdapterEvent} {request : KeyResolutionRequest}
    {response : Except Thrown KeyRegistrySnapshot} {verified : VerifiedSignedDocument}
    {authenticated : AuthenticatedAdmissionRecord}
    (hresolve : (⟨.resolve request, response⟩ : AdapterEvent) ∈ events)
    (hverified : VerifiesWith env kind documentBytes response verified)
    (hlogged : ∃ event ∈ events,
      returnedRecord event = some (logKey verified, authenticated)) :
    AdmittedOrThrows env kind documentBytes events
      (validateAuthenticatedRecord env authenticated verified) := by
  intro admitted h
  obtain ⟨rfl, hadmits⟩ := validateAuthenticatedRecord_eq_ok.mp h
  exact ⟨⟨request, response, hresolve, hverified⟩, authenticated, hlogged, hadmits⟩

/-! ## Conditions on the programs -/

/-- Up to the lookup, with `f` for what is done with its answer. -/
theorem ensures_lookup {allowed : List AdapterEvent → AdapterCall → Prop}
    {f : VerifiedSignedDocument → AdmissionLookup → Procedure AdmittedSignedDocument}
    (hallowed : ∀ past call, AllowedLookup env kind documentBytes past call → allowed past call)
    (hf : ∀ request response verified lookup,
      VerifiesWith env kind documentBytes response verified →
      Ensures allowed (AdmittedOrThrows env kind documentBytes)
        [⟨.resolve request, response⟩,
          ⟨.lookup verified.resolvedKey.organizationId verified.signingHash, .ok lookup⟩]
        (f verified lookup)) :
    Ensures allowed (AdmittedOrThrows env kind documentBytes) []
      ((verifyDocument env kind documentBytes).andThen fun verified =>
        (lookupRecord verified).andThen fun lookup => f verified lookup) := by
  refine ensures_andThen (ensures_andThen ?_)
  refine ⟨fun thrown _ => ⟨fun _ _ => admittedOrThrows_error, fun _ h => nomatch h⟩,
    fun opened hopened => ⟨hallowed _ _ (.resolve hopened), fun response => ?_⟩⟩
  refine ⟨fun thrown _ => admittedOrThrows_error, fun verified hverified => ?_⟩
  have hverifies : VerifiesWith env kind documentBytes response verified := by
    rw [VerifiesWith, verify, hopened, Except.ok_bind]
    exact hverified
  refine ensures_andThen ⟨hallowed _ _ (.lookup hverifies), fun answer => ?_⟩
  refine ⟨fun thrown _ => admittedOrThrows_error, fun lookup hlookup => ?_⟩
  obtain rfl := remapAdapterError_eq_ok.mp hlookup
  exact hf opened.request response verified lookup hverifies

/-- The record that was found is validated. -/
theorem admittedOrThrows_found {request : KeyResolutionRequest}
    {response : Except Thrown KeyRegistrySnapshot} {verified : VerifiedSignedDocument}
    (hverified : VerifiesWith env kind documentBytes response verified)
    (authenticated : AuthenticatedAdmissionRecord) :
    AdmittedOrThrows env kind documentBytes
      [⟨.resolve request, response⟩,
        ⟨.lookup verified.resolvedKey.organizationId verified.signingHash,
          .ok (.found authenticated)⟩]
      (validateAuthenticatedRecord env authenticated verified) :=
  admittedOrThrows_validate List.mem_cons_self hverified
    ⟨_, List.mem_cons_of_mem _ List.mem_cons_self, rfl⟩

theorem ensures_verifyHistoricalAdmission :
    Ensures (AllowedLookup env kind documentBytes) (AdmittedOrThrows env kind documentBytes) []
      (verifyHistoricalAdmission env kind documentBytes) := by
  refine ensures_lookup (fun _ _ h => h) fun request response verified lookup hverified => ?_
  obtain ⟨record⟩ := lookup
  cases record with
  | some authenticated => exact admittedOrThrows_found hverified authenticated
  | none => exact admittedOrThrows_error

/-- After authoritative absence: the candidate is prepared, and what the log
returns for it is validated. -/
theorem ensures_commit {request : KeyResolutionRequest}
    {response : Except Thrown KeyRegistrySnapshot} {verified : VerifiedSignedDocument}
    (hverified : VerifiesWith env kind documentBytes response verified) :
    Ensures (AllowedAdmission env kind documentBytes) (AdmittedOrThrows env kind documentBytes)
      [⟨.resolve request, response⟩,
        ⟨.lookup verified.resolvedKey.organizationId verified.signingHash,
          .ok .authoritativeAbsence⟩]
      ((prepareFirstAdmission env verified).andThen fun prepared =>
        commitRecord env prepared verified) := by
  refine ensures_andThen ⟨.issue hverified, fun answer => ?_⟩
  refine ⟨fun thrown _ => admittedOrThrows_error, fun prepared hprepared => ?_⟩
  obtain ⟨context, hcontext, hprepared⟩ := Except.bind_eq_ok.mp hprepared
  obtain rfl := remapAdapterError_eq_ok.mp hcontext
  refine ⟨.append hverified hprepared, fun committed admitted h => ?_⟩
  obtain ⟨authenticated, rfl, hvalid⟩ := Except.bind_eq_ok.mp (remapAdapterError_eq_ok.mp h)
  exact admittedOrThrows_validate List.mem_cons_self hverified
    ⟨_, List.mem_append_right ([_, _] ++ [_]) List.mem_cons_self, rfl⟩ admitted hvalid

theorem ensures_admitFirst :
    Ensures (AllowedAdmission env kind documentBytes) (AdmittedOrThrows env kind documentBytes) []
      (admitFirst env kind documentBytes) := by
  refine ensures_lookup (fun _ _ => .lookup) fun request response verified lookup hverified => ?_
  obtain ⟨record⟩ := lookup
  cases record with
  | some authenticated => exact admittedOrThrows_found hverified authenticated
  | none => exact ensures_commit hverified

/-! ## The order of the calls -/

theorem functions_of_allowedLookup {past : List AdapterEvent} {call : AdapterCall}
    (h : AllowedLookup env kind documentBytes past call) :
    functions past ++ [call.function] <+: [.resolve, .lookup] := by
  cases h with
  | resolve => exact ⟨[.lookup], rfl⟩
  | lookup => exact ⟨[], rfl⟩

theorem functions_of_allowedAdmission {past : List AdapterEvent} {call : AdapterCall}
    (h : AllowedAdmission env kind documentBytes past call) :
    functions past ++ [call.function] <+: [.resolve, .lookup, .issue, .appendOrReturnExisting] := by
  cases h with
  | lookup h => exact (functions_of_allowedLookup h).trans ⟨_, rfl⟩
  | issue => exact ⟨[.appendOrReturnExisting], rfl⟩
  | append => exact ⟨[], rfl⟩

/-- The functions of a run are a prefix of what its last call allows. -/
theorem functions_isPrefix {allowed : List AdapterEvent → AdapterCall → Prop}
    {order : List AdapterFunction} {events : List AdapterEvent}
    (hallowed : ∀ past call, allowed past call → functions past ++ [call.function] <+: order)
    (hevents : ∀ before event after, events = before ++ event :: after →
      allowed before event.request) : functions events <+: order := by
  rcases List.eq_nil_or_concat' events with rfl | ⟨before, event, rfl⟩
  · exact List.nil_prefix
  · have h := hallowed _ _ (hevents before event [] rfl)
    rwa [functions, List.map_append]

/-! ## Runs -/

/-- Admission is safe whatever the adapters answer. -/
theorem admission_safe (env : Environment) (kind : SignedDocumentKind) (documentBytes : Bytes)
    (events : List AdapterEvent) (rest : Procedure AdmittedSignedDocument) :
    (Reaches (admitFirst env kind documentBytes) events rest →
      functions events <+: [.resolve, .lookup, .issue, .appendOrReturnExisting] ∧
      (∀ before event after, events = before ++ event :: after →
        AllowedAdmission env kind documentBytes before event.request) ∧
      ∀ admitted, rest = .done (.ok admitted) →
        Admitted env kind documentBytes events admitted) ∧
    (Reaches (verifyHistoricalAdmission env kind documentBytes) events rest →
      functions events <+: [.resolve, .lookup] ∧
      (∀ before event after, events = before ++ event :: after →
        AllowedLookup env kind documentBytes before event.request) ∧
      ∀ admitted, rest = .done (.ok admitted) →
        Admitted env kind documentBytes events admitted) := by
  constructor
  · intro h
    obtain ⟨hcalls, hrest⟩ := ensures_admitFirst.of_reaches h
    refine ⟨functions_isPrefix (fun _ _ => functions_of_allowedAdmission) hcalls, hcalls, ?_⟩
    rintro admitted rfl
    exact hrest admitted rfl
  · intro h
    obtain ⟨hcalls, hrest⟩ := ensures_verifyHistoricalAdmission.of_reaches h
    refine ⟨functions_isPrefix (fun _ _ => functions_of_allowedLookup) hcalls, hcalls, ?_⟩
    rintro admitted rfl
    exact hrest admitted rfl

/-! ## The run of a first admission -/

theorem reaches_verifyDocument {opened : OpenedDocument}
    (hopened : openDocument env kind documentBytes = .ok opened)
    (response : Except Thrown KeyRegistrySnapshot) :
    Reaches (verifyDocument env kind documentBytes) [⟨.resolve opened.request, response⟩]
      (.done (completeDocument env opened response)) := by
  rw [verifyDocument, hopened]
  exact .call _ (.refl _)

theorem reaches_lookupRecord (verified : VerifiedSignedDocument)
    (lookup : Except Thrown AdmissionLookup) :
    Reaches (lookupRecord verified)
      [⟨.lookup verified.resolvedKey.organizationId verified.signingHash, lookup⟩]
      (.done (remapAdapterError lookup)) :=
  .call _ (.refl _)

theorem reaches_prepareFirstAdmission (env : Environment) (verified : VerifiedSignedDocument)
    (context : Except Thrown AdmissionContextValue) :
    Reaches (prepareFirstAdmission env verified)
      [⟨.issue verified.resolvedKey.organizationId verified.signingHash, context⟩]
      (.done (remapAdapterError context >>= prepareRecord env verified)) :=
  .call _ (.refl _)

theorem reaches_commitRecord (env : Environment) (prepared : PreparedFirstAdmission)
    (verified : VerifiedSignedDocument) (committed : Except Thrown AuthenticatedAdmissionRecord) :
    Reaches (commitRecord env prepared verified)
      [⟨.appendOrReturnExisting verified.resolvedKey.organizationId verified.signingHash
        prepared.record.bytes, committed⟩]
      (.done (remapAdapterError (committed >>= fun record =>
        validateAuthenticatedRecord env record verified))) :=
  .call _ (.refl _)

/-- A log without the record that commits what was prepared. -/
theorem reaches_admitFirst {response : Except Thrown KeyRegistrySnapshot}
    {verified : VerifiedSignedDocument} {context : AdmissionContextValue}
    {prepared : PreparedFirstAdmission} {committed : AuthenticatedAdmissionRecord}
    {admitted : AdmittedSignedDocument}
    (hverified : VerifiesWith env kind documentBytes response verified)
    (hprepared : prepareRecord env verified context = .ok prepared)
    (hadmitted : validateAuthenticatedRecord env committed verified = .ok admitted) :
    ∃ request, Reaches (admitFirst env kind documentBytes)
      [⟨.resolve request, response⟩,
        ⟨.lookup verified.resolvedKey.organizationId verified.signingHash,
          .ok .authoritativeAbsence⟩,
        ⟨.issue verified.resolvedKey.organizationId verified.signingHash, .ok context⟩,
        ⟨.appendOrReturnExisting verified.resolvedKey.organizationId verified.signingHash
          prepared.record.bytes, .ok committed⟩]
      (.done (.ok admitted)) := by
  obtain ⟨opened, hopened, hcomplete⟩ := Except.bind_eq_ok.mp hverified
  have hverify := reaches_verifyDocument hopened response
  have hlookup := reaches_lookupRecord verified (.ok .authoritativeAbsence)
  have hprepare := reaches_prepareFirstAdmission env verified (.ok context)
  have hcommit := reaches_commitRecord env prepared verified (.ok committed)
  rw [hcomplete] at hverify
  rw [remapAdapterError_eq_ok.mpr rfl, Except.ok_bind, hprepared] at hprepare
  rw [Except.ok_bind, hadmitted] at hcommit
  exact ⟨opened.request, hverify.andThen (hlookup.andThen (hprepare.andThen hcommit))⟩

/-! ## A sample -/

def sampleContext (trustedAcceptedAt : String) : AdmissionContextValue where
  admissionRecordId := ascii "urn:mwp:admission-record:one"
  trustedAcceptedAt := ascii trustedAcceptedAt
  acceptedBy := ⟨ascii "service", ascii "urn:mwp:service:admission"⟩

/-- The preparation of the sample, without the scanner in front of the decoder. -/
def samplePreparation (trustedAcceptedAt : String) :
    Except Thrown (SignedDocumentKind × Bool × Bool) := do
  let context := sampleContext trustedAcceptedAt
  let verified ← referenceVerify sampleEnvironment .evidence (sampleEvidence "9007199254740993")
    Registry.sampleRegistry
  let accepted ← parseInstant context.trustedAcceptedAt
  let canonical ← Canonical.canonicalJson (recordJson verified context)
  let value ← referenceParse canonical
  let parsed ← readRecord sampleEnvironment canonical value
  validateBindings parsed verified context.acceptedBy
  .ok (verified.kind, outsideKeyInterval verified.resolvedKey accepted,
    parsed.trustedAcceptedInstant.equals accepted)

/-- The sample is admitted when the log commits what was prepared for it. -/
theorem exists_prepared_sample {trustedAcceptedAt : String}
    (hok : samplePreparation trustedAcceptedAt = .ok (.evidence, false, true)) :
    ∃ verified prepared committed admitted,
      VerifiesWith sampleEnvironment .evidence (sampleEvidence "9007199254740993")
        (.ok ⟨Registry.sampleRegistry, .organizationWide⟩) verified ∧
      prepareRecord sampleEnvironment verified (sampleContext trustedAcceptedAt) = .ok prepared ∧
      committed.recordBytes = prepared.record.bytes ∧
      validateAuthenticatedRecord sampleEnvironment committed verified = .ok admitted := by
  obtain ⟨verified, hverified, hok⟩ := Except.bind_eq_ok.mp hok
  obtain ⟨accepted, haccepted, hok⟩ := Except.bind_eq_ok.mp hok
  obtain ⟨canonical, hcanonical, hok⟩ := Except.bind_eq_ok.mp hok
  obtain ⟨value, hvalue, hok⟩ := Except.bind_eq_ok.mp hok
  obtain ⟨parsed, hparsed, hok⟩ := Except.bind_eq_ok.mp hok
  obtain ⟨⟨⟩, hbindings, hok⟩ := Except.bind_eq_ok.mp hok
  obtain ⟨hkind, hok⟩ := Prod.mk.inj (Except.ok.inj hok)
  obtain ⟨hinterval, hequal⟩ := Prod.mk.inj hok
  have hrecord : parseRecord sampleEnvironment canonical = .ok parsed := by
    rw [parseRecord, failSchemaInvalid_eq_ok, Except.bind_eq_ok]
    exact ⟨value, parseStrictJson_reference hvalue, hparsed⟩
  have hprepared : prepareRecord sampleEnvironment verified (sampleContext trustedAcceptedAt) =
      .ok ⟨verified, parsed.record⟩ := by
    rw [prepareRecord, haccepted, catchException, Except.ok_bind, hinterval,
      if_neg Bool.false_ne_true, hcanonical, catchException, Except.ok_bind, hrecord,
      Except.ok_bind, hbindings, Except.ok_bind, if_neg (not_not.mpr hequal)]
  obtain ⟨_, hprepares⟩ := prepares_of_prepareRecord hprepared
  have hself : isEventSelfAnchoring sampleEnvironment parsed.record.bytes verified = .ok false := by
    rw [isEventSelfAnchoring, if_pos (by simp [hkind])]
  obtain ⟨committed, hbytes, _, hadmits⟩ := hprepares.admits hself
  exact ⟨verified, ⟨verified, parsed.record⟩, committed, ⟨verified, parsed.record⟩,
    verify_of_referenceVerify rfl hverified, hprepared, hbytes,
    validateAuthenticatedRecord_eq_ok.mpr ⟨rfl, hadmits⟩⟩

theorem samplePreparation_eq_ok :
    samplePreparation "2026-07-16T01:05:00Z" = .ok (.evidence, false, true) := by
  decide +kernel

theorem admission_safe_sample :
    ∃ events admitted,
      Reaches (admitFirst sampleEnvironment .evidence (sampleEvidence "9007199254740993"))
        events (.done (.ok admitted)) ∧
      functions events = [.resolve, .lookup, .issue, .appendOrReturnExisting] ∧
      Admitted sampleEnvironment .evidence (sampleEvidence "9007199254740993") events
        admitted := by
  obtain ⟨verified, prepared, committed, admitted, hverified, hprepared, _, hadmitted⟩ :=
    exists_prepared_sample samplePreparation_eq_ok
  obtain ⟨request, h⟩ := reaches_admitFirst hverified hprepared hadmitted
  exact ⟨_, admitted, h, rfl, ((admission_safe _ _ _ _ _).1 h).2.2 admitted rfl⟩

end

end MissionWeave.AdmissionService
