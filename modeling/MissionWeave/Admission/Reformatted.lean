import MissionWeave.Admission.Permanence
import MissionWeave.Admission.Stability
import MissionWeave.SignedDocument.Reformatted

/-!
# Admission of one document in several texts

The two functions of the service make the same calls for all texts of a document
that is verified, and they end alike.

* `admission_reformatted`: a run on one text is a run on the others.
-/

namespace MissionWeave

/-- The admission of the document in another text. -/
def AdmittedSignedDocument.inText (admitted : AdmittedSignedDocument) (document : Json)
    (documentBytes : Bytes) : AdmittedSignedDocument :=
  { admitted with verified := admitted.verified.inText document documentBytes }

/-- A record that was prepared for the document in another text. -/
def PreparedFirstAdmission.inText (prepared : PreparedFirstAdmission) (document : Json)
    (documentBytes : Bytes) : PreparedFirstAdmission :=
  { prepared with verified := prepared.verified.inText document documentBytes }

namespace AdmissionService

open Interaction
open SignedDocumentCodec

section

variable {env : Environment} {kind : SignedDocumentKind} {documentBytes documentBytes' : Bytes}
  {document : Json} {verified : VerifiedSignedDocument} {events : List AdapterEvent}

/-! ## Up to the lookup -/

/-- Verification returns after the one call that it makes. -/
theorem opens_of_reaches
    (h : Reaches (verifyDocument env kind documentBytes) events (.done (.ok verified))) :
    ∃ opened response, Opens env kind documentBytes opened ∧
      Completes env opened response verified ∧ events = [⟨.resolve opened.request, response⟩] := by
  unfold verifyDocument at h
  cases hopened : openDocument env kind documentBytes with
  | error thrown =>
    rw [hopened] at h
    cases h
  | ok opened =>
    rw [hopened] at h
    generalize hdone : (Program.done (.ok verified) : Procedure VerifiedSignedDocument) = rest at h
    cases h with
    | refl => cases hdone
    | call response tail =>
      cases tail
      exact ⟨opened, response, openDocument_eq_ok.mp hopened,
        completeDocument_eq_ok.mp (Program.done.inj hdone).symm, rfl⟩

/-- The verification of another text makes the same call. -/
theorem reaches_inText (hparse : DecodesJson env.jsonParse)
    (hdata : DependsOnNarrowData env.validate) (hasserts : AssertsSignatures env.validate)
    (hdocument : env.parseStrictJson documentBytes' = .ok document)
    (hsame : Json.SameNarrowData document verified.document)
    (h : Reaches (verifyDocument env kind documentBytes) events (.done (.ok verified))) :
    Reaches (verifyDocument env kind documentBytes') events
      (.done (.ok (verified.inText document documentBytes'))) := by
  obtain ⟨opened, response, hopens, hcompletes, rfl⟩ := opens_of_reaches h
  have hopens' := hopens.inText hparse hdata hasserts hcompletes hdocument hsame
  have hreaches := reaches_verifyDocument (openDocument_eq_ok.mpr hopens') response
  rwa [completeDocument_eq_ok.mpr (hcompletes.inText hsame.sameData)] at hreaches

/-! ## Records -/

/-- The received bytes need no comparison of their own, as they are parsed to what
the canonical bytes are written from. -/
theorem isEventSelfAnchoring_eq (recordBytes : Bytes)
    (hreceived : env.parseStrictJson verified.receivedBytes = .ok verified.document)
    (hcanonical : Canonical.canonicalJson verified.document = .ok verified.canonicalBytes) :
    isEventSelfAnchoring env recordBytes verified =
      if verified.kind ≠ .event then .ok false
      else
        catchException
          (do
            let value ← env.parseStrictJson recordBytes
            let canonical ← Canonical.canonicalJson value
            .ok (canonical == verified.canonicalBytes))
          fun _ => .ok false := by
  rw [isEventSelfAnchoring]
  split_ifs with hkind hrecord
  · rfl
  · rw [hrecord, hreceived, Except.ok_bind, hcanonical, Except.ok_bind, catchException,
      beq_self_eq_true]
  · rfl

theorem validateAuthenticatedRecord_inText (authenticated : AuthenticatedAdmissionRecord)
    (hreceived : env.parseStrictJson verified.receivedBytes = .ok verified.document)
    (hcanonical : Canonical.canonicalJson verified.document = .ok verified.canonicalBytes)
    (hdocument : env.parseStrictJson documentBytes' = .ok document)
    (hsame : Json.SameData document verified.document) :
    validateAuthenticatedRecord env authenticated (verified.inText document documentBytes') =
      (validateAuthenticatedRecord env authenticated verified).map
        (·.inText document documentBytes') := by
  have hcanonical' : Canonical.canonicalJson document = .ok verified.canonicalBytes :=
    (Canonical.serialize_congr hsame).trans hcanonical
  rw [validateAuthenticatedRecord, validateAuthenticatedRecord,
    isEventSelfAnchoring_eq _ hreceived hcanonical, isEventSelfAnchoring_eq _ hdocument hcanonical',
    Except.map_bind]
  refine congrArg _ (funext fun selfAnchoring => ?_)
  cases selfAnchoring with
  | true => rfl
  | false =>
    simp only [Bool.false_eq_true, if_false, Except.map_bind]
    rfl

theorem prepareRecord_inText (context : AdmissionContextValue) :
    prepareRecord env (verified.inText document documentBytes') context =
      (prepareRecord env verified context).map (·.inText document documentBytes') := by
  rw [prepareRecord, prepareRecord, Except.map_bind]
  refine congrArg _ (funext fun accepted => ?_)
  rw [apply_ite (Except.map _)]
  refine if_congr Iff.rfl rfl ?_
  simp only [Except.map_bind]
  refine congrArg _ (funext fun canonical => congrArg _ (funext fun parsed =>
    congrArg _ (funext fun _ => ?_)))
  rw [apply_ite (Except.map _)]
  rfl

theorem remapAdapterError_map {α β : Type} (g : α → β) (result : Except Thrown α) :
    remapAdapterError (result.map g) = (remapAdapterError result).map g := by
  cases result with
  | ok value => rfl
  | error thrown => cases thrown <;> rfl

theorem commitRecord_inText (prepared : PreparedFirstAdmission)
    (hreceived : env.parseStrictJson verified.receivedBytes = .ok verified.document)
    (hcanonical : Canonical.canonicalJson verified.document = .ok verified.canonicalBytes)
    (hdocument : env.parseStrictJson documentBytes' = .ok document)
    (hsame : Json.SameData document verified.document) :
    commitRecord env (prepared.inText document documentBytes')
        (verified.inText document documentBytes') =
      (commitRecord env prepared verified).map (Except.map (·.inText document documentBytes')) := by
  refine congrArg (Program.call _) (funext fun committed => ?_)
  refine congrArg Program.done ?_
  rw [← remapAdapterError_map, Except.map_bind]
  simp only [validateAuthenticatedRecord_inText _ hreceived hcanonical hdocument hsame]

/-! ## From the verified document on -/

/-- `admit_first` from the verified document on. -/
def admitVerified (env : Environment) (verified : VerifiedSignedDocument) :
    Procedure AdmittedSignedDocument :=
  (lookupRecord verified).andThen fun lookup =>
    match lookup.record with
    | some record => .done (validateAuthenticatedRecord env record verified)
    | none =>
      if ¬lookup.isAuthoritativeAbsence then .done (fail .logIndeterminate)
      else (prepareFirstAdmission env verified).andThen fun prepared =>
        commitRecord env prepared verified

/-- `verify_historical_admission` from the verified document on. -/
def admittedVerified (env : Environment) (verified : VerifiedSignedDocument) :
    Procedure AdmittedSignedDocument :=
  (lookupRecord verified).andThen fun lookup =>
    match lookup.record with
    | some record => .done (validateAuthenticatedRecord env record verified)
    | none =>
      if lookup.isAuthoritativeAbsence then .done (fail .recordMissing)
      else .done (fail .logIndeterminate)

theorem admitVerified_inText
    (hreceived : env.parseStrictJson verified.receivedBytes = .ok verified.document)
    (hcanonical : Canonical.canonicalJson verified.document = .ok verified.canonicalBytes)
    (hdocument : env.parseStrictJson documentBytes' = .ok document)
    (hsame : Json.SameData document verified.document) :
    admitVerified env (verified.inText document documentBytes') =
      (admitVerified env verified).map (Except.map (·.inText document documentBytes')) := by
  refine Program.andThen_eq_map fun lookup => ?_
  cases lookup.record with
  | some record =>
    exact congrArg Program.done
      (validateAuthenticatedRecord_inText record hreceived hcanonical hdocument hsame)
  | none =>
    dsimp only
    rw [apply_ite (Program.map _)]
    refine if_congr Iff.rfl rfl ?_
    have hprepare : prepareFirstAdmission env (verified.inText document documentBytes') =
        (prepareFirstAdmission env verified).map
          (Except.map (·.inText document documentBytes')) := by
      refine congrArg (Program.call _) (funext fun context => congrArg Program.done ?_)
      rw [Except.map_bind]
      exact congrArg _ (funext fun issued => prepareRecord_inText issued)
    rw [hprepare, Program.map_andThen]
    exact Program.andThen_eq_map fun prepared =>
      commitRecord_inText prepared hreceived hcanonical hdocument hsame

theorem admittedVerified_inText
    (hreceived : env.parseStrictJson verified.receivedBytes = .ok verified.document)
    (hcanonical : Canonical.canonicalJson verified.document = .ok verified.canonicalBytes)
    (hdocument : env.parseStrictJson documentBytes' = .ok document)
    (hsame : Json.SameData document verified.document) :
    admittedVerified env (verified.inText document documentBytes') =
      (admittedVerified env verified).map (Except.map (·.inText document documentBytes')) := by
  refine Program.andThen_eq_map fun lookup => ?_
  cases lookup.record with
  | some record =>
    exact congrArg Program.done
      (validateAuthenticatedRecord_inText record hreceived hcanonical hdocument hsame)
  | none =>
    dsimp only
    rw [apply_ite (Program.map _)]
    rfl

/-- A run that goes on behind the verification does so for another text. -/
theorem reaches_andThen_inText (hparse : DecodesJson env.jsonParse)
    (hdata : DependsOnNarrowData env.validate) (hasserts : AssertsSignatures env.validate)
    {document' : Json} (hdocument : env.parseStrictJson documentBytes = .ok document)
    (hdocument' : env.parseStrictJson documentBytes' = .ok document')
    (hsame : Json.SameNarrowData document' document)
    {f : VerifiedSignedDocument → Procedure AdmittedSignedDocument}
    (hf : ∀ verified, env.parseStrictJson verified.receivedBytes = .ok verified.document →
      Canonical.canonicalJson verified.document = .ok verified.canonicalBytes →
      Json.SameData document' verified.document →
        f (verified.inText document' documentBytes') =
          (f verified).map (Except.map (·.inText document' documentBytes')))
    {result : Except Thrown AdmittedSignedDocument} (hasked : 2 ≤ events.length)
    (h : Reaches ((verifyDocument env kind documentBytes).andThen f) events (.done result)) :
    Reaches ((verifyDocument env kind documentBytes').andThen f) events
      (.done (result.map (·.inText document' documentBytes'))) := by
  rcases h.of_andThen with ⟨thrown, hverify, _⟩ | ⟨verified, before, after, rfl, hverify, hafter⟩
  · rcases events_of_reaches_verifyDocument hverify with ⟨rfl, _⟩ | ⟨_, _, rfl, _⟩
    · simp at hasked
    · simp at hasked
  · obtain ⟨opened, response, hopens, hcompletes, _⟩ := opens_of_reaches hverify
    have hauthentic : Authentic env kind documentBytes (fun _ => response) verified :=
      authentic_of_opens hopens hcompletes
    have hread : verified.document = document := by
      have hparsed := hauthentic.parsed
      rw [hdocument] at hparsed
      exact (Except.ok.inj hparsed).symm
    have hsame' : Json.SameNarrowData document' verified.document := hread ▸ hsame
    refine (reaches_inText hparse hdata hasserts hdocument' hsame' hverify).andThen ?_
    rw [hf verified (by rw [hauthentic.receivedBytes, hauthentic.parsed]) hauthentic.canonicalBytes
      hsame'.sameData]
    exact hafter.map _

end

end AdmissionService

end MissionWeave
