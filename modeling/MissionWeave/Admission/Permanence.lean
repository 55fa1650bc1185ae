import MissionWeave.Admission.Agreement
import MissionWeave.Canonical.Hash
import MissionWeave.SignedDocument.TamperEvidence

/-!
# What an admission settles

Once a call has returned for a document, the log has the record of the document,
in all interleavings of the calls.

* `admitted_again`: every later call on the document returns the same record, as
  long as the key is resolved to the same principal and its validity covers the
  accepted instant.
* `record_of_one_document`: a record is that of one document.
-/

namespace MissionWeave.AdmissionService

open ContentAddress (Collide)
open Interaction
open SignedDocumentCodec

section

variable {env : Environment} {kind : SignedDocumentKind} {documentBytes : Bytes}
  {events : List AdapterEvent} {result : Except Thrown AdmittedSignedDocument}
  {verified : VerifiedSignedDocument} {request : KeyResolutionRequest}
  {response : Except Thrown KeyRegistrySnapshot}

/-! ## The end of a call -/

/-- Verification ends with the answer of the resolver, if it asks for it. -/
theorem events_of_reaches_verifyDocument {outcome : Except Thrown VerifiedSignedDocument}
    (h : Reaches (verifyDocument env kind documentBytes) events (.done outcome)) :
    (events = [] ∧ ∀ verified, outcome ≠ .ok verified) ∨
      ∃ request response, events = [⟨.resolve request, response⟩] ∧
        verify env kind documentBytes (fun _ => response) = outcome := by
  unfold verifyDocument at h
  cases hopened : openDocument env kind documentBytes with
  | error thrown =>
    rw [hopened] at h
    cases h
    exact .inl ⟨rfl, nofun⟩
  | ok opened =>
    rw [hopened] at h
    cases h with
    | call response tail =>
      cases tail
      refine .inr ⟨opened.request, response, rfl, ?_⟩
      rw [verify, hopened, Except.ok_bind]

theorem events_of_reaches_lookupRecord {outcome : Except Thrown AdmissionLookup}
    (h : Reaches (lookupRecord verified) events (.done outcome)) :
    ∃ lookup, remapAdapterError lookup = outcome ∧ events =
      [⟨.lookup verified.resolvedKey.organizationId verified.signingHash, lookup⟩] := by
  cases h with
  | call lookup tail =>
    cases tail
    exact ⟨lookup, rfl, rfl⟩

/-- A call whose document is verified asks the log for its key, and throws what
the log throws or goes on with what it has found. -/
theorem events_of_reaches {f : VerifiedSignedDocument → AdmissionLookup →
      Procedure AdmittedSignedDocument}
    (h : Reaches ((verifyDocument env kind documentBytes).andThen fun verified =>
      (lookupRecord verified).andThen fun lookup => f verified lookup) events (.done result))
    (hfirst : events.head? = some ⟨.resolve request, response⟩)
    (hverifies : VerifiesWith env kind documentBytes response verified) :
    ∃ lookup rest, events = ⟨.resolve request, response⟩ ::
        ⟨.lookup verified.resolvedKey.organizationId verified.signingHash, lookup⟩ :: rest ∧
      (∀ thrown, lookup = .error thrown → rest = []) ∧
      ∀ found, lookup = .ok found → Reaches (f verified found) rest (.done result) := by
  rw [VerifiesWith] at hverifies
  rcases h.of_andThen with ⟨thrown, hverify, _⟩ | ⟨value, before, after, rfl, hverify, hafter⟩
  · rcases events_of_reaches_verifyDocument hverify with ⟨rfl, _⟩ | ⟨_, _, rfl, houtcome⟩
    · cases hfirst
    · cases hfirst
      rw [houtcome] at hverifies
      cases hverifies
  · rcases events_of_reaches_verifyDocument hverify with ⟨_, hnone⟩ | ⟨_, _, rfl, houtcome⟩
    · exact absurd rfl (hnone value)
    · cases hfirst
      rw [houtcome] at hverifies
      obtain rfl := Except.ok.inj hverifies
      rcases hafter.of_andThen with ⟨thrown, hlookup, _⟩ | ⟨found, asked, rest, rfl, hlookup, hrest⟩
      · obtain ⟨lookup, hremap, rfl⟩ := events_of_reaches_lookupRecord hlookup
        refine ⟨lookup, [], rfl, fun _ _ => rfl, ?_⟩
        rintro found rfl
        cases hremap
      · obtain ⟨lookup, hremap, rfl⟩ := events_of_reaches_lookupRecord hlookup
        obtain rfl := remapAdapterError_eq_ok.mp hremap
        refine ⟨.ok found, rest, rfl, ?_, ?_⟩
        · intro thrown herror
          cases herror
        · intro found' hfound
          rwa [← Except.ok.inj hfound]

/-- The session is one of the two calls on the document. -/
def CallsOn (env : Environment) (kind : SignedDocumentKind) (documentBytes : Bytes)
    (session : AdmissionSession) : Prop :=
  session.program = admitFirst env kind documentBytes ∨
    session.program = verifyHistoricalAdmission env kind documentBytes

/-- A call that finds a record ends with its validation. -/
theorem result_of_found {session : AdmissionSession} {authenticated : AuthenticatedAdmissionRecord}
    (hcalls : CallsOn env kind documentBytes session)
    (hreaches : Reaches session.program session.events (.done result))
    (hfirst : session.events.head? = some ⟨.resolve request, response⟩)
    (hverifies : VerifiesWith env kind documentBytes response verified)
    (hfound : ∀ lookup, (⟨.lookup verified.resolvedKey.organizationId verified.signingHash,
      .ok lookup⟩ : AdapterEvent) ∈ session.events → lookup.record = some authenticated) :
    functions session.events = [.resolve, .lookup] ∧
      ((∀ thrown, (⟨.lookup verified.resolvedKey.organizationId verified.signingHash,
          .error thrown⟩ : AdapterEvent) ∉ session.events) →
        result = validateAuthenticatedRecord env authenticated verified) := by
  obtain ⟨program, events, rest⟩ := session
  have hdone {f : VerifiedSignedDocument → AdmissionLookup → Procedure AdmittedSignedDocument}
      (hf : ∀ lookup, lookup.record = some authenticated →
        f verified lookup = .done (validateAuthenticatedRecord env authenticated verified))
      (h : Reaches ((verifyDocument env kind documentBytes).andThen fun verified =>
        (lookupRecord verified).andThen fun lookup => f verified lookup) events (.done result)) :
      functions events = [.resolve, .lookup] ∧
        ((∀ thrown, (⟨.lookup verified.resolvedKey.organizationId verified.signingHash,
            .error thrown⟩ : AdapterEvent) ∉ events) →
          result = validateAuthenticatedRecord env authenticated verified) := by
    obtain ⟨lookup, after, rfl, herror, hok⟩ := events_of_reaches h hfirst hverifies
    cases lookup with
    | error thrown =>
      rw [herror thrown rfl]
      exact ⟨rfl, fun hnone => absurd (List.mem_cons_of_mem _ List.mem_cons_self) (hnone thrown)⟩
    | ok lookup =>
      have hreaches := hok lookup rfl
      rw [hf lookup (hfound lookup (List.mem_cons_of_mem _ List.mem_cons_self))] at hreaches
      cases hreaches
      exact ⟨rfl, fun _ => rfl⟩
  rcases hcalls with hprogram | hprogram
  · simp only at hprogram hreaches
    rw [hprogram] at hreaches
    refine hdone ?_ hreaches
    intro lookup hrecord
    rw [hrecord]
  · simp only at hprogram hreaches
    rw [hprogram] at hreaches
    refine hdone ?_ hreaches
    intro lookup hrecord
    rw [hrecord]

/-! ## Later calls -/

/-- What a call on the document has established when it returns. -/
theorem admitted_of_callsOn {session : AdmissionSession} {admitted : AdmittedSignedDocument}
    (hcalls : CallsOn env kind documentBytes session)
    (hreaches : Reaches session.program session.events session.rest)
    (hreturned : Returned session admitted) :
    Admitted env kind documentBytes session.events admitted := by
  rw [Returned] at hreturned
  rw [hreturned] at hreaches
  rcases hcalls with hprogram | hprogram
  · rw [hprogram] at hreaches
    exact (ensures_admitFirst.of_reaches hreaches).2 admitted rfl
  · rw [hprogram] at hreaches
    exact (ensures_verifyHistoricalAdmission.of_reaches hreaches).2 admitted rfl

/-- Two verifications of one document differ in the resolved key only. -/
theorem eq_of_verifiesWith {response' : Except Thrown KeyRegistrySnapshot}
    {verified' : VerifiedSignedDocument} (h : VerifiesWith env kind documentBytes response verified)
    (h' : VerifiesWith env kind documentBytes response' verified') :
    verified' = { verified with resolvedKey := verified'.resolvedKey } ∧
      verified'.resolvedKey.keyId = verified.resolvedKey.keyId := by
  obtain ⟨opened, hopens, hcompletes⟩ := verify_eq_ok.mp h
  obtain ⟨opened', hopens', hcompletes'⟩ := verify_eq_ok.mp h'
  obtain rfl : opened = opened' := by
    rw [← openDocument_eq_ok] at hopens hopens'
    exact Except.ok.inj (hopens.symm.trans hopens')
  have hauthentic : Authentic env kind documentBytes (fun _ => response) verified :=
    authentic_of_opens hopens hcompletes
  have hauthentic' : Authentic env kind documentBytes (fun _ => response') verified' :=
    authentic_of_opens hopens' hcompletes'
  refine ⟨hcompletes.eq_of_opened hcompletes', ?_⟩
  rw [hauthentic.keyId, hauthentic'.keyId, hcompletes.signature, hcompletes'.signature]

/-- The record admits the document with another resolution of its key when that
is of the same principal and covers the accepted instant. -/
theorem Admits.of_verifiesWith {authenticated : AuthenticatedAdmissionRecord}
    {record : FirstAdmissionRecord} {verified' : VerifiedSignedDocument}
    (h : Admits env authenticated verified record)
    (heq : verified' = { verified with resolvedKey := verified'.resolvedKey })
    (hkeyId : verified'.resolvedKey.keyId = verified.resolvedKey.keyId)
    (horganization : verified'.resolvedKey.organizationId = verified.resolvedKey.organizationId) :
    Admits env authenticated verified' record ↔
      verified'.resolvedKey.principal = verified.resolvedKey.principal ∧
        verified'.resolvedKey.ValidAt record.trustedAcceptedInstant := by
  constructor
  · intro h'
    exact ⟨h'.binds.principal.symm.trans h.binds.principal, h'.binds.valid⟩
  · rintro ⟨hprincipal, hvalid⟩
    have hkind : verified'.kind = verified.kind := by rw [heq]
    have hsigningHash : verified'.signingHash = verified.signingHash := by rw [heq]
    refine ⟨h.parses, ⟨?_, ?_, ?_, ?_, ?_, h.binds.acceptedBy, hvalid⟩, ?_⟩
    · rw [horganization, h.binds.organizationId]
    · rw [hkind, h.binds.documentKind]
    · rw [hsigningHash, h.binds.signingHash]
    · rw [hkeyId, h.binds.keyId]
    · rw [hprincipal, h.binds.principal]
    · rw [heq]
      exact h.notSelfAnchoring

end

/-- Once a call has returned for a document, every later call on the document
that is verified in the same organization makes no call but the two that read,
and unless the log throws, it returns the same record exactly if its key is
resolved to the same principal and is valid at the accepted instant. -/
theorem admitted_again (env : Environment) (initial : AdmissionLog) (state state' : SystemState)
    (hbefore : Run (Starts env) Serves (initialState initial) state)
    (hafter : Run (Starts env) Serves state state') (kind : SignedDocumentKind)
    (documentBytes : Bytes) (first : AdmissionSession) (hfirst : first ∈ state.sessions)
    (hcalls : CallsOn env kind documentBytes first) (admitted : AdmittedSignedDocument)
    (hreturned : Returned first admitted) (i : Nat) (hi : state.sessions.length ≤ i)
    (later : AdmissionSession) (hlater : state'.sessions[i]? = some later)
    (hcalls' : CallsOn env kind documentBytes later)
    (result : Except Thrown AdmittedSignedDocument) (hdone : later.rest = .done result)
    (request : KeyResolutionRequest) (response : Except Thrown KeyRegistrySnapshot)
    (hresolve : later.events.head? = some ⟨.resolve request, response⟩)
    (verified : VerifiedSignedDocument)
    (hverifies : VerifiesWith env kind documentBytes response verified)
    (horganization : verified.resolvedKey.organizationId =
      admitted.verified.resolvedKey.organizationId) :
    functions later.events = [.resolve, .lookup] ∧
      ((∀ thrown, (⟨.lookup verified.resolvedKey.organizationId verified.signingHash,
          .error thrown⟩ : AdapterEvent) ∉ later.events) →
        (result = .ok ⟨verified, admitted.record⟩ ↔
          verified.resolvedKey.principal = admitted.verified.resolvedKey.principal ∧
            verified.resolvedKey.ValidAt admitted.record.trustedAcceptedInstant)) := by
  have hrun : Run (Starts env) Serves (initialState initial) state' := hbefore.trans hafter
  have hadmitted := admitted_of_callsOn hcalls (sessionsRun_of_run hbefore first hfirst).2 hreturned
  obtain ⟨_, _, _, hverified⟩ := hadmitted.verified
  obtain ⟨authenticated, ⟨event, hevent, hrecord⟩, hadmits⟩ := hadmitted.logged
  have hstored := stored_of_run hbefore first hfirst event hevent _ _ hrecord
  obtain ⟨heq, hkeyId⟩ := eq_of_verifiesWith hverified hverifies
  have hkey : (verified.resolvedKey.organizationId, verified.signingHash) =
      logKey admitted.verified := by
    rw [logKey, horganization, heq]
  have hmem := List.mem_of_getElem? hlater
  -- the lookup finds what the first call has left in the log
  have hfound : ∀ lookup, (⟨.lookup verified.resolvedKey.organizationId verified.signingHash,
      .ok lookup⟩ : AdapterEvent) ∈ later.events → lookup.record = some authenticated := by
    rintro ⟨record⟩ hlookup
    have habsent := absentKey_ne_of_run hafter hstored hi hlater _ hlookup
    cases record with
    | none => exact absurd (by rw [absentKey, hkey]) habsent
    | some record =>
      have hlog := stored_of_run hrun later hmem _ hlookup _ record rfl
      rw [hkey, (grows_of_run hafter).1.lookup_eq_some hstored] at hlog
      exact hlog.symm
  have hreaches := (sessionsRun_of_run hrun later hmem).2
  rw [hdone] at hreaches
  obtain ⟨hfunctions, hresult⟩ := result_of_found hcalls' hreaches hresolve hverifies hfound
  refine ⟨hfunctions, fun hnone => ?_⟩
  rw [hresult hnone, validateAuthenticatedRecord_eq_ok, and_iff_right rfl]
  exact hadmits.of_verifiesWith heq hkeyId horganization

/-! ## One document for a record -/

section

variable {env : Environment} {initial : AdmissionLog} {state : SystemState}

/-- What the log has under the key of a call that has returned admits the
document of the call, which is authentic. -/
theorem admits_of_returned (h : Run (Starts env) Serves (initialState initial) state)
    {session : AdmissionSession} (hsession : session ∈ state.sessions)
    {admitted : AdmittedSignedDocument} (hreturned : Returned session admitted) :
    (∃ authenticated, state.shared.lookup (logKey admitted.verified) = some authenticated ∧
      Admits env authenticated admitted.verified admitted.record) ∧
    ∃ kind receivedBytes resolver,
      Authentic env kind receivedBytes resolver admitted.verified := by
  obtain ⟨hstarts, hreaches⟩ := sessionsRun_of_run h session hsession
  obtain ⟨kind, documentBytes, hadmitted⟩ := admitted_of_returned hstarts hreaches hreturned
  obtain ⟨authenticated, ⟨event, hevent, hrecord⟩, hadmits⟩ := hadmitted.logged
  obtain ⟨_, response, _, hverified⟩ := hadmitted.verified
  obtain ⟨_, hopens, hcompletes⟩ := verify_eq_ok.mp hverified
  exact ⟨⟨authenticated, stored_of_run h session hsession event hevent _ _ hrecord, hadmits⟩,
    kind, documentBytes, fun _ => response, authentic_of_opens hopens hcompletes⟩

end

/-- A record is that of one document, however the calls are interleaved: two
calls that return for one key of the log return one record, have admitted
documents of one kind, signed by one key of one principal, and these have the
same data outside their signatures, or the digests of their signing bytes
collide. -/
theorem record_of_one_document (env : Environment) (hparse : DecodesJson env.jsonParse)
    (initial : AdmissionLog) (state : SystemState)
    (hrun : Run (Starts env) Serves (initialState initial) state)
    (first second : AdmissionSession) (hfirst : first ∈ state.sessions)
    (hsecond : second ∈ state.sessions) (admitted admitted' : AdmittedSignedDocument)
    (hreturned : Returned first admitted) (hreturned' : Returned second admitted')
    (hkey : logKey admitted.verified = logKey admitted'.verified) :
    admitted.record = admitted'.record ∧ admitted.verified.kind = admitted'.verified.kind ∧
      admitted.verified.resolvedKey.keyId = admitted'.verified.resolvedKey.keyId ∧
      admitted.verified.resolvedKey.principal = admitted'.verified.resolvedKey.principal ∧
      (Json.SameData (admitted.verified.document.erase "signature")
          (admitted'.verified.document.erase "signature") ∨
        Collide env.evpDigest admitted.verified.signingBytes admitted'.verified.signingBytes) := by
  obtain ⟨⟨authenticated, hstored, hadmits⟩, _, _, _, hauthentic⟩ :=
    admits_of_returned hrun hfirst hreturned
  obtain ⟨⟨authenticated', hstored', hadmits'⟩, _, _, _, hauthentic'⟩ :=
    admits_of_returned hrun hsecond hreturned'
  rw [hkey, hstored', Option.some.injEq] at hstored
  subst hstored
  have hrecord := hadmits.parses.unique hadmits'.parses
  have hhash := hauthentic'.signingHash
  rw [← (Prod.mk.inj hkey).2] at hhash
  refine ⟨hrecord, ?_, ?_, ?_, ?_⟩
  · rw [← hadmits.binds.documentKind, hrecord, hadmits'.binds.documentKind]
  · rw [← hadmits.binds.keyId, hrecord, hadmits'.binds.keyId]
  · rw [← hadmits.binds.principal, hrecord, hadmits'.binds.principal]
  · exact (Canonical.sha256_eq_or_collide hauthentic.signingHash hhash).imp_left
      (sameData_of_authentic hparse hauthentic hauthentic')

/-! ## A sample -/

/-- A call that finds a record for its document. -/
theorem reaches_found {env : Environment} {kind : SignedDocumentKind} {documentBytes : Bytes}
    {response : Except Thrown KeyRegistrySnapshot} {verified : VerifiedSignedDocument}
    {authenticated : AuthenticatedAdmissionRecord} {admitted : AdmittedSignedDocument}
    (hverified : VerifiesWith env kind documentBytes response verified)
    (hadmitted : validateAuthenticatedRecord env authenticated verified = .ok admitted) :
    ∃ request, Reaches (verifyHistoricalAdmission env kind documentBytes)
      [⟨.resolve request, response⟩,
        ⟨.lookup verified.resolvedKey.organizationId verified.signingHash,
          .ok (.found authenticated)⟩]
      (.done (.ok admitted)) := by
  obtain ⟨opened, hopened, hcomplete⟩ := Except.bind_eq_ok.mp hverified
  have hverify := reaches_verifyDocument hopened response
  have hlookup := reaches_lookupRecord verified (.ok (.found authenticated))
  rw [hcomplete] at hverify
  rw [← hadmitted]
  exact ⟨opened.request, hverify.andThen (hlookup.andThen (.refl _))⟩

/-- The sample is admitted, and then a second call on it is served. -/
theorem exists_run_sample :
    ∃ state state' first later admitted request,
      Run (Starts sampleEnvironment) Serves (initialState []) state ∧
      Run (Starts sampleEnvironment) Serves state state' ∧
      state.sessions = [first] ∧ state'.sessions = [first, later] ∧
      first.program = admitFirst sampleEnvironment .evidence (sampleEvidence "9007199254740993") ∧
      later.program =
        verifyHistoricalAdmission sampleEnvironment .evidence (sampleEvidence "9007199254740993") ∧
      functions first.events = [.resolve, .lookup, .issue, .appendOrReturnExisting] ∧
      Returned first admitted ∧ Returned later admitted ∧
      VerifiesWith sampleEnvironment .evidence (sampleEvidence "9007199254740993")
        (.ok ⟨Registry.sampleRegistry, .organizationWide⟩) admitted.verified ∧
      admitted.verified.resolvedKey.ValidAt admitted.record.trustedAcceptedInstant ∧
      ∃ authenticated, later.events =
        [⟨.resolve request, .ok ⟨Registry.sampleRegistry, .organizationWide⟩⟩,
          ⟨.lookup admitted.verified.resolvedKey.organizationId admitted.verified.signingHash,
            .ok (.found authenticated)⟩] := by
  obtain ⟨verified, prepared, committed, admitted, hverified, hprepared, hbytes, hadmitted⟩ :=
    exists_prepared_sample samplePreparation_eq_ok
  obtain ⟨rfl, hadmits⟩ := validateAuthenticatedRecord_eq_ok.mp hadmitted
  obtain ⟨request, hfirst⟩ := reaches_admitFirst hverified hprepared hadmitted
  obtain ⟨request', hlater⟩ := reaches_found hverified hadmitted
  rw [← hbytes] at hfirst
  have hput := Serves.append [] admitted.verified.resolvedKey.organizationId
    admitted.verified.signingHash committed
  have hget := Serves.lookup [(logKey admitted.verified, committed)]
    admitted.verified.resolvedKey.organizationId admitted.verified.signingHash
  rw [logKey, List.lookup_cons_self] at hget
  have hstarts : Starts sampleEnvironment _ :=
    .admitFirst .evidence (sampleEvidence "9007199254740993")
  have hstarts' : Starts sampleEnvironment _ :=
    .verifyHistoricalAdmission .evidence (sampleEvidence "9007199254740993")
  obtain ⟨state, events, hrun, hshared, hsessions, hfunctions⟩ : ∃ state events,
      Run (Starts sampleEnvironment) Serves (initialState []) state ∧
      state.shared = [(logKey admitted.verified, committed)] ∧
      state.sessions = [⟨admitFirst sampleEnvironment .evidence (sampleEvidence "9007199254740993"),
        events, .done (.ok admitted)⟩] ∧
      functions events = [.resolve, .lookup, .issue, .appendOrReturnExisting] :=
    ⟨_, _, Run.startAndServe (initialState []) hstarts hfirst (.cons (.resolve _ _ _)
      (.cons (.lookup _ _ _) (.cons (.issue _ _ _ _) (.cons hput (.nil _))))), rfl, rfl, rfl⟩
  have hserved : Served Serves state.shared
      [⟨.resolve request', .ok ⟨Registry.sampleRegistry, .organizationWide⟩⟩,
        ⟨.lookup admitted.verified.resolvedKey.organizationId admitted.verified.signingHash,
          .ok (.found committed)⟩] state.shared := by
    rw [hshared]
    exact .cons (.resolve _ _ _) (.cons hget (.nil _))
  have hafter := Run.startAndServe state hstarts' hlater hserved
  rw [hsessions] at hafter
  refine ⟨state, _, _, _, admitted, request', hrun, hafter, hsessions, rfl, ?_⟩
  exact ⟨by dsimp only, by dsimp only, hfunctions, rfl, rfl, hverified, hadmits.binds.valid,
    committed, rfl⟩

/-- The second call returns what the first one has left in the log. -/
theorem admitted_again_sample :
    ∃ state state' first later admitted,
      Run (Starts sampleEnvironment) Serves (initialState []) state ∧
      Run (Starts sampleEnvironment) Serves state state' ∧
      first ∈ state.sessions ∧ later ∈ state'.sessions ∧
      functions first.events = [.resolve, .lookup, .issue, .appendOrReturnExisting] ∧
      functions later.events = [.resolve, .lookup] ∧
      Returned first admitted ∧ Returned later admitted := by
  obtain ⟨state, state', first, later, admitted, request, hbefore, hafter, hsessions, hsessions',
    hfirst, hlater, hfunctions, hreturned, hreturned', hverified, hvalid, authenticated, hevents⟩ :=
    exists_run_sample
  have hmem : first ∈ state.sessions := by
    rw [hsessions]
    exact List.mem_cons_self
  have hat : state'.sessions[1]? = some later := by
    rw [hsessions']
    rfl
  have hhead : later.events.head? =
      some ⟨.resolve request, .ok ⟨Registry.sampleRegistry, .organizationWide⟩⟩ := by
    rw [hevents]
    rfl
  obtain ⟨hreads, hresult⟩ := admitted_again sampleEnvironment [] state state' hbefore hafter
    .evidence (sampleEvidence "9007199254740993") first hmem (.inl hfirst) admitted hreturned 1
    (by rw [hsessions]; rfl) later hat (.inr hlater) (.ok admitted) hreturned' request _ hhead
    admitted.verified hverified rfl
  refine ⟨state, state', first, later, admitted, hbefore, hafter, hmem, List.mem_of_getElem? hat,
    hfunctions, hreads, hreturned, ?_⟩
  rw [Returned, hreturned', (hresult ?_).mpr ⟨rfl, hvalid⟩]
  intro thrown
  rw [hevents]
  simp [AdmissionLookup.found]

theorem record_of_one_document_sample :
    ∃ state first second admitted admitted',
      Run (Starts sampleEnvironment) Serves (initialState []) state ∧
      first ∈ state.sessions ∧ second ∈ state.sessions ∧
      Returned first admitted ∧ Returned second admitted' ∧
      admitted.record = admitted'.record ∧ admitted.verified.kind = admitted'.verified.kind ∧
      admitted.verified.resolvedKey.keyId = admitted'.verified.resolvedKey.keyId ∧
      admitted.verified.resolvedKey.principal = admitted'.verified.resolvedKey.principal ∧
      (Json.SameData (admitted.verified.document.erase "signature")
          (admitted'.verified.document.erase "signature") ∨
        Collide sampleEnvironment.evpDigest admitted.verified.signingBytes
          admitted'.verified.signingBytes) := by
  obtain ⟨state, state', first, later, admitted, request, hbefore, hafter, _, hsessions, _, _, _,
    hreturned, hreturned', _⟩ := exists_run_sample
  have hrun := hbefore.trans hafter
  have hfirst : first ∈ state'.sessions := by
    rw [hsessions]
    exact List.mem_cons_self
  have hlater : later ∈ state'.sessions := by
    rw [hsessions]
    exact List.mem_cons_of_mem _ List.mem_cons_self
  exact ⟨state', first, later, admitted, admitted, hrun, hfirst, hlater, hreturned, hreturned',
    record_of_one_document sampleEnvironment decodesJson_referenceParse [] state' hrun first later
      hfirst hlater admitted admitted hreturned hreturned' rfl⟩

end MissionWeave.AdmissionService
