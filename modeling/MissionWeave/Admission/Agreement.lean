import MissionWeave.Admission.Safety
import MissionWeave.CodeLib.WriteOnce

/-!
# Agreement of concurrent admissions

Any number of `admitFirst` and `verifyHistoricalAdmission` calls share one
Admission Log, and their adapter calls are interleaved in any order.

* `Serves`: the log is a write-once store, and the registries and the trusted
  contexts answer as they like.
* `stored_of_run`: what the log has returned is what it stores.
* `agreement`: stored records stay, all calls that return for one key return
  the same record, and later calls never append.
-/

namespace MissionWeave.AdmissionService

open Interaction WriteOnce

/-! ## The system -/

/-- The records of the log, each with the service that committed it. -/
abbrev AdmissionLog := List (LogKey × AuthenticatedAdmissionRecord)

/-- How the adapters answer.  `append_or_return_existing` authenticates a new
record as that of the service that commits it, and a call of the log may throw,
an append also after it has stored the candidate. -/
inductive Serves :
    AdmissionLog → (call : AdapterCall) → AdapterAnswer call → AdmissionLog → Prop
  | resolve (log : AdmissionLog) (request : KeyResolutionRequest)
      (response : Except Thrown KeyRegistrySnapshot) :
      Serves log (.resolve request) response log
  | issue (log : AdmissionLog) (organizationId signingHash : Bytes)
      (context : Except Thrown AdmissionContextValue) :
      Serves log (.issue organizationId signingHash) context log
  | lookup (log : AdmissionLog) (organizationId signingHash : Bytes) :
      Serves log (.lookup organizationId signingHash)
        (.ok ⟨log.lookup (organizationId, signingHash)⟩) log
  | append (log : AdmissionLog) (organizationId signingHash : Bytes)
      (candidate : AuthenticatedAdmissionRecord) :
      Serves log (.appendOrReturnExisting organizationId signingHash candidate.recordBytes)
        (.ok (getOrPut log (organizationId, signingHash) candidate).1)
        (getOrPut log (organizationId, signingHash) candidate).2
  | lookupThrows (log : AdmissionLog) (organizationId signingHash : Bytes) (thrown : Thrown) :
      Serves log (.lookup organizationId signingHash) (.error thrown) log
  | appendThrows (log : AdmissionLog) (organizationId signingHash candidateBytes : Bytes)
      (thrown : Thrown) :
      Serves log (.appendOrReturnExisting organizationId signingHash candidateBytes)
        (.error thrown) log
  | appendStoresAndThrows (log : AdmissionLog) (organizationId signingHash : Bytes)
      (candidate : AuthenticatedAdmissionRecord) (thrown : Thrown) :
      Serves log (.appendOrReturnExisting organizationId signingHash candidate.recordBytes)
        (.error thrown) (getOrPut log (organizationId, signingHash) candidate).2

/-- The calls of the service. -/
inductive Starts (env : Environment) : Procedure AdmittedSignedDocument → Prop
  | admitFirst (kind : SignedDocumentKind) (documentBytes : Bytes) :
      Starts env (admitFirst env kind documentBytes)
  | verifyHistoricalAdmission (kind : SignedDocumentKind) (documentBytes : Bytes) :
      Starts env (verifyHistoricalAdmission env kind documentBytes)

/-- A log and the calls of the service that use it. -/
abbrev SystemState :=
  State AdmissionLog AdapterCall AdapterAnswer (Except Thrown AdmittedSignedDocument)

abbrev AdmissionSession :=
  Session AdapterCall AdapterAnswer (Except Thrown AdmittedSignedDocument)

/-- A log, and no call. -/
def initialState (log : AdmissionLog) : SystemState := ⟨log, []⟩

/-- The call has returned. -/
def Returned (session : AdmissionSession) (admitted : AdmittedSignedDocument) : Prop :=
  session.rest = .done (.ok admitted)

/-- The key of a call. -/
def AdapterCall.key : AdapterCall → Option LogKey
  | .resolve _ => none
  | .lookup organizationId signingHash | .issue organizationId signingHash
  | .appendOrReturnExisting organizationId signingHash _ => some (organizationId, signingHash)

/-- The call of the service has used the key. -/
def Uses (session : AdmissionSession) (key : LogKey) : Prop :=
  ∃ event ∈ session.events, event.request.key = some key

variable {env : Environment} {log log' initial : AdmissionLog} {state state' : SystemState}

/-! ## One answer -/

/-- What an answer does to the log. -/
theorem Serves.grows {call : AdapterCall} {answer : AdapterAnswer call}
    (h : Serves log call answer log') : log <+: log' ∧ (NodupKeys log → NodupKeys log') := by
  cases h with
  | append _ _ candidate => exact ⟨prefix_getOrPut _ _ _, nodupKeys_getOrPut _ _⟩
  | appendStoresAndThrows _ _ candidate thrown =>
    exact ⟨prefix_getOrPut _ _ _, nodupKeys_getOrPut _ _⟩
  | resolve | issue | lookup | lookupThrows | appendThrows => exact ⟨List.prefix_rfl, id⟩

/-- What the event returns is stored. -/
def Stored (log : AdmissionLog) (event : AdapterEvent) : Prop :=
  ∀ key record, returnedRecord event = some (key, record) → log.lookup key = some record

theorem Stored.mono (hgrows : log <+: log') {event : AdapterEvent} (h : Stored log event) :
    Stored log' event :=
  fun _ _ hreturned => hgrows.lookup_eq_some (h _ _ hreturned)

/-- The log returns what it stores. -/
theorem Serves.stored {call : AdapterCall} {answer : AdapterAnswer call}
    (h : Serves log call answer log') : Stored log' ⟨call, answer⟩ := by
  intro key record hreturned
  cases h with
  | lookup =>
    obtain ⟨found, hfound, heq⟩ := Option.map_eq_some_iff.mp hreturned
    obtain ⟨rfl, rfl⟩ := Prod.mk.inj heq
    exact hfound
  | append _ _ candidate =>
    obtain ⟨rfl, rfl⟩ := Prod.mk.inj (Option.some.inj hreturned)
    exact lookup_getOrPut log _ candidate
  | resolve | issue | lookupThrows | appendThrows | appendStoresAndThrows => cases hreturned

/-- The key that the log finds to be absent with an event. -/
def absentKey : AdapterEvent → Option LogKey
  | ⟨.lookup organizationId signingHash, .ok ⟨none⟩⟩ => some (organizationId, signingHash)
  | _ => none

/-- A key that is stored is not found to be absent. -/
theorem Serves.absentKey_ne {call : AdapterCall} {answer : AdapterAnswer call}
    (h : Serves log call answer log') {key : LogKey} {record : AuthenticatedAdmissionRecord}
    (hstored : log.lookup key = some record) : absentKey ⟨call, answer⟩ ≠ some key := by
  cases h with
  | lookup organizationId signingHash =>
    cases hlookup : log.lookup (organizationId, signingHash) with
    | some found => exact nofun
    | none =>
      intro habsent
      rw [Option.some.inj habsent, hstored] at hlookup
      cases hlookup
  | resolve | issue | append | lookupThrows | appendThrows | appendStoresAndThrows => exact nofun

/-! ## Runs -/

/-- The log only grows, and no key gets a second record. -/
theorem grows_of_run (h : Run (Starts env) Serves state state') :
    state.shared <+: state'.shared ∧ (NodupKeys state.shared → NodupKeys state'.shared) :=
  h.shared (R := fun log log' => log <+: log' ∧ (NodupKeys log → NodupKeys log'))
    (fun _ => ⟨List.prefix_rfl, id⟩)
    (fun _ _ _ hst htu => ⟨hst.1.trans htu.1, htu.2 ∘ hst.2⟩) fun _ _ _ _ => Serves.grows

/-- All that the log has returned is stored. -/
theorem stored_of_run (h : Run (Starts env) Serves (initialState initial) state) :
    ∀ session ∈ state.sessions, ∀ event ∈ session.events, Stored state.shared event := by
  have hserves (log : AdmissionLog) (call : AdapterCall) (answer : AdapterAnswer call)
      (log' : AdmissionLog) (hserves : Serves log call answer log') (_ : True) :
      True ∧ Stored log' ⟨call, answer⟩ ∧ ∀ event, Stored log event → Stored log' event :=
    ⟨trivial, hserves.stored, fun _ => .mono hserves.grows.1⟩
  have hnone : EventsFrom 0 (Stored initial) (initialState initial) := fun _ _ _ hsession =>
    nomatch hsession
  intro session hsession
  obtain ⟨i, hi⟩ := List.mem_iff_getElem?.mp hsession
  exact (Run.events hserves h trivial hnone).2 i (Nat.zero_le i) session hi

/-- A call that starts when the key is stored is not told that it is absent. -/
theorem absentKey_ne_of_run (h : Run (Starts env) Serves state state') {key : LogKey}
    {record : AuthenticatedAdmissionRecord} (hstored : state.shared.lookup key = some record)
    {i : Nat} (hi : state.sessions.length ≤ i) {session : AdmissionSession}
    (hsession : state'.sessions[i]? = some session) :
    ∀ event ∈ session.events, absentKey event ≠ some key := by
  have hserves (log : AdmissionLog) (call : AdapterCall) (answer : AdapterAnswer call)
      (log' : AdmissionLog) (hserves : Serves log call answer log')
      (hstored : log.lookup key = some record) :
      log'.lookup key = some record ∧ absentKey ⟨call, answer⟩ ≠ some key ∧
        ∀ event, absentKey event ≠ some key → absentKey event ≠ some key :=
    ⟨hserves.grows.1.lookup_eq_some hstored, hserves.absentKey_ne hstored, fun _ => id⟩
  have hnone : EventsFrom state.sessions.length (fun event => absentKey event ≠ some key) state :=
    fun j hj other hother => by
      rw [List.getElem?_eq_none hj] at hother
      cases hother
  exact (Run.events (P := fun _ event => absentKey event ≠ some key) hserves h hstored hnone).2 i hi
    session hsession

/-- Every call of the service is one of the two programs. -/
theorem sessionsRun_of_run (h : Run (Starts env) Serves (initialState initial) state) :
    SessionsRun (Starts env) state :=
  h.sessions fun _ hsession => nomatch hsession

/-! ## Calls that have returned -/

/-- What a call has established when it returns. -/
theorem admitted_of_returned {session : AdmissionSession} {admitted : AdmittedSignedDocument}
    (hstarts : Starts env session.program)
    (hreaches : Reaches session.program session.events session.rest)
    (hreturned : Returned session admitted) :
    ∃ kind documentBytes, Admitted env kind documentBytes session.events admitted := by
  obtain ⟨program, events, rest⟩ := session
  obtain rfl : rest = .done (.ok admitted) := hreturned
  cases hstarts with
  | admitFirst kind documentBytes =>
    exact ⟨kind, documentBytes, (ensures_admitFirst.of_reaches hreaches).2 admitted rfl⟩
  | verifyHistoricalAdmission kind documentBytes =>
    exact ⟨kind, documentBytes,
      (ensures_verifyHistoricalAdmission.of_reaches hreaches).2 admitted rfl⟩

/-- What a call returns is stored under its key, and says what the stored bytes
say. -/
theorem stored_of_returned (h : Run (Starts env) Serves (initialState initial) state)
    {session : AdmissionSession} (hsession : session ∈ state.sessions)
    {admitted : AdmittedSignedDocument} (hreturned : Returned session admitted) :
    ∃ authenticated, state.shared.lookup (logKey admitted.verified) = some authenticated ∧
      ParsesTo env authenticated.recordBytes admitted.record := by
  obtain ⟨hstarts, hreaches⟩ := sessionsRun_of_run h session hsession
  obtain ⟨kind, documentBytes, hadmitted⟩ := admitted_of_returned hstarts hreaches hreturned
  obtain ⟨authenticated, ⟨event, hevent, hrecord⟩, hadmits⟩ := hadmitted.logged
  exact ⟨authenticated, stored_of_run h session hsession event hevent _ _ hrecord, hadmits.parses⟩

/-! ## Calls that find the record -/

/-- A context is issued, and a record appended, for the key that was found to be
absent, and for no other. -/
theorem absentKey_of_allowed {kind : SignedDocumentKind} {documentBytes : Bytes}
    {past : List AdapterEvent} {call : AdapterCall}
    (h : AllowedAdmission env kind documentBytes past call) :
    AllowedLookup env kind documentBytes past call ∨
      ∃ key, call.key = some key ∧ (∃ event ∈ past, absentKey event = some key) ∧
        ∀ event ∈ past, event.request.key = none ∨ event.request.key = some key := by
  cases h with
  | lookup hlookup => exact Or.inl hlookup
  | @issue _ _ verified =>
    refine Or.inr ⟨logKey verified, rfl, ⟨_, List.mem_cons_of_mem _ List.mem_cons_self, rfl⟩, ?_⟩
    simp [AdapterCall.key, logKey]
  | @append _ _ verified =>
    refine Or.inr ⟨logKey verified, rfl, ⟨_, List.mem_cons_of_mem _ List.mem_cons_self, rfl⟩, ?_⟩
    simp [AdapterCall.key, logKey]

/-- A call that uses the key and never finds it to be absent stops at the
lookup. -/
theorem functions_of_present {kind : SignedDocumentKind} {documentBytes : Bytes}
    {events : List AdapterEvent} {key : LogKey}
    (hallowed : ∀ before event after, events = before ++ event :: after →
      AllowedAdmission env kind documentBytes before event.request)
    (huses : ∃ event ∈ events, event.request.key = some key)
    (hpresent : ∀ event ∈ events, absentKey event ≠ some key) :
    functions events <+: [.resolve, .lookup] := by
  rcases List.eq_nil_or_concat' events with rfl | ⟨before, last, rfl⟩
  · exact List.nil_prefix
  · rcases absentKey_of_allowed (hallowed before last [] rfl) with
      hlookup | ⟨key', hlast, ⟨lookup, hlookup, habsent⟩, hkeys⟩
    · have h := functions_of_allowedLookup hlookup
      rwa [functions, List.map_append]
    · obtain ⟨event, hevent, hkey⟩ := huses
      -- only one key is in use, and it was found to be absent
      have hsame : key' = key := by
        rcases List.mem_append.mp hevent with hevent | hevent
        · rcases hkeys event hevent with hnone | hsome
          · rw [hnone] at hkey
            cases hkey
          · exact Option.some.inj (hsome.symm.trans hkey)
        · rw [List.mem_singleton.mp hevent, hlast] at hkey
          exact Option.some.inj hkey
      rw [hsame] at habsent
      exact absurd habsent (hpresent lookup (List.mem_append_left _ hlookup))

/-- Agreement of concurrent admissions, whatever is stored at first: stored
records stay, no key has two of them, all calls that return for one key return
the same record, and a call that starts after one of them has returned makes no
call to issue or append. -/
theorem agreement (env : Environment) (initial : AdmissionLog) (hinitial : NodupKeys initial)
    (state state' : SystemState) (hbefore : Run (Starts env) Serves (initialState initial) state)
    (hafter : Run (Starts env) Serves state state') :
    ((∀ key record, state.shared.lookup key = some record →
        state'.shared.lookup key = some record) ∧ NodupKeys state'.shared) ∧
    (∀ first ∈ state'.sessions, ∀ second ∈ state'.sessions, ∀ admitted admitted',
      Returned first admitted → Returned second admitted' →
      logKey admitted.verified = logKey admitted'.verified →
      admitted.record.bytes = admitted'.record.bytes ∧
        admitted.record.trustedAcceptedAt = admitted'.record.trustedAcceptedAt) ∧
    ∀ first ∈ state.sessions, ∀ admitted, Returned first admitted →
      ∀ i session, state.sessions.length ≤ i → state'.sessions[i]? = some session →
        Uses session (logKey admitted.verified) →
        functions session.events <+: [.resolve, .lookup] := by
  have hrun : Run (Starts env) Serves (initialState initial) state' := hbefore.trans hafter
  refine ⟨⟨fun key record => (grows_of_run hafter).1.lookup_eq_some,
    (grows_of_run hrun).2 hinitial⟩, ?_, ?_⟩
  · intro first hfirst second hsecond admitted admitted' hreturned hreturned' hkey
    obtain ⟨authenticated, hstored, hparses⟩ := stored_of_returned hrun hfirst hreturned
    obtain ⟨authenticated', hstored', hparses'⟩ := stored_of_returned hrun hsecond hreturned'
    rw [hkey, hstored', Option.some.injEq] at hstored
    rw [hstored] at hparses'
    rw [hparses.unique hparses']
    exact ⟨rfl, rfl⟩
  · intro first hfirst admitted hreturned i session hi hsession huses
    obtain ⟨authenticated, hstored, _⟩ := stored_of_returned hbefore hfirst hreturned
    have hpresent := absentKey_ne_of_run hafter hstored hi hsession
    obtain ⟨hstarts, hreaches⟩ := sessionsRun_of_run hrun session (List.mem_of_getElem? hsession)
    obtain ⟨program, events, rest⟩ := session
    cases hstarts with
    | admitFirst kind documentBytes =>
      exact functions_of_present (ensures_admitFirst.of_reaches hreaches).1 huses hpresent
    | verifyHistoricalAdmission kind documentBytes =>
      exact functions_isPrefix (fun _ _ => functions_of_allowedLookup)
        (ensures_verifyHistoricalAdmission.of_reaches hreaches).1

/-- Two calls find the sample to be absent and prepare different records.  Both
return the one that is appended first. -/
theorem agreement_sample :
    ∃ state first second admitted admitted',
      Run (Starts SignedDocumentCodec.sampleEnvironment) Serves (initialState []) state ∧
      first ∈ state.sessions ∧ second ∈ state.sessions ∧
      functions first.events = [.resolve, .lookup, .issue, .appendOrReturnExisting] ∧
      functions second.events = [.resolve, .lookup, .issue, .appendOrReturnExisting] ∧
      Returned first admitted ∧ Returned second admitted' ∧
      admitted.record.bytes = admitted'.record.bytes := by
  have hother : samplePreparation "2026-07-16T01:06:00Z" = .ok (.evidence, false, true) := by
    decide +kernel
  obtain ⟨verified, prepared, committed, admitted, hverified, hprepared, hbytes, hadmitted⟩ :=
    exists_prepared_sample samplePreparation_eq_ok
  obtain ⟨verified', prepared', committed', _, hverified', hprepared', hbytes', _⟩ :=
    exists_prepared_sample hother
  obtain rfl : verified = verified' := Except.ok.inj (hverified.symm.trans hverified')
  obtain ⟨request, hfirst⟩ := reaches_admitFirst hverified hprepared hadmitted
  obtain ⟨request', hsecond⟩ := reaches_admitFirst hverified hprepared' hadmitted
  rw [← hbytes] at hfirst
  rw [← hbytes'] at hsecond
  change Reaches _ ([_, _, _] ++ [_]) _ at hfirst hsecond
  obtain ⟨_, hissue, hcommit⟩ := hfirst.exists_of_append
  obtain ⟨_, hissue', hcommit'⟩ := hsecond.exists_of_append
  have hput := Serves.append [] verified.resolvedKey.organizationId verified.signingHash committed
  have hget := Serves.append [(logKey verified, committed)] verified.resolvedKey.organizationId
    verified.signingHash committed'
  rw [getOrPut, logKey, List.lookup_cons_self] at hget
  -- both calls find the key to be absent before either of them appends
  have hstarts : Starts SignedDocumentCodec.sampleEnvironment _ :=
    .admitFirst .evidence (SignedDocumentCodec.sampleEvidence "9007199254740993")
  have hrun : Run (Starts SignedDocumentCodec.sampleEnvironment) Serves (initialState []) _ :=
    (Relation.ReflTransGen.refl.tail (.start _ _ hstarts)).tail (.start _ _ hstarts)
  have hrun := Run.serve (i := 0) hissue
    (.cons (.resolve _ _ _) (.cons (.lookup _ _ _) (.cons (.issue _ _ _ _) (.nil _)))) rfl hrun
  have hrun := Run.serve (i := 1) hissue'
    (.cons (.resolve _ _ _) (.cons (.lookup _ _ _) (.cons (.issue _ _ _ _) (.nil _)))) rfl hrun
  have hrun := Run.serve (i := 0) hcommit (.cons hput (.nil _)) rfl hrun
  have hrun := Run.serve (i := 1) hcommit' (.cons hget (.nil _)) rfl hrun
  refine ⟨_, _, _, admitted, admitted, hrun, List.mem_cons_self,
    List.mem_cons_of_mem _ List.mem_cons_self, rfl, rfl, rfl, rfl, ?_⟩
  exact ((agreement _ [] List.nodup_nil _ _ hrun .refl).2.1 _ List.mem_cons_self _
    (List.mem_cons_of_mem _ List.mem_cons_self) admitted admitted rfl rfl rfl).1

end MissionWeave.AdmissionService
