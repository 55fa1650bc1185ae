import MissionWeave.Registry.Boundaries
import MissionWeave.Admission.Run

/-!
# Stability of historical admission

`verify_historical_admission` against a registry and against a later one, with
the same log.  The later registry states what the earlier one stated, and may
state further boundaries.

* `run_withRegistry_eq_ok`: what is admitted under a registry.
* `verifyHistoricalAdmission_stable`: what the later registry admits.
-/

namespace MissionWeave.AdmissionService

open Interaction
open SignedDocumentCodec

/-- The same adapters, with a resolver that returns one complete registry. -/
def Adapters.withRegistry (adapters : Adapters) (registryBytes : Bytes) : Adapters
  | .resolve _ => .ok ⟨registryBytes, .organizationWide⟩
  | .lookup organizationId signingHash => adapters (.lookup organizationId signingHash)
  | .issue organizationId signingHash => adapters (.issue organizationId signingHash)
  | .appendOrReturnExisting organizationId signingHash candidateBytes =>
    adapters (.appendOrReturnExisting organizationId signingHash candidateBytes)

section

variable {env : Environment} {kind : SignedDocumentKind} {documentBytes registryBytes : Bytes}
  {adapters : Adapters}

/-! ## What is admitted under a registry -/

/-- The document is verified with the registry, and the record that the log has
for it admits it. -/
structure AdmitsUnder (env : Environment) (opened : OpenedDocument) (registryBytes : Bytes)
    (adapters : Adapters) (admitted : AdmittedSignedDocument) : Prop where
  completes : Completes env opened (.ok ⟨registryBytes, .organizationWide⟩) admitted.verified
  admits : ∃ authenticated, adapters (.lookup admitted.verified.resolvedKey.organizationId
      admitted.verified.signingHash) = .ok (.found authenticated) ∧
    Admits env authenticated admitted.verified admitted.record

theorem run_withRegistry_eq_ok {admitted : AdmittedSignedDocument} :
    (verifyHistoricalAdmission env kind documentBytes).run (adapters.withRegistry registryBytes) =
        .ok admitted ↔
      ∃ opened, openDocument env kind documentBytes = .ok opened ∧
        AdmitsUnder env opened registryBytes adapters admitted := by
  rw [run_verifyHistoricalAdmission_eq_ok, verify_eq_ok]
  constructor
  · intro h
    obtain ⟨⟨opened, hopens, hcompletes⟩, hadmits⟩ := h
    exact ⟨opened, openDocument_eq_ok.mpr hopens, hcompletes, hadmits⟩
  · intro h
    obtain ⟨opened, hopened, hcompletes, hadmits⟩ := h
    exact ⟨⟨opened, openDocument_eq_ok.mp hopened, hcompletes⟩, hadmits⟩

/-! ## Under a later registry -/

/-- What is kept of an admission: all but the boundaries of the resolved key. -/
structure SameAdmission (admitted admitted' : AdmittedSignedDocument) : Prop where
  record : admitted'.record = admitted.record
  verified : admitted'.verified =
    { admitted.verified with resolvedKey := admitted'.verified.resolvedKey }
  organizationId : admitted'.verified.resolvedKey.organizationId =
    admitted.verified.resolvedKey.organizationId
  keyId : admitted'.verified.resolvedKey.keyId = admitted.verified.resolvedKey.keyId
  principal : admitted'.verified.resolvedKey.principal = admitted.verified.resolvedKey.principal

variable {opened : OpenedDocument} {registryBytes' : Bytes}
  {admitted admitted' : AdmittedSignedDocument}

/-- The registry resolves the key of the document. -/
theorem AdmitsUnder.exists_publicKey (h : AdmitsUnder env opened registryBytes adapters admitted) :
    ∃ publicKey, Registry.resolveAgentRegistryKey env registryBytes opened.request =
      .ok ⟨admitted.verified.resolvedKey, publicKey⟩ := by
  obtain ⟨_, publicKey, ⟨⟩, _, hresolve, _⟩ := h.completes.resolvedKey
  exact ⟨publicKey, hresolve⟩

/-- The same document is admitted by the same record. -/
theorem AdmitsUnder.same (h : AdmitsUnder env opened registryBytes adapters admitted)
    (h' : AdmitsUnder env opened registryBytes' adapters admitted')
    {publicKey publicKey' : Ed25519PublicKey}
    (hnarrows : Registry.Narrows ⟨admitted.verified.resolvedKey, publicKey⟩
      ⟨admitted'.verified.resolvedKey, publicKey'⟩) :
    SameAdmission admitted admitted' := by
  have hverified := h.completes.eq_of_opened h'.completes
  have hsigningHash : admitted'.verified.signingHash = admitted.verified.signingHash := by
    rw [hverified]
  obtain ⟨authenticated, hlookup, hadmits⟩ := h.admits
  obtain ⟨authenticated', hlookup', hadmits'⟩ := h'.admits
  have horganization : admitted'.verified.resolvedKey.organizationId =
    admitted.verified.resolvedKey.organizationId := hnarrows.organizationId
  rw [horganization, hsigningHash, hlookup] at hlookup'
  have hsame : authenticated' = authenticated := by
    cases hlookup'
    rfl
  subst hsame
  exact ⟨hadmits'.parses.unique hadmits.parses, hverified, horganization, hnarrows.keyId,
    hnarrows.principal⟩

/-- The record admits the document with another resolution of its key, if it is
accepted within the validity of that. -/
theorem Admits.resolve_again {authenticated : AuthenticatedAdmissionRecord}
    {verified : VerifiedSignedDocument} {record : FirstAdmissionRecord}
    {resolution' : RegistryKeyResolution} {publicKey : Ed25519PublicKey}
    (h : Admits env authenticated verified record)
    (hnarrows : Registry.Narrows ⟨verified.resolvedKey, publicKey⟩ resolution')
    (hvalid : resolution'.resolvedKey.ValidAt record.trustedAcceptedInstant) :
    Admits env authenticated { verified with resolvedKey := resolution'.resolvedKey } record where
  parses := h.parses
  binds := {
    organizationId := h.binds.organizationId.trans hnarrows.organizationId.symm
    documentKind := h.binds.documentKind
    signingHash := h.binds.signingHash
    keyId := h.binds.keyId.trans hnarrows.keyId.symm
    principal := h.binds.principal.trans hnarrows.principal.symm
    acceptedBy := h.binds.acceptedBy
    valid := hvalid }
  notSelfAnchoring := h.notSelfAnchoring

/-! ## Under an extension -/

/-- The condition on a later registry. -/
def PrecedesBoth (registry' : Json) (admitted : AdmittedSignedDocument) : Prop :=
  Registry.Precedes registry' admitted.verified.resolvedKey.keyId
      admitted.verified.protectedInstant ∧
    Registry.Precedes registry' admitted.verified.resolvedKey.keyId
      admitted.record.trustedAcceptedInstant

variable {registry registry' : Json}

/-- What an extension admits, it admits as the registry does, before all
boundaries that it states. -/
theorem AdmitsUnder.of_extension (hparse : env.parseStrictJson registryBytes = .ok registry)
    (hparse' : env.parseStrictJson registryBytes' = .ok registry')
    (hextends : Registry.Extends registry registry')
    (hevaluated' : ∃ result, Registry.evaluateRegistry env registry' = .ok result)
    (h : AdmitsUnder env opened registryBytes adapters admitted)
    (h' : AdmitsUnder env opened registryBytes' adapters admitted') :
    SameAdmission admitted admitted' ∧ PrecedesBoth registry' admitted := by
  obtain ⟨publicKey, hresolve⟩ := h.exists_publicKey
  obtain ⟨publicKey', hresolve'⟩ := h'.exists_publicKey
  obtain ⟨hiff, hresolved⟩ := Registry.resolve_iff_of_extends hparse hparse' hextends hevaluated'
    hresolve
  obtain ⟨hnarrows, hvalidAt⟩ := hresolved _ hresolve'
  have hsame := h.same h' hnarrows
  have hkeyId : admitted.verified.resolvedKey.keyId = opened.request.keyId :=
    (Registry.answers_of_resolve hresolve).keyId
  obtain ⟨_, _, hadmits⟩ := h.admits
  obtain ⟨_, _, hadmits'⟩ := h'.admits
  have hvalid' := hadmits'.binds.valid
  rw [hsame.record] at hvalid'
  rw [PrecedesBoth, hkeyId, h.completes.protectedInstant]
  exact ⟨hsame, hiff.mp ⟨_, hresolve'⟩, (hvalidAt _ hadmits.binds.valid).mp hvalid'⟩

/-- Before all boundaries that it states, an extension admits what the registry
does. -/
theorem AdmitsUnder.extension (hparse : env.parseStrictJson registryBytes = .ok registry)
    (hparse' : env.parseStrictJson registryBytes' = .ok registry')
    (hextends : Registry.Extends registry registry')
    (hevaluated' : ∃ result, Registry.evaluateRegistry env registry' = .ok result)
    (h : AdmitsUnder env opened registryBytes adapters admitted)
    (hprecedes : PrecedesBoth registry' admitted) :
    ∃ admitted', AdmitsUnder env opened registryBytes' adapters admitted' := by
  obtain ⟨publicKey, hresolve⟩ := h.exists_publicKey
  obtain ⟨hiff, hresolved⟩ := Registry.resolve_iff_of_extends hparse hparse' hextends hevaluated'
    hresolve
  have hkeyId : admitted.verified.resolvedKey.keyId = opened.request.keyId :=
    (Registry.answers_of_resolve hresolve).keyId
  rw [PrecedesBoth, hkeyId, h.completes.protectedInstant] at hprecedes
  obtain ⟨resolution', hresolve'⟩ := hiff.mpr hprecedes.1
  obtain ⟨hnarrows, hvalidAt⟩ := hresolved _ hresolve'
  obtain ⟨authenticated, hlookup, hadmits⟩ := h.admits
  have hvalid' := (hvalidAt _ hadmits.binds.valid).mpr hprecedes.2
  refine ⟨⟨{ admitted.verified with resolvedKey := resolution'.resolvedKey }, admitted.record⟩,
    h.completes.resolve_again hresolve hresolve' hnarrows.publicKey, authenticated, ?_,
    hadmits.resolve_again hnarrows hvalid'⟩
  show adapters (.lookup resolution'.resolvedKey.organizationId admitted.verified.signingHash) = _
  rw [hnarrows.organizationId]
  exact hlookup

end

/-- A document that was admitted under a registry is admitted under a later one,
with the same log, exactly if its protected instant and the accepted instant of
its record both precede every boundary that the later registry states for the
key.  The record and the identity of the key are then the same. -/
theorem verifyHistoricalAdmission_stable (env : Environment) (kind : SignedDocumentKind)
    (documentBytes registryBytes registryBytes' : Bytes) (registry registry' : Json)
    (adapters : Adapters) (admitted : AdmittedSignedDocument)
    (hparse : env.parseStrictJson registryBytes = .ok registry)
    (hparse' : env.parseStrictJson registryBytes' = .ok registry')
    (hextends : Registry.Extends registry registry')
    (hevaluated' : ∃ result, Registry.evaluateRegistry env registry' = .ok result)
    (h : (verifyHistoricalAdmission env kind documentBytes).run
      (adapters.withRegistry registryBytes) = .ok admitted) :
    ((∃ admitted', (verifyHistoricalAdmission env kind documentBytes).run
        (adapters.withRegistry registryBytes') = .ok admitted') ↔
      PrecedesBoth registry' admitted) ∧
    ∀ admitted', (verifyHistoricalAdmission env kind documentBytes).run
        (adapters.withRegistry registryBytes') = .ok admitted' →
      SameAdmission admitted admitted' := by
  obtain ⟨opened, hopened, hunder⟩ := run_withRegistry_eq_ok.mp h
  have hresult : ∀ admitted', (verifyHistoricalAdmission env kind documentBytes).run
      (adapters.withRegistry registryBytes') = .ok admitted' →
        SameAdmission admitted admitted' ∧ PrecedesBoth registry' admitted := by
    intro admitted' h'
    obtain ⟨opened', hopened', hunder'⟩ := run_withRegistry_eq_ok.mp h'
    obtain rfl := Except.ok.inj (hopened.symm.trans hopened')
    exact hunder.of_extension hparse hparse' hextends hevaluated' hunder'
  refine ⟨⟨?_, fun hprecedes => ?_⟩, fun admitted' h' => (hresult admitted' h').1⟩
  · rintro ⟨admitted', h'⟩
    exact (hresult admitted' h').2
  · obtain ⟨admitted', hunder'⟩ :=
      hunder.extension hparse hparse' hextends hevaluated' hprecedes
    exact ⟨admitted', run_withRegistry_eq_ok.mpr ⟨opened, hopened, hunder'⟩⟩

/-! ## A sample -/

/-- A record of the sample. -/
def sampleRecord : Bytes := List.flatMap ascii [
  "\x7b\"acceptedBy\":\x7b\"id\":\"urn:mwp:service:admission\",\"type\":\"service\"\x7d,",
  "\"admissionRecordId\":\"urn:mwp:admission-record:one\",\"documentKind\":\"evidence\",",
  "\"keyId\":\"urn:mwp:key:one\",\"organizationId\":\"urn:mwp:organization:acme\",",
  "\"principal\":\x7b\"id\":\"urn:mwp:agent:one\",\"type\":\"agent\"\x7d,",
  "\"protocolVersion\":\"0.1\",\"signingHash\":\"sha256:",
  "e8e53d2688ecc67b3aca6ca7fd84272009b8b51b23923ee81df1e89b7eb75acb\",",
  "\"trustedAcceptedAt\":\"2026-07-16T01:05:00Z\"\x7d"]

def sampleService : Principal := ⟨ascii "service", ascii "urn:mwp:service:admission"⟩

/-- A log that has the record, and answers nothing else. -/
def sampleLog : Adapters
  | .resolve _ => .error (.otherException "no resolver")
  | .lookup _ _ => .ok (.found ⟨sampleRecord, sampleService, rfl⟩)
  | .issue _ _ => .error (.otherException "no context")
  | .appendOrReturnExisting _ _ _ => .error (.otherException "read-only")

/-- The verification of the sample, without the scanner in front of the
decoder. -/
def sampleVerification (registryBytes : Bytes) : Except Thrown AdmittedSignedDocument := do
  let verified ← referenceVerify sampleEnvironment .evidence (sampleEvidence "9007199254740993")
    registryBytes
  let value ← referenceParse sampleRecord
  let parsed ← readRecord sampleEnvironment sampleRecord value
  validateBindings parsed verified sampleService
  .ok ⟨verified, parsed.record⟩

theorem run_of_sampleVerification {registryBytes : Bytes} {admitted : AdmittedSignedDocument}
    (h : sampleVerification registryBytes = .ok admitted) :
    (verifyHistoricalAdmission sampleEnvironment .evidence
        (sampleEvidence "9007199254740993")).run (sampleLog.withRegistry registryBytes) =
      .ok admitted := by
  obtain ⟨verified, hverified, h⟩ := Except.bind_eq_ok.mp h
  obtain ⟨value, hvalue, h⟩ := Except.bind_eq_ok.mp h
  obtain ⟨parsed, hparsed, h⟩ := Except.bind_eq_ok.mp h
  obtain ⟨⟨⟩, hbindings, h⟩ := Except.bind_eq_ok.mp h
  obtain ⟨opened, hopens, hcompletes⟩ := verify_eq_ok.mp (verify_of_referenceVerify rfl hverified)
  have hrecord : parseRecord sampleEnvironment sampleRecord = .ok parsed := by
    rw [parseRecord, failSchemaInvalid_eq_ok, Except.bind_eq_ok]
    exact ⟨value, parseStrictJson_reference hvalue, hparsed⟩
  obtain ⟨hparses, hinstant⟩ := parseRecord_eq_ok.mp hrecord
  rw [validateBindings_eq_ok hinstant] at hbindings
  have hkind : verified.kind ≠ .event := by
    rw [hcompletes.kind, hopens.kind]
    decide
  rw [← Except.ok.inj h]
  refine run_withRegistry_eq_ok.mpr ⟨opened, openDocument_eq_ok.mpr hopens, hcompletes,
    ⟨sampleRecord, sampleService, rfl⟩, rfl, hparses, hbindings, ?_⟩
  rw [isEventSelfAnchoring, if_pos hkind]

/-- The sample is admitted again after its key has been revoked. -/
theorem verifyHistoricalAdmission_stable_sample :
    ∃ admitted admitted',
      (verifyHistoricalAdmission sampleEnvironment .evidence
        (sampleEvidence "9007199254740993")).run
          (sampleLog.withRegistry Registry.sampleRegistry) = .ok admitted ∧
      (verifyHistoricalAdmission sampleEnvironment .evidence
        (sampleEvidence "9007199254740993")).run
          (sampleLog.withRegistry Registry.sampleExtension) = .ok admitted' ∧
      PrecedesBoth Registry.sampleExtensionValue admitted ∧ SameAdmission admitted admitted' := by
  have hok : (sampleVerification Registry.sampleRegistry).isOk = true := by decide +kernel
  have hok' : (sampleVerification Registry.sampleExtension).isOk = true := by decide +kernel
  have hevaluated : (Registry.evaluateRegistry sampleEnvironment
      Registry.sampleExtensionValue).isOk = true := by decide +kernel
  obtain ⟨admitted, hadmitted⟩ := Except.exists_ok_of_isOk hok
  obtain ⟨admitted', hadmitted'⟩ := Except.exists_ok_of_isOk hok'
  have hrun := run_of_sampleVerification hadmitted
  have hrun' := run_of_sampleVerification hadmitted'
  have hstable := verifyHistoricalAdmission_stable sampleEnvironment .evidence _ _ _ _ _ sampleLog
    admitted (parseStrictJson_reference Registry.referenceParse_sampleRegistry)
    (parseStrictJson_reference Registry.referenceParse_sampleExtension)
    Registry.sampleExtension_extends (Except.exists_ok_of_isOk hevaluated) hrun
  exact ⟨admitted, admitted', hrun, hrun', hstable.1.mp ⟨admitted', hrun'⟩, hstable.2 _ hrun'⟩

end MissionWeave.AdmissionService
