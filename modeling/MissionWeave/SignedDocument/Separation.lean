import MissionWeave.Canonical.Hash
import MissionWeave.Json.Denoted
import MissionWeave.SignedDocument.TamperEvidence

/-!
# Separation of the document kinds

The signing bytes of a document do not name its kind.  The schemas of the nine
kinds are closed objects, and each requires a member that the others do not
have, so no signature serves documents of two kinds.

* `rootSchema`: the members of the documents of a kind.
* `ownMember`: a member that tells the documents of a kind from all others.
* `kind_of_signingHash`: a signing hash belongs to one kind and one document.
-/

namespace MissionWeave

open SignedDocumentCodec
open ContentAddress (Collide)

/-! ## The roots of the schemas -/

/-- The `required` members of a closed object, and its other `properties`. -/
structure RootSchema where
  required : List String
  optional : List String

def rootSchema : SignedDocumentKind → RootSchema
  | .agentCard => ⟨
      ["agentId", "organizationId", "cardVersion", "displayName", "owner", "status",
       "protocolVersions", "endpoints", "publicKeys", "capabilities", "maxConcurrency",
       "issuedAt", "signature"],
      ["description", "validUntil", "extensions"]⟩
  | .approval => ⟨
      ["approvalId", "kind", "decision", "missionId", "groupId", "missionRevision",
       "artifactHashes", "acceptancePolicyVersion", "approver", "comments", "conditions",
       "occurredAt", "signature"],
      ["workItemId", "revokesApprovalId"]⟩
  | .artifact => ⟨
      ["artifactId", "contentHash", "uri", "sizeBytes", "mediaType", "schemaUri", "producer",
       "missionId", "groupId", "workItemId", "sourceArtifactHashes", "toolVersions",
       "modelVersions", "classification", "createdAt", "signature"],
      ["extensions"]⟩
  | .command => ⟨
      ["protocolVersion", "actionId", "actor", "kind", "correlationId", "issuedAt", "payload",
       "signature"],
      ["sessionEpoch", "membershipEpoch", "coordinatorEpoch", "groupId", "conversationId",
       "workItemId", "cooperationOverrideGrantId", "expectedRevision", "causedByEventId",
       "extensions"]⟩
  | .contextPackage => ⟨
      ["contextPackageId", "version", "missionId", "groupId", "sourceEventRange",
       "artifactHashes", "summary", "decisions", "constraints", "unresolvedQuestions",
       "generatedBy", "generatedAt", "signature"],
      ["previousContextPackageId", "workItemId", "extensions"]⟩
  | .event => ⟨
      ["protocolVersion", "eventId", "kind", "actor", "cause", "correlationId", "occurredAt",
       "payload", "acceptedBy", "signature"],
      ["groupId", "sequence", "aggregateRevision", "conversationId", "workItemId", "commandHash",
       "extensions"]⟩
  | .evidence => ⟨
      ["evidenceId", "missionId", "groupId", "workItemId", "type", "subject", "criterionIds",
       "method", "result", "artifactHashes", "generatedBy", "createdAt", "signature"],
      ["details", "toolVersion", "modelVersion"]⟩
  | .extensionProfile => ⟨
      ["profileUri", "name", "version", "schemaUri", "schemaHash", "requiredCapabilities",
       "critical", "commandKinds", "eventKinds", "overridesCoreInvariants", "approvedBy",
       "approvedAt", "signature"],
      []⟩
  | .groupSnapshot => ⟨
      ["snapshotId", "groupId", "throughSequence", "eventIds", "stateHash", "policyLog",
       "createdBy", "createdAt", "signature"],
      []⟩

def RootSchema.properties (schema : RootSchema) : List String := schema.required ++ schema.optional

/-- `"type": "object"`, `required` and `"additionalProperties": false`. -/
def RootSchema.accepts (schema : RootSchema) (document : Json) : Bool :=
  document.isObject && schema.required.all document.contains &&
    document.members.all fun m => schema.properties.any fun name => m.1 == ascii name

/-- The catalog asserts the roots of the schemas. -/
def AssertsRoots (validate : Validate) : Prop :=
  ∀ kind document, Validates validate (profile kind).schema document →
    (rootSchema kind).accepts document = true

/-- A member that the documents of a kind require, and no others have. -/
def ownMember : SignedDocumentKind → String
  | .agentCard => "agentId"
  | .approval => "approvalId"
  | .artifact => "artifactId"
  | .command => "actionId"
  | .contextPackage => "contextPackageId"
  | .event => "eventId"
  | .evidence => "evidenceId"
  | .extensionProfile => "profileUri"
  | .groupSnapshot => "snapshotId"

theorem ownMember_required (kind : SignedDocumentKind) :
    ownMember kind ∈ (rootSchema kind).required ∧ ownMember kind ≠ "signature" := by
  cases kind <;> decide

theorem kind_of_ownMember {kind kind' : SignedDocumentKind}
    (h : ownMember kind ∈ (rootSchema kind').properties) : kind = kind' := by
  cases kind <;> cases kind' <;> first | rfl | exact absurd h (by decide)

/-- The members of an accepted document. -/
theorem RootSchema.accepts_iff {schema : RootSchema} {document : Json} :
    schema.accepts document = true ↔
      document.isObject = true ∧ (∀ name ∈ schema.required, document.contains name = true) ∧
        ∀ name ∈ document.members.map Prod.fst, name ∈ schema.properties.map ascii := by
  simp only [RootSchema.accepts, RootSchema.properties, Bool.and_eq_true, List.all_eq_true,
    List.any_eq_true, beq_iff_eq, and_assoc, List.mem_map, forall_exists_index, and_imp,
    forall_apply_eq_imp_iff₂, @eq_comm Bytes _ (ascii _)]

theorem mem_names_of_contains {document : Json} {name : String}
    (h : document.contains name = true) : ascii name ∈ document.members.map Prod.fst := by
  by_contra hnot
  have hnone : document.member? name = none := by
    rw [Json.member?_eq_lookup, Json.lookup_eq_none]
    intro m hm heq
    exact hnot (heq ▸ List.mem_map_of_mem hm)
  rw [Json.contains, hnone] at h
  cases h

/-! ## One kind -/

/-- Documents of two kinds differ outside their signatures. -/
theorem kind_of_sameData {kind kind' : SignedDocumentKind} {document document' : Json}
    (h : (rootSchema kind).accepts document = true)
    (h' : (rootSchema kind').accepts document' = true)
    (hdata : Json.SameData (document.erase "signature") (document'.erase "signature")) :
    kind = kind' := by
  obtain ⟨hrequired, hne⟩ := ownMember_required kind
  obtain ⟨_, hcontains, _⟩ := RootSchema.accepts_iff.mp h
  obtain ⟨_, _, hproperties⟩ := RootSchema.accepts_iff.mp h'
  -- the member is in the one document, so it is in the other
  obtain ⟨value, hvalue⟩ := Option.isSome_iff_exists.mp (hcontains _ hrequired)
  rw [← Json.member?_erase_of_ne document hne] at hvalue
  obtain ⟨value', hvalue', _⟩ := Json.exists_member?_of_data hdata.symm hvalue
  rw [Json.member?_erase_of_ne document' hne] at hvalue'
  have hmem := hproperties _ (mem_names_of_contains (contains_of_member? hvalue'))
  obtain ⟨name, hname, heq⟩ := List.mem_map.mp hmem
  rw [ascii_inj.mp heq] at hname
  exact kind_of_ownMember hname

/-- A signing hash belongs to one kind of documents and to one document: two
documents that are accepted, of any kinds and with any signatures, have the same
hash only if they are of the same kind and have the same data outside their
signatures, or the digests of their signing bytes collide. -/
theorem kind_of_signingHash (env : Environment) (hparse : DecodesJson env.jsonParse)
    (hroots : AssertsRoots env.validate) (kind kind' : SignedDocumentKind)
    (receivedBytes receivedBytes' : Bytes) (resolver resolver' : KeyResolver)
    (verified verified' : VerifiedSignedDocument)
    (h : verify env kind receivedBytes resolver = .ok verified)
    (h' : verify env kind' receivedBytes' resolver' = .ok verified')
    (hhash : verified.signingHash = verified'.signingHash) :
    (kind = kind' ∧ Json.SameData (verified.document.erase "signature")
      (verified'.document.erase "signature")) ∨
        Collide env.evpDigest verified.signingBytes verified'.signingBytes := by
  obtain ⟨_, hopens, hcompletes⟩ := verify_eq_ok.mp h
  obtain ⟨_, hopens', hcompletes'⟩ := verify_eq_ok.mp h'
  have hauthentic := authentic_of_opens hopens hcompletes
  have hauthentic' := authentic_of_opens hopens' hcompletes'
  have hsigningHash := hauthentic'.signingHash
  rw [← hhash] at hsigningHash
  rcases Canonical.sha256_eq_or_collide hauthentic.signingHash hsigningHash with
    hbytes | hcollide
  · have hdata := sameData_of_authentic hparse hauthentic hauthentic' hbytes
    have hkind := kind_of_sameData (hroots _ _ hauthentic.schema) (hroots _ _ hauthentic'.schema)
      hdata
    exact .inl ⟨hkind, hdata⟩
  · exact .inr hcollide

/-! ## A sample -/

/-- A catalog of the schema of evidence, up to its root. -/
def evidenceCatalog : Validate := fun schemaName document =>
  .ok ⟨schemaName == (profile .evidence).schema && (rootSchema .evidence).accepts document, none⟩

theorem assertsRoots_evidenceCatalog : AssertsRoots evidenceCatalog := by
  rintro kind document ⟨_, ⟨⟩, hvalid⟩
  obtain ⟨hname, haccepts⟩ := (Bool.and_eq_true _ _).mp hvalid
  have hkind : kind = .evidence := by
    cases kind <;> first | rfl | exact absurd hname (by decide)
  rw [hkind]
  exact haccepts

def evidenceEnvironment : Environment := { sampleEnvironment with validate := evidenceCatalog }

theorem kind_of_signingHash_sample :
    ∃ verified verified',
      verify evidenceEnvironment .evidence (sampleEvidence "9007199254740992")
        (completeResolver Registry.sampleRegistry) = .ok verified ∧
      verify evidenceEnvironment .evidence (sampleEvidence "9007199254740993")
        (completeResolver Registry.sampleRegistry) = .ok verified' ∧
      (Json.SameData (verified.document.erase "signature")
        (verified'.document.erase "signature") ∨
          Collide evidenceEnvironment.evpDigest verified.signingBytes verified'.signingBytes) := by
  have hok : (do
      let verified ← referenceVerify evidenceEnvironment .evidence
        (sampleEvidence "9007199254740992") Registry.sampleRegistry
      let verified' ← referenceVerify evidenceEnvironment .evidence
        (sampleEvidence "9007199254740993") Registry.sampleRegistry
      .ok (verified.signingHash == verified'.signingHash)) = (.ok true : Except Thrown Bool) := by
    decide +kernel
  obtain ⟨verified, hverified, hok⟩ := Except.bind_eq_ok.mp hok
  obtain ⟨verified', hverified', hok⟩ := Except.bind_eq_ok.mp hok
  have hhash : verified.signingHash = verified'.signingHash := by simpa using hok
  have hverify := verify_of_referenceVerify rfl hverified
  have hverify' := verify_of_referenceVerify rfl hverified'
  have hone := kind_of_signingHash evidenceEnvironment decodesJson_referenceParse
    assertsRoots_evidenceCatalog .evidence .evidence _ _ _ _ verified verified' hverify hverify'
    hhash
  exact ⟨verified, verified', hverify, hverify', hone.imp_left And.right⟩

end MissionWeave
