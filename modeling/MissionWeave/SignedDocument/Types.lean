import MissionWeave.CodeLib.Bytes

/-!
# The types of the Signed Document codec

The records of `signed_document.hpp`, and the profiles of the nine document
kinds.
-/

namespace MissionWeave

inductive SignedDocumentKind
  | agentCard
  | approval
  | artifact
  | command
  | contextPackage
  | event
  | evidence
  | extensionProfile
  | groupSnapshot
  deriving DecidableEq, Repr

inductive SignerRule
  | service
  | principal
  | agentId
  deriving DecidableEq, Repr

structure Profile where
  kind : SignedDocumentKind
  id : String
  schema : String
  protectedTime : String
  signerRule : SignerRule
  signer : String

/-- The row of `profiles` for a kind. -/
def profile : SignedDocumentKind → Profile
  | .agentCard =>
      ⟨.agentCard, "agent-card", "agent-card.schema.json", "issuedAt", .service, ""⟩
  | .approval =>
      ⟨.approval, "approval", "approval.schema.json", "occurredAt", .principal, "approver"⟩
  | .artifact =>
      ⟨.artifact, "artifact", "artifact.schema.json", "createdAt", .agentId, "producer"⟩
  | .command => ⟨.command, "command", "command.schema.json", "issuedAt", .principal, "actor"⟩
  | .contextPackage =>
      ⟨.contextPackage, "context-package", "context-package.schema.json", "generatedAt",
        .principal, "generatedBy"⟩
  | .event => ⟨.event, "event", "event.schema.json", "occurredAt", .principal, "acceptedBy"⟩
  | .evidence =>
      ⟨.evidence, "evidence", "evidence.schema.json", "createdAt", .principal, "generatedBy"⟩
  | .extensionProfile =>
      ⟨.extensionProfile, "extension-profile", "extension-profile.schema.json", "approvedAt",
        .principal, "approvedBy"⟩
  | .groupSnapshot =>
      ⟨.groupSnapshot, "group-snapshot", "group-snapshot.schema.json", "createdAt", .principal,
        "createdBy"⟩

/-- `signed_document_kind_id`. -/
def signedDocumentKindId (kind : SignedDocumentKind) : String := (profile kind).id

@[ext] structure Principal where
  type : Bytes
  id : Bytes
  deriving DecidableEq, Repr

structure ExactInstant where
  epochSecond : Int
  fractionalDigits : Bytes
  deriving Repr

structure KeyResolutionRequest where
  kind : SignedDocumentKind
  keyId : Bytes
  expectedPrincipal : Option Principal
  servicePrincipalRequired : Bool
  protectedTime : Bytes
  protectedInstant : ExactInstant

/-- `Ed25519PublicKey`: 32 bytes. -/
abbrev Ed25519PublicKey := Bytes

/-- `Ed25519Signature`: 64 bytes. -/
abbrev Ed25519Signature := Bytes

structure ResolvedKey where
  organizationId : Bytes
  keyId : Bytes
  principal : Principal
  algorithm : Bytes
  publicKey : Bytes
  validFrom : Bytes
  validFromInstant : ExactInstant
  validUntil : Option Bytes
  validUntilInstant : Option ExactInstant
  revokedAt : Option Bytes
  revokedAtInstant : Option ExactInstant

structure RegistryKeyResolution where
  resolvedKey : ResolvedKey
  publicKey : Ed25519PublicKey

inductive KeyRegistryCompleteness
  | organizationWide
  | incomplete
  | unspecified
  deriving DecidableEq, Repr

structure KeyRegistrySnapshot where
  registryBytes : Bytes
  completeness : KeyRegistryCompleteness

structure SignatureMaterial where
  algorithm : Bytes
  keyId : Bytes
  createdAt : Bytes
  value : Bytes
  bytes : Ed25519Signature

end MissionWeave
