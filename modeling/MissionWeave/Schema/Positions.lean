import MissionWeave.Environment

/-!
# Positions in the schemas

Where the schemas of the nine document kinds place timestamps, and where they
place the identifiers that the codec reads.  A position is a path of members
and of array elements, and it may be reached any number of times.
-/

namespace MissionWeave

/-- A step from a value to values in it. -/
inductive Step
  | member (name : String)
  | elements
  deriving DecidableEq, Repr

abbrev Position := List Step

/-- The values at a position. -/
def Json.reach : Position → Json → List Json
  | [], v => [v]
  | .member name :: rest, v =>
    match v.member? name with
    | some value => value.reach rest
    | none => []
  | .elements :: rest, v => v.elements.flatMap fun x => x.reach rest

/-- `signature.createdAt`. -/
def createdAtPosition : Position := [.member "signature", .member "createdAt"]

/-- `signature.keyId`. -/
def keyIdPosition : Position := [.member "signature", .member "keyId"]

/-- The positions that the schema of a kind declares as
`common.schema.json#/$defs/timestamp`. -/
def timestampPositions : SignedDocumentKind → List Position
  | .agentCard => [
      [.member "publicKeys", .elements, .member "validFrom"],
      [.member "publicKeys", .elements, .member "validUntil"],
      [.member "publicKeys", .elements, .member "revokedAt"],
      [.member "issuedAt"], [.member "validUntil"], createdAtPosition]
  | .approval => [[.member "occurredAt"], createdAtPosition]
  | .artifact => [[.member "createdAt"], createdAtPosition]
  | .command => [[.member "issuedAt"], createdAtPosition]
  | .contextPackage => [[.member "generatedAt"], createdAtPosition]
  | .event => [[.member "occurredAt"], createdAtPosition]
  | .evidence => [[.member "createdAt"], createdAtPosition]
  | .extensionProfile => [[.member "approvedAt"], createdAtPosition]
  | .groupSnapshot => [
      [.member "policyLog", .elements, .member "occurredAt"],
      [.member "createdAt"], createdAtPosition]

/-- The positions that the codec reads an identifier of the signer or its key
from, which the schema of a kind declares as `common.schema.json#/$defs/id`. -/
def identifierPositions : SignedDocumentKind → List Position
  | .agentCard => [keyIdPosition]
  | .approval => [keyIdPosition, [.member "approver", .member "id"]]
  | .artifact => [keyIdPosition, [.member "producer", .member "agentId"]]
  | .command => [keyIdPosition, [.member "actor", .member "id"]]
  | .contextPackage => [keyIdPosition, [.member "generatedBy", .member "id"]]
  | .event => [keyIdPosition, [.member "acceptedBy", .member "id"]]
  | .evidence => [keyIdPosition, [.member "generatedBy", .member "id"]]
  | .extensionProfile => [keyIdPosition, [.member "approvedBy", .member "id"]]
  | .groupSnapshot => [keyIdPosition, [.member "createdBy", .member "id"]]

/-- The positions of a First-Admission Record that its schema declares as
`common.schema.json#/$defs/id`. -/
def recordIdentifierPositions : List Position := [
  [.member "admissionRecordId"], [.member "organizationId"], [.member "keyId"],
  [.member "principal", .member "id"], [.member "acceptedBy", .member "id"]]

/-! ## Values at short positions -/

variable {v value : Json} {name inner : String} {text : Bytes}

theorem Json.mem_reach_member :
    value ∈ v.reach [.member name] ↔ v.member? name = some value := by
  rw [Json.reach]
  cases v.member? name with
  | none => simp
  | some w => simp [Json.reach, eq_comm]

theorem Json.mem_reach_members :
    value ∈ v.reach [.member name, .member inner] ↔
      ∃ w, v.member? name = some w ∧ w.member? inner = some value := by
  rw [Json.reach]
  cases v.member? name with
  | none => simp
  | some w => simp [Json.mem_reach_member]

end MissionWeave
