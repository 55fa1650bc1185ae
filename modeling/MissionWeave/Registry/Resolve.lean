import MissionWeave.Environment
import MissionWeave.SignedDocument.Instant
import MissionWeave.SignedDocument.Point
import MissionWeave.CodeLib.MapLoop

/-!
# `resolve_agent_registry_key`

The evaluation of a whole Agent Registry, and the selection of a key in it.
The three maps of the source are `Std.TreeMap`s; `try_emplace` is
`insertIfNew`.  The body of the loop over the bindings is split into the reading
of a candidate, the comparisons with the maps and the loop over its history.
-/

namespace MissionWeave.Registry

/-! ## Parsed parts -/

def requiredText (object : Json) (field : String) : Except Thrown Bytes :=
  requiredStringField "Registry field is not text: " object field

/-- `require_exact_object`. -/
def requireExactObject (value : Json) (required allowed : List String) (label : String) :
    Except Thrown Unit :=
  if ¬value.isObject then
    .error (.invalidArgument ("Registry " ++ label ++ " is not an object"))
  else
    match required.find? fun field => !value.contains field with
    | some field =>
      .error (.invalidArgument ("Registry " ++ label ++ " is missing field: " ++ field))
    | none =>
      match value.members.find? fun m => !(allowed.map ascii).contains m.1 with
      | some m =>
        .error (.invalidArgument ("Registry " ++ label ++ " has unknown field: " ++ text m.1))
      | none => .ok ()

def rootFields : List String := ["organizationId", "bindings"]

def bindingFields : List String :=
  ["keyId", "principal", "algorithm", "publicKey", "validFrom", "validityHistory"]

def principalFields : List String := ["type", "id"]

def statusRequiredFields : List String := ["sequence", "recordedAt"]

def statusAllowedFields : List String := ["sequence", "recordedAt", "validUntil", "revokedAt"]

def principalTypes : List Bytes := [ascii "agent", ascii "human", ascii "service"]

structure ParsedBoundary where
  text : Bytes
  instant : ExactInstant

structure ValidityStatus where
  recordedAt : ExactInstant
  validUntil : Option ParsedBoundary
  revokedAt : Option ParsedBoundary

abbrev History := Std.TreeMap Nat ValidityStatus

structure NormalizedBinding where
  keyId : Bytes
  principal : Principal
  algorithm : Bytes
  publicKey : Bytes
  publicKeyBytes : Ed25519PublicKey
  validFrom : Bytes
  validFromInstant : ExactInstant
  history : History
  effectiveValidUntil : Option ParsedBoundary
  effectiveRevokedAt : Option ParsedBoundary

/-- `operator==` of two boundaries: their instants. -/
def ParsedBoundary.equals (left right : ParsedBoundary) : Bool :=
  left.instant.equals right.instant

def equalBoundaries : Option ParsedBoundary → Option ParsedBoundary → Bool
  | none, none => true
  | some left, some right => left.equals right
  | _, _ => false

/-- The defaulted `operator==`. -/
def ValidityStatus.equals (left right : ValidityStatus) : Bool :=
  left.recordedAt.equals right.recordedAt && equalBoundaries left.validUntil right.validUntil &&
    equalBoundaries left.revokedAt right.revokedAt

/-- `same_immutable`. -/
def NormalizedBinding.sameImmutable (left right : NormalizedBinding) : Bool :=
  left.principal == right.principal && left.algorithm == right.algorithm &&
    left.publicKeyBytes == right.publicKeyBytes &&
      left.validFromInstant.equals right.validFromInstant

/-- `boundary`. -/
def boundary (status : Json) (name : String) : Except Thrown (Option ParsedBoundary) :=
  if status.contains name then do
    let text ← requiredText status name
    let instant ← parseInstant text
    .ok (some ⟨text, instant⟩)
  else .ok none

/-- `std::uint64_t{9007199254740991}`. -/
def maximumSequence : Nat := 9007199254740991

/-- The sequence number and the status of an entry of `validityHistory`. -/
def parseStatus (status : Json) : Except Thrown (Nat × ValidityStatus) := do
  requireExactObject status statusRequiredFields statusAllowedFields "validity status"
  match (status.member? "sequence").bind Json.asUint64? with
  | none => .error (.invalidArgument "Registry validity sequence is not an integer")
  | some sequence =>
    if sequence = 0 ∨ maximumSequence < sequence then
      .error (.invalidArgument "Registry validity sequence is outside the safe range")
    else do
      let recordedAtText ← requiredText status "recordedAt"
      let recordedAt ← parseInstant recordedAtText
      let validUntil ← boundary status "validUntil"
      let revokedAt ← boundary status "revokedAt"
      .ok (sequence, ⟨recordedAt, validUntil, revokedAt⟩)

/-- `try_emplace` of a status, compared with the one that is stored. -/
def enterStatus (history : History) (entry : Nat × ValidityStatus) : Except Thrown History :=
  if history[entry.1]?.all (·.equals entry.2) then .ok (history.insertIfNew entry.1 entry.2)
  else .error (.invalidArgument "Registry rewrites validity history")

/-- The body of the loop over `validityHistory`. -/
def addStatus (history : History) (status : Json) : Except Thrown History := do
  let entry ← parseStatus status
  enterStatus history entry

/-! ## Folding a history -/

structure FoldState where
  expectedSequence : Nat
  previousRecordedAt : Option ExactInstant
  effectiveValidUntil : Option ParsedBoundary
  effectiveRevokedAt : Option ParsedBoundary

/-- `apply_boundary`. -/
def applyBoundary (name : String) (candidate effective : Option ParsedBoundary) :
    Except Thrown (Option ParsedBoundary) :=
  match candidate, effective with
  | none, _ => .ok effective
  | some candidate, none => .ok (some candidate)
  | some candidate, some effective =>
    match candidate.instant.order effective.instant with
    | .gt => .error (.invalidArgument ("Registry moves " ++ name ++ " later"))
    | .lt => .ok (some candidate)
    | .eq => .ok (some effective)

/-- The body of the loop of `fold_history`. -/
def foldStatus (state : FoldState) (entry : Nat × ValidityStatus) : Except Thrown FoldState :=
  let (sequence, status) := entry
  if sequence ≠ state.expectedSequence then
    .error (.invalidArgument "Registry validity history is not contiguous")
  else if (state.previousRecordedAt.map status.recordedAt.lt).getD false then
    .error (.invalidArgument "Registry validity history is not append ordered")
  else do
    let validUntil ← applyBoundary "validUntil" status.validUntil state.effectiveValidUntil
    let revokedAt ← applyBoundary "revokedAt" status.revokedAt state.effectiveRevokedAt
    .ok ⟨state.expectedSequence + 1, some status.recordedAt, validUntil, revokedAt⟩

/-- `fold_history`. -/
def foldHistory (binding : NormalizedBinding) : Except Thrown NormalizedBinding := do
  let state ← binding.history.toList.foldlM foldStatus
    ⟨1, none, binding.effectiveValidUntil, binding.effectiveRevokedAt⟩
  .ok { binding with
    effectiveValidUntil := state.effectiveValidUntil
    effectiveRevokedAt := state.effectiveRevokedAt }

/-! ## The registry -/

section

variable (env : Environment)

def requiredProtocolUri (object : Json) (field : String) : Except Thrown Bytes := do
  let value ← requiredText object field
  if env.isProtocolUri value then .ok value
  else .error (.invalidArgument ("Registry field is not a protocol URI: " ++ field))

/-- The first part of the loop body: the candidate of a raw binding. -/
def parseBinding (raw : Json) : Except Thrown NormalizedBinding := do
  requireExactObject raw bindingFields bindingFields "binding"
  let keyId ← requiredProtocolUri env raw "keyId"
  let rawPrincipal ← raw.at' "principal"
  requireExactObject rawPrincipal principalFields principalFields "Principal"
  let type ← requiredText rawPrincipal "type"
  let id ← requiredProtocolUri env rawPrincipal "id"
  if type ∉ principalTypes then
    .error (.invalidArgument "Registry Principal type is unsupported")
  else do
    let algorithm ← requiredText raw "algorithm"
    if algorithm ≠ ascii "Ed25519" then
      .error (.invalidArgument "Registry key algorithm is not Ed25519")
    else do
      let publicKey ← requiredText raw "publicKey"
      let publicKeyBytes ← decodeStrictEd25519PublicKey publicKey
      let validFrom ← requiredText raw "validFrom"
      let validFromInstant ← parseInstant validFrom
      .ok ⟨keyId, ⟨type, id⟩, algorithm, publicKey, publicKeyBytes, validFrom, validFromInstant,
        ∅, none, none⟩

/-- The key of `tuple_ids`. -/
def NormalizedBinding.tuple (candidate : NormalizedBinding) : List Bytes :=
  [candidate.principal.type, candidate.principal.id, candidate.algorithm,
    candidate.publicKeyBytes]

/-- `key_id + '\0' + principal.type + '\0' + principal.id`. -/
def NormalizedBinding.owner (candidate : NormalizedBinding) : Bytes :=
  candidate.keyId ++ 0 :: (candidate.principal.type ++ 0 :: candidate.principal.id)

structure Maps where
  bindings : Std.TreeMap Bytes NormalizedBinding
  publicKeyOwners : Std.TreeMap Ed25519PublicKey Bytes
  tupleIds : Std.TreeMap (List Bytes) Bytes

def Maps.empty : Maps := ⟨∅, ∅, ∅⟩

/-- The second part of the loop body: the comparisons with what `try_emplace`
finds in the maps. -/
def checkCandidate (maps : Maps) (candidate : NormalizedBinding) : Except Thrown Unit :=
  if ¬maps.bindings[candidate.keyId]?.all (·.sameImmutable candidate) then
    .error (.invalidArgument "Registry reuses a key ID for another immutable binding")
  else if ¬maps.tupleIds[candidate.tuple]?.all (· == candidate.keyId) then
    .error (.invalidArgument "Registry contains a key-ID alias")
  else if ¬maps.publicKeyOwners[candidate.publicKeyBytes]?.all (· == candidate.owner) then
    .error (.invalidArgument "Registry reuses a public key")
  else .ok ()

/-- The body of the loop over the bindings. -/
def addBinding (maps : Maps) (raw : Json) : Except Thrown Maps := do
  let candidate ← parseBinding env raw
  checkCandidate maps candidate
  let validityHistory ← raw.at' "validityHistory"
  if ¬validityHistory.isArray then
    .error (.invalidArgument "Registry validityHistory is not an array")
  else do
    let binding := maps.bindings.getD candidate.keyId candidate
    let history ← validityHistory.elements.foldlM addStatus binding.history
    .ok ⟨maps.bindings.insert candidate.keyId { binding with history := history },
      maps.publicKeyOwners.insertIfNew candidate.publicKeyBytes candidate.owner,
      maps.tupleIds.insertIfNew candidate.tuple candidate.keyId⟩

abbrev Bindings := Std.TreeMap Bytes NormalizedBinding

/-- The loop that folds the history of every binding. -/
def foldBindings (bindings : Bindings) : Except Thrown Bindings :=
  MapLoop.rewrite foldHistory bindings.toList bindings

/-- The checks on the whole registry, before a key is selected. -/
def evaluateRegistry (registry : Json) : Except Thrown (Bytes × Bindings) := do
  requireExactObject registry rootFields rootFields "root"
  let organizationId ← requiredProtocolUri env registry "organizationId"
  let bindings ← registry.at' "bindings"
  if ¬bindings.isArray ∨ bindings.elements = [] then
    .error (.invalidArgument "Registry bindings is not a non-empty array")
  else do
    let maps ← bindings.elements.foldlM (addBinding env) Maps.empty
    let folded ← foldBindings maps.bindings
    .ok (organizationId, folded)

end

/-- The principal of the request. -/
def checkPrincipal (binding : NormalizedBinding) (request : KeyResolutionRequest) :
    Except Thrown Unit :=
  if request.servicePrincipalRequired then
    if binding.principal.type ≠ ascii "service" then
      .error (.invalidArgument "Agent Card signer is not a service Principal")
    else .ok ()
  else if request.expectedPrincipal ≠ some binding.principal then
    .error (.invalidArgument "resolved key is bound to the wrong Principal")
  else .ok ()

/-- `boundary && instant >= boundary->instant`. -/
def reaches (instant : ExactInstant) (limit : Option ParsedBoundary) : Bool :=
  match limit with
  | none => false
  | some limit => !instant.lt limit.instant

/-- The validity of a binding at the protected time. -/
def checkInterval (binding : NormalizedBinding) (request : KeyResolutionRequest) :
    Except Thrown Unit :=
  if request.protectedInstant.lt binding.validFromInstant then
    .error (.invalidArgument "signing key is not yet valid at the protected time")
  else if reaches request.protectedInstant binding.effectiveValidUntil then
    .error (.invalidArgument "signing key is expired at the protected time")
  else if reaches request.protectedInstant binding.effectiveRevokedAt then
    .error (.invalidArgument "signing key is revoked at the protected time")
  else .ok ()

def NormalizedBinding.resolution (binding : NormalizedBinding) (organizationId : Bytes) :
    RegistryKeyResolution :=
  ⟨{ organizationId := organizationId
     keyId := binding.keyId
     principal := binding.principal
     algorithm := binding.algorithm
     publicKey := binding.publicKey
     validFrom := binding.validFrom
     validFromInstant := binding.validFromInstant
     validUntil := binding.effectiveValidUntil.map (·.text)
     validUntilInstant := binding.effectiveValidUntil.map (·.instant)
     revokedAt := binding.effectiveRevokedAt.map (·.text)
     revokedAtInstant := binding.effectiveRevokedAt.map (·.instant) },
    binding.publicKeyBytes⟩

/-- The selection of the requested key. -/
def selectKey (organizationId : Bytes) (bindings : Bindings) (request : KeyResolutionRequest) :
    Except Thrown RegistryKeyResolution :=
  match bindings[request.keyId]? with
  | none => .error (.invalidArgument "signature.keyId is unknown")
  | some binding => do
    checkPrincipal binding request
    checkInterval binding request
    .ok (binding.resolution organizationId)

/-- `resolve_agent_registry_key`. -/
def resolveAgentRegistryKey (env : Environment) (registryBytes : Bytes)
    (request : KeyResolutionRequest) : Except Thrown RegistryKeyResolution := do
  let registry ← env.parseStrictJson registryBytes
  let (organizationId, bindings) ← evaluateRegistry env registry
  selectKey organizationId bindings request

end MissionWeave.Registry
