import MissionWeave.Bundle.ProtocolPin
import MissionWeave.Bundle.ArtifactPath
import MissionWeave.Canonical.Hash

/-!
# The two artifact manifests

`verify_cryptography` and `verify_admission` of `bundle.cpp`.  Both check the
members of a manifest, its counts, the artifacts that it lists and its own
digest.  `ManifestKind` is what the common part takes from the two.

The artifacts are looked up in the table that `embedded_assets` returns, which
is a parameter.
-/

namespace MissionWeave.Bundle

/-- `sha256_identifier`. -/
def sha256Identifier (env : Environment) (bytes : Bytes) : Except Thrown Bytes := do
  let digest ← (DigestContext.empty.update bytes).finish env
  .ok (ascii "sha256:" ++ digest)

/-! ## The accessors -/

/-- `ProtocolBundle::protocol_pin_bytes`. -/
def protocolPinBytes (assets : List EmbeddedAsset) : Bytes :=
  match findAsset assets (ascii "PROTOCOL_PIN.json") with
  | none => []
  | some asset => asset.bytes

/-- `ProtocolBundle::pin`. -/
def protocolPin (env : Environment) (assets : List EmbeddedAsset) : Except Thrown ProtocolPin :=
  parseProtocolPin env (protocolPinBytes assets)

/-! ## The common part -/

/-- The name of a manifest in paths and messages, and the label that the fields
of an artifact go by. -/
structure ManifestKind where
  name : String
  artifactLabel : String

namespace ManifestKind

def cryptography : ManifestKind := ⟨"cryptography", "cryptography manifest"⟩

def admission : ManifestKind := ⟨"admission", "admission manifest artifact"⟩

def label (kind : ManifestKind) : String := kind.name ++ " manifest"

def primaryPrefix (kind : ManifestKind) : Bytes := ascii kind.name ++ [Ascii.slash]

def manifestPath (kind : ManifestKind) : Bytes := ascii (kind.name ++ "/manifest.json")

def readmePath (kind : ManifestKind) : Bytes := ascii (kind.name ++ "/README.md")

end ManifestKind

/-- The manifest that the table has under the path. -/
def manifestAt (env : Environment) (assets : List EmbeddedAsset) (kind : ManifestKind)
    (path : Bytes) : Except Thrown Json :=
  match findAsset assets path with
  | none => bundleError ("embedded " ++ kind.name ++ " manifest is missing")
  | some manifestAsset => do
    let manifest ← env.parseStrictJson manifestAsset.bytes
    if ¬manifest.isObject then bundleError (kind.label ++ " must be a JSON object")
    else .ok manifest

/-- The loop over the cases, which adds up their evaluations. -/
def countEvaluations (kind : ManifestKind) : Nat → List Json → Except Thrown Nat
  | count, [] => .ok count
  | count, testCase :: cases =>
    if ¬testCase.isObject then bundleError (kind.label ++ " case must be an object")
    else do
      let evaluations ← requiredArray testCase "evaluations" kind.label
      countEvaluations kind (count + evaluations.elements.length) cases

/-- The body of the loop over the artifacts, with the `paths` so far. -/
def verifyArtifact (env : Environment) (assets : List EmbeddedAsset) (kind : ManifestKind)
    (paths : List Bytes) (item : Json) : Except Thrown (List Bytes) :=
  if ¬item.isObject ∨ item.members.length ≠ 3 ∨ ¬item.contains "path" ∨
      ¬item.contains "byteLength" ∨ ¬item.contains "sha256" then
    bundleError (kind.label ++ " artifact has invalid fields")
  else do
    let artifactPath ← requiredString item "path" kind.artifactLabel
    validateArtifactPath artifactPath kind.primaryPrefix kind.manifestPath kind.readmePath
    if artifactPath ∈ paths then
      bundleError ("duplicate " ++ kind.name ++ " artifact path: " ++ text artifactPath)
    else do
      let byteLength ← requiredSize item "byteLength" kind.artifactLabel
      let expectedDigest ← requiredString item "sha256" kind.artifactLabel
      match findAsset assets artifactPath with
      | none =>
        bundleError ("embedded " ++ kind.name ++ " artifact is missing: " ++ text artifactPath)
      | some asset => do
        requireEqualSize (kind.name ++ " artifact byteLength") byteLength asset.bytes.length
        requireEqual (kind.name ++ " artifact sha256") expectedDigest
          (← sha256Identifier env asset.bytes)
        .ok (artifactPath :: paths)

structure ContentsSummary where
  artifactDigest : Bytes
  artifactCount : Nat
  caseCount : Nat
  evaluationCount : Nat

/-- What both functions do with the contents of a manifest. -/
def verifyContents (env : Environment) (assets : List EmbeddedAsset) (kind : ManifestKind)
    (pin : ContentsSummary) (manifest : Json) : Except Thrown ContentsSummary := do
  let artifacts ← requiredArray manifest "artifacts" kind.label
  let cases ← requiredArray manifest "cases" kind.label
  requireEqualSize (kind.name ++ " artifact count") pin.artifactCount artifacts.elements.length
  requireEqualSize (kind.name ++ " case count") pin.caseCount cases.elements.length
  let evaluationCount ← countEvaluations kind 0 cases.elements
  requireEqualSize (kind.name ++ " evaluation count") pin.evaluationCount evaluationCount
  let _ ← artifacts.elements.foldlM (verifyArtifact env assets kind) []
  let actualDigest ← Canonical.canonicalSha256 env (manifest.erase "artifactDigest")
  requireEqual (kind.label ++ " artifactDigest") pin.artifactDigest actualDigest
  .ok ⟨actualDigest, artifacts.elements.length, cases.elements.length, evaluationCount⟩

/-! ## `verify_cryptography` -/

structure CryptographyBundleSummary where
  sourceCommit : Bytes
  profileId : Bytes
  manifestVersion : Nat
  contents : ContentsSummary

/-- What the pin has for the contents of the cryptography manifest. -/
def CryptographyPin.contents (pin : CryptographyPin) : ContentsSummary :=
  ⟨pin.artifactDigest, pin.artifactCount, pin.caseCount, pin.evaluationCount⟩

def cryptographyManifestFields : List String :=
  ["$schema", "artifactDigest", "artifacts", "cases", "fixtureSchemas", "manifestVersion",
    "profileId", "profiles", "protocolVersion", "semanticStages"]

/-- The members of the manifest itself that `verify_cryptography` compares. -/
def cryptographyHeader (pin : ProtocolPin) : List (String × Pinned) := [
  ("manifestVersion", .size pin.cryptography.manifestVersion),
  ("protocolVersion", .text pin.protocolVersion),
  ("profileId", .text pin.cryptography.profileId),
  ("artifactDigest", .text pin.cryptography.artifactDigest)]

/-- `ProtocolBundle::verify_cryptography`. -/
def verifyCryptography (env : Environment) (assets : List EmbeddedAsset) :
    Except Thrown CryptographyBundleSummary := do
  let pin ← protocolPin env assets
  let manifest ← manifestAt env assets .cryptography pin.cryptography.path
  requireFields manifest cryptographyManifestFields "cryptography manifest"
  requirePinned manifest "cryptography manifest" (cryptographyHeader pin)
  let contents ← verifyContents env assets .cryptography pin.cryptography.contents manifest
  .ok ⟨pin.cryptography.sourceCommit, pin.cryptography.profileId,
    pin.cryptography.manifestVersion, contents⟩

/-! ## `verify_admission` -/

structure AdmissionBundleSummary where
  sourceCommit : Bytes
  profileId : Bytes
  manifestVersion : Nat
  cryptographyArtifactDigest : Bytes
  contents : ContentsSummary

/-- What the pin has for the contents of the admission manifest. -/
def AdmissionPin.contents (pin : AdmissionPin) : ContentsSummary :=
  ⟨pin.artifactDigest, pin.artifactCount, pin.caseCount, pin.evaluationCount⟩

def admissionManifestFields : List String :=
  ["$schema", "artifactDigest", "artifacts", "cases", "cryptography", "fixtureSchemas",
    "manifestVersion", "profileId", "protocolVersion", "semanticStage", "wireCode"]

/-- The members of the manifest itself that `verify_admission` compares. -/
def admissionHeader (pin : ProtocolPin) : List (String × Pinned) := [
  ("manifestVersion", .size pin.admission.manifestVersion),
  ("protocolVersion", .text pin.protocolVersion),
  ("profileId", .text pin.admission.profileId),
  ("semanticStage", .text (ascii "admission")),
  ("wireCode", .text (ascii "AUTH_INVALID_SIGNATURE")),
  ("artifactDigest", .text pin.admission.artifactDigest)]

/-- `ProtocolBundle::verify_admission`. -/
def verifyAdmission (env : Environment) (assets : List EmbeddedAsset) :
    Except Thrown AdmissionBundleSummary := do
  let pin ← protocolPin env assets
  let manifest ← manifestAt env assets .admission pin.admission.path
  requireFields manifest admissionManifestFields "admission manifest"
  requirePinned manifest "admission manifest" (admissionHeader pin)
  let cryptography ← requiredObject manifest "cryptography" "admission manifest"
  requireFields cryptography ["artifactDigest", "manifest"] "admission manifest cryptography"
  requirePinned cryptography "admission manifest cryptography"
    [("manifest", .text pin.cryptography.path)]
  let cryptographyDigest ←
    requiredString cryptography "artifactDigest" "admission manifest cryptography"
  requireEqual "admission manifest cryptography artifactDigest"
    pin.admission.cryptographyArtifactDigest cryptographyDigest
  requireEqual "admission manifest pinned cryptography artifactDigest"
    pin.cryptography.artifactDigest cryptographyDigest
  let contents ← verifyContents env assets .admission pin.admission.contents manifest
  .ok ⟨pin.admission.sourceCommit, pin.admission.profileId, pin.admission.manifestVersion,
    cryptographyDigest, contents⟩

end MissionWeave.Bundle
