import MissionWeave.Bundle.Verify

/-!
# Verified tables agree

What the pin settles about the table of a build: two tables that pass the
checks of `ProtocolBundle` hold the same manifests and the same artifacts, up to
collisions of SHA-256.

`sampleAssets` is a table that passes all three.
-/

namespace MissionWeave.Bundle

open Canonical (identifier)
open ContentAddress (Rooted)
open SignedDocumentCodec (NotNumeral StringMember)
open StrictScanner (maximumDepth)

variable {env : Environment} {assets assets' : List EmbeddedAsset}

theorem stringMember_artifactDigest {manifest : Json} {fields : List (String × Pinned)}
    {digest : Bytes} (h : AllHold manifest fields)
    (hfield : ("artifactDigest", Pinned.text digest) ∈ fields) (hdigest : NotNumeral digest) :
    StringMember manifest "artifactDigest" digest :=
  hdigest.stringMember (h _ hfield)

/-- Two tables that pass `verify_cryptography` have cryptography manifests with
the same data and the same artifact under each path that they list, and so for
`verify_admission`, but for texts or artifacts that collide. -/
theorem verified_manifests_agree (hparse : DecodesJson env.jsonParse) :
    (∀ summary summary', verifyCryptography env assets = .ok summary →
      verifyCryptography env assets' = .ok summary' →
        SameArtifacts env assets assets' embeddedPin.cryptography.path) ∧
    (∀ summary summary', verifyAdmission env assets = .ok summary →
      verifyAdmission env assets' = .ok summary' →
        SameArtifacts env assets assets' embeddedPin.admission.path) := by
  constructor
  · intro summary summary' h h'
    obtain ⟨_, ⟨manifest, hdocument, hmanifest⟩, _⟩ := (verifyCryptography_eq_ok hparse).mp h
    obtain ⟨_, ⟨manifest', hdocument', hmanifest'⟩, _⟩ := (verifyCryptography_eq_ok hparse).mp h'
    have hfield : ("artifactDigest", Pinned.text embeddedPin.cryptography.artifactDigest) ∈
        cryptographyHeader embeddedPin := by simp [cryptographyHeader]
    have hdigest : NotNumeral embeddedPin.cryptography.artifactDigest :=
      ⟨0x73, by decide, by decide, by decide⟩
    exact hmanifest.contents.agree hdocument hdocument' hmanifest.object hmanifest'.object
      (stringMember_artifactDigest hmanifest.header hfield hdigest)
      (stringMember_artifactDigest hmanifest'.header hfield hdigest) hmanifest'.contents
  · intro summary summary' h h'
    obtain ⟨_, ⟨manifest, hdocument, hmanifest⟩, _⟩ := (verifyAdmission_eq_ok hparse).mp h
    obtain ⟨_, ⟨manifest', hdocument', hmanifest'⟩, _⟩ := (verifyAdmission_eq_ok hparse).mp h'
    have hfield : ("artifactDigest", Pinned.text embeddedPin.admission.artifactDigest) ∈
        admissionHeader embeddedPin := by simp [admissionHeader]
    have hdigest : NotNumeral embeddedPin.admission.artifactDigest :=
      ⟨0x73, by decide, by decide, by decide⟩
    exact hmanifest.contents.agree hdocument hdocument' hmanifest.object hmanifest'.object
      (stringMember_artifactDigest hmanifest.header hfield hdigest)
      (stringMember_artifactDigest hmanifest'.header hfield hdigest) hmanifest'.contents

/-! ## A table that passes -/

/-- A name of two letters. -/
def sampleName (i : Nat) : Bytes := [UInt8.ofNat (0x61 + i / 26), UInt8.ofNat (0x61 + i % 26)]

/-- The bytes that hexadecimal digits stand for. -/
def ofHex : Bytes → Bytes
  | high :: low :: rest =>
    UInt8.ofNat ((Ascii.hexValue? high).getD 0 * 16 + (Ascii.hexValue? low).getD 0) :: ofHex rest
  | _ => []

/-- The SHA-256 digest of no bytes. -/
def emptyDigest : Bytes :=
  ofHex (ascii "e3b0c44298fc1c149afbf4c8996fb92427ae41e4649b934ca495991b7852b855")

/-- An empty artifact. -/
def sampleArtifact (kind : ManifestKind) (i : Nat) : EmbeddedAsset :=
  ⟨kind.primaryPrefix ++ sampleName i, []⟩

def sampleItem (kind : ManifestKind) (i : Nat) : Json :=
  .object [(ascii "byteLength", .uint64 0),
    (ascii "path", .string (kind.primaryPrefix ++ sampleName i)),
    (ascii "sha256", .string (identifier emptyDigest))]

/-- The first case has all the evaluations. -/
def sampleCase (evaluations i : Nat) : Json :=
  .object [(ascii "evaluations", .array (List.replicate (if i = 0 then evaluations else 0) .null))]

def sampleContents (kind : ManifestKind) (pin : ContentsSummary) : List (Bytes × Json) := [
  (ascii "artifacts", .array ((List.range pin.artifactCount).map (sampleItem kind))),
  (ascii "cases", .array ((List.range pin.caseCount).map (sampleCase pin.evaluationCount)))]

def sampleCryptographyManifest : Json :=
  .ofMembers (pinnedMembers (cryptographyHeader embeddedPin) ++
    sampleContents .cryptography embeddedPin.cryptography.contents ++
    ["$schema", "fixtureSchemas", "profiles", "semanticStages"].map fun name => (ascii name, .null))

def sampleAdmissionManifest : Json :=
  .ofMembers (pinnedMembers (admissionHeader embeddedPin) ++
    sampleContents .admission embeddedPin.admission.contents ++
    [(ascii "cryptography", pinnedObject [("manifest", .text embeddedPin.cryptography.path),
      ("artifactDigest", .text embeddedPin.cryptography.artifactDigest)])] ++
    ["$schema", "fixtureSchemas"].map fun name => (ascii name, .null))

def canonicalText (v : Json) : Bytes := (Canonical.canonicalJson v).toOption.getD []

mutual

/-- A text of a value whose strings have nothing to escape, and what is behind
it. -/
def sampleText : Json → Bytes → Bytes
  | .string text, rest => Ascii.quote :: (text ++ Ascii.quote :: rest)
  | .array xs, rest => Ascii.leftBracket :: sampleElements xs (Ascii.rightBracket :: rest)
  | .object ms, rest => Ascii.leftBrace :: sampleMembers ms (Ascii.rightBrace :: rest)
  | v, rest => canonicalText v ++ rest

def sampleElements : List Json → Bytes → Bytes
  | [], rest => rest
  | [x], rest => sampleText x rest
  | x :: y :: xs, rest => sampleText x (Ascii.comma :: sampleElements (y :: xs) rest)

def sampleMembers : List (Bytes × Json) → Bytes → Bytes
  | [], rest => rest
  | [(name, v)], rest =>
    Ascii.quote :: (name ++ Ascii.quote :: Ascii.colon :: sampleText v rest)
  | (name, v) :: m :: ms, rest =>
    Ascii.quote :: (name ++ Ascii.quote :: Ascii.colon ::
      sampleText v (Ascii.comma :: sampleMembers (m :: ms) rest))

end

/-- A document and a text of it. -/
structure DocumentFile where
  document : Json
  text : Bytes
  denotes : Decoder.decode text = some document

def pinFile : DocumentFile where
  document := embeddedPin.document
  text := sampleText embeddedPin.document []
  denotes := by decide +kernel

def cryptographyFile : DocumentFile where
  document := sampleCryptographyManifest
  text := sampleText sampleCryptographyManifest []
  denotes := by decide +kernel

def admissionFile : DocumentFile where
  document := sampleAdmissionManifest
  text := sampleText sampleAdmissionManifest []
  denotes := by decide +kernel

/-- A vector that is to be rejected. -/
def sampleVector : Json :=
  .object [(ascii "instance", .string (ascii "conformance/aa.json")),
    (ascii "name", .string (ascii "number")), (ascii "schema", .string (ascii "schemas/aa.json")),
    (ascii "valid", .bool false)]

def vectorsFile : DocumentFile where
  document := .array [sampleVector]
  text := sampleText (.array [sampleVector]) []
  denotes := by decide +kernel

def sampleSchemaDocument (i : Nat) : Json :=
  .object [(ascii "$id", .string (ascii "urn:" ++ sampleName i)),
    (ascii "type", .string (ascii "object"))]

def sampleSchema (i : Nat) : EmbeddedAsset :=
  ⟨ascii "schemas/" ++ (sampleName i ++ ascii ".json"), sampleText (sampleSchemaDocument i) []⟩

def sampleInstance (i : Nat) : EmbeddedAsset :=
  ⟨ascii "conformance/" ++ (sampleName i ++ ascii ".json"), ascii "0"⟩

def sampleSchemas : List EmbeddedAsset := (List.range 22).map sampleSchema

def sampleConformance : List EmbeddedAsset :=
  (List.range 58).map sampleInstance ++ [⟨ascii "conformance/manifest.json", vectorsFile.text⟩]

def sampleAssets : List EmbeddedAsset :=
  [⟨ascii "PROTOCOL_PIN.json", pinFile.text⟩] ++
    (List.range 19).map (sampleArtifact .admission) ++
    [⟨embeddedPin.admission.path, admissionFile.text⟩] ++ sampleConformance ++
    (List.range 98).map (sampleArtifact .cryptography) ++
    [⟨embeddedPin.cryptography.path, cryptographyFile.text⟩] ++ sampleSchemas

/-- What SHA-256 is asked for in the table, with the pinned digests. -/
def sampleDigests : List (Bytes × Bytes) := [
  ([], emptyDigest),
  (treeInput sampleSchemas, ofHex embeddedPin.artifacts.schemas.sha256),
  (treeInput sampleConformance, ofHex embeddedPin.artifacts.conformance.sha256),
  (treeInput (sampleConformance ++ sampleSchemas), ofHex embeddedPin.bundleSha256),
  (canonicalText (sampleCryptographyManifest.erase "artifactDigest"),
    ofHex (embeddedPin.cryptography.artifactDigest.drop 7)),
  (canonicalText (sampleAdmissionManifest.erase "artifactDigest"),
    ofHex (embeddedPin.admission.artifactDigest.drop 7))]

def sampleEnvironment : Environment :=
  { Environment.reference with evpDigest := fun bytes => sampleDigests.lookup bytes }

/-- The table with a file that no check reads. -/
def widerAssets : List EmbeddedAsset := sampleAssets ++ [⟨ascii "schemas/zz.txt", ascii "1"⟩]

/-- What is computed of the table. -/
structure SampleChecks : Prop where
  artifactPaths : ∀ kind ∈ [ManifestKind.cryptography, .admission], ∀ i < 98,
    (kind.primaryPrefix ++ sampleName i).length ≤ 512 ∧
      (∀ segment ∈ (kind.primaryPrefix ++ sampleName i).splitOn Ascii.slash,
        validSegment segment = true) ∧
      kind.primaryPrefix ++ sampleName i ≠ kind.manifestPath ∧
      kind.primaryPrefix ++ sampleName i ≠ kind.readmePath
  cryptographyHeader :
    requirePinned sampleCryptographyManifest "" (cryptographyHeader embeddedPin) = .ok ()
  admissionHeader : requirePinned sampleAdmissionManifest "" (admissionHeader embeddedPin) = .ok ()
  manifestTexts : ∀ manifest ∈ [sampleCryptographyManifest, sampleAdmissionManifest],
    (Canonical.canonicalJson (manifest.erase "artifactDigest")).isOk = true
  manifestDigests : ∀ hash ∈ [embeddedPin.cryptography.artifactDigest,
    embeddedPin.admission.artifactDigest], identifier (ofHex (hash.drop 7)) = hash
  trees : ∀ assets ∈ [sampleAssets, widerAssets],
    jsonAssets assets (ascii "schemas/") = sampleSchemas ∧
      jsonAssets assets (ascii "conformance/") = sampleConformance
  treeDigests : ∀ sha256 ∈ [embeddedPin.artifacts.schemas.sha256,
    embeddedPin.artifacts.conformance.sha256, embeddedPin.bundleSha256],
      DigestContext.hexText (ofHex sha256) = sha256
  nulFree : ∀ tree ∈ [sampleSchemas, sampleConformance], NulFree tree
  schemaDocuments : ∀ i < 22,
    Decoder.decode (sampleText (sampleSchemaDocument i) []) = some (sampleSchemaDocument i)
  instances : Decoder.decode (ascii "0") = some (.uint64 0)
  /-- The table of digests has one entry for a text. -/
  distinct : (sampleDigests.map Prod.fst).Nodup

theorem treeInput_append (assets assets' : List EmbeddedAsset) :
    treeInput (assets ++ assets') = treeInput assets ++ treeInput assets' := by
  simp only [treeInput_eq, fields, List.flatMap_append, Terminated.joined]

theorem sampleChecks : SampleChecks where
  artifactPaths := by decide +kernel
  cryptographyHeader := by decide +kernel
  admissionHeader := by decide +kernel
  manifestTexts := by decide +kernel
  manifestDigests := by decide +kernel
  trees := by decide +kernel
  treeDigests := by decide +kernel
  nulFree := by
    unfold NulFree
    decide +kernel
  schemaDocuments := by decide +kernel
  instances := by decide +kernel
  distinct := by
    -- the input of the whole bundle goes on where that of one tree ends
    have hbundle : treeInput sampleConformance ≠
        treeInput (sampleConformance ++ sampleSchemas) := by
      rw [treeInput_append, Ne, List.self_eq_append_right]
      decide +kernel
    simp only [sampleDigests, List.map_cons, List.map_nil, List.nodup_cons, List.mem_cons, not_or,
      hbundle, not_false_eq_true, true_and]
    decide +kernel

/-- A table in order. -/
abbrev OrderedTable := {assets : List EmbeddedAsset // Increasing assets}

def widerTable : OrderedTable := ⟨widerAssets, List.isChain_iff_pairwise.mp (by decide +kernel)⟩

def treesTable : OrderedTable :=
  ⟨sampleConformance ++ sampleSchemas, List.isChain_iff_pairwise.mp (by decide +kernel)⟩

theorem increasing_widerAssets : Increasing widerAssets := widerTable.property

theorem increasing_sampleAssets : Increasing sampleAssets :=
  increasing_widerAssets.sublist ((List.sublist_append_left _ _).map _)

theorem sampleName_inj {i j : Nat} (hi : i < 98) (hj : j < 98) (h : sampleName i = sampleName j) :
    i = j := by
  obtain ⟨hhigh, hrest⟩ := List.cons.inj h
  have hhigh := congrArg UInt8.toNat hhigh
  have hlow := congrArg UInt8.toNat (List.cons.inj hrest).1
  rw [UInt8.toNat_ofNat', UInt8.toNat_ofNat'] at hhigh hlow
  omega

theorem listed_sample (h : Increasing assets) {kind : ManifestKind} {i : Nat}
    (hkind : kind ∈ [ManifestKind.cryptography, .admission]) (hi : i < 98)
    (hmem : sampleArtifact kind i ∈ assets) :
    Listed sampleEnvironment assets kind (sampleItem kind i)
      (kind.primaryPrefix ++ sampleName i) where
  object := rfl
  fields := rfl
  pathMember := ⟨_, rfl, rfl⟩
  artifactPath := by
    obtain ⟨hlength, hsegments, _⟩ := sampleChecks.artifactPaths kind hkind i hi
    exact ⟨hlength, .inl ⟨_, rfl⟩, fun segment hmem => validSegment_iff.mp (hsegments segment hmem)⟩
  manifest := (sampleChecks.artifactPaths kind hkind i hi).2.2.1
  readme := (sampleChecks.artifactPaths kind hkind i hi).2.2.2
  embedded := ⟨_, emptyDigest, findAsset_of_mem h hmem, ⟨_, rfl, rfl⟩, ⟨_, rfl, rfl⟩, rfl⟩

/-- The contents of a manifest of the table. -/
theorem contents_sample (h : Increasing assets) {kind : ManifestKind} {pin : ContentsSummary}
    {manifest : Json} (hkind : kind ∈ [ManifestKind.cryptography, .admission])
    (hcount : pin.artifactCount ≤ 98)
    (hmem : ∀ i < pin.artifactCount, sampleArtifact kind i ∈ assets)
    (hartifacts : manifest.member? "artifacts" =
      some (.array ((List.range pin.artifactCount).map (sampleItem kind))))
    (hcases : manifest.member? "cases" =
      some (.array ((List.range pin.caseCount).map (sampleCase pin.evaluationCount))))
    (hnonempty : pin.caseCount ≠ 0)
    (hdigest : Canonical.canonicalSha256 sampleEnvironment (manifest.erase "artifactDigest") =
      .ok pin.artifactDigest) :
    Contents sampleEnvironment assets kind pin manifest where
  artifacts := by
    refine ⟨_, (List.range pin.artifactCount).map fun i => kind.primaryPrefix ++ sampleName i,
      hartifacts, by simp, ?_, ?_⟩
    · rw [List.forall₂_map_left_iff, List.forall₂_map_right_iff, List.forall₂_same]
      intro i hi
      have hi := List.mem_range.mp hi
      exact listed_sample h hkind (Nat.lt_of_lt_of_le hi hcount) (hmem i hi)
    · apply List.Nodup.map_on _ List.nodup_range
      intro i hi j hj heq
      have hi := Nat.lt_of_lt_of_le (List.mem_range.mp hi) hcount
      have hj := Nat.lt_of_lt_of_le (List.mem_range.mp hj) hcount
      exact sampleName_inj hi hj (List.append_cancel_left heq)
  cases := by
    refine ⟨_, hcases, by simp, ?_, ?_⟩
    · rw [List.forall_mem_map]
      intro i _
      exact ⟨rfl, _, rfl⟩
    · obtain ⟨count, hcount⟩ := Nat.exists_eq_succ_of_ne_zero hnonempty
      have hlength (i : Nat) : (evaluationsOf (sampleCase pin.evaluationCount i)).length =
          if i = 0 then pin.evaluationCount else 0 := List.length_replicate
      rw [List.map_map, Function.comp_def]
      simp only [hlength, hcount, List.range_succ_eq_map]
      simp [Function.comp_def]
  digest := hdigest

theorem documentAt_sample (h : Increasing assets) {path : Bytes} (file : DocumentFile)
    (hmem : ⟨path, file.text⟩ ∈ assets) : DocumentAt assets path file.document :=
  ⟨_, findAsset_of_mem h hmem, Decoder.decode_sound file.denotes⟩

theorem hasPin_sample (h : Increasing assets)
    (hmem : ⟨ascii "PROTOCOL_PIN.json", pinFile.text⟩ ∈ assets) :
    HasPin assets := by
  obtain ⟨asset, hasset, htext, _⟩ := documentAt_sample h pinFile hmem
  rw [HasPin, protocolPinBytes, hasset]
  exact htext

theorem evpDigest_sample {text digest : Bytes} (h : (text, digest) ∈ sampleDigests) :
    sampleEnvironment.evpDigest text = some digest := by
  obtain ⟨before, after, hsplit⟩ := List.append_of_mem h
  refine List.lookup_eq_some_iff.mpr ⟨before, after, hsplit, fun entry hentry => ?_⟩
  have hnodup := sampleChecks.distinct
  rw [hsplit, List.map_append, List.nodup_append] at hnodup
  exact bne_iff_ne.mpr (hnodup.2.2 _ (List.mem_map_of_mem hentry) _ List.mem_cons_self).symm

theorem canonicalSha256_sample {v : Json} {hash : Bytes}
    (hcanonical : (Canonical.canonicalJson v).isOk = true)
    (h : (canonicalText v, ofHex (hash.drop 7)) ∈ sampleDigests)
    (hhash : identifier (ofHex (hash.drop 7)) = hash) :
    Canonical.canonicalSha256 sampleEnvironment v = .ok hash := by
  have hdigest := evpDigest_sample h
  rw [canonicalText] at hdigest
  cases htext : Canonical.canonicalJson v with
  | error thrown =>
    rw [htext] at hcanonical
    cases hcanonical
  | ok text =>
    rw [htext, Except.toOption, Option.getD_some] at hdigest
    rw [Canonical.canonicalSha256, htext, Except.ok_bind, Canonical.sha256Hex, hdigest,
      Except.ok_bind]
    exact congrArg _ hhash

/-- The hashes of the sample manifests are the pinned ones. -/
theorem canonicalSha256_samples :
    (Canonical.canonicalSha256 sampleEnvironment
      (sampleCryptographyManifest.erase "artifactDigest") =
        .ok embeddedPin.cryptography.artifactDigest) ∧
    Canonical.canonicalSha256 sampleEnvironment
      (sampleAdmissionManifest.erase "artifactDigest") =
        .ok embeddedPin.admission.artifactDigest := by
  constructor
  · exact canonicalSha256_sample (sampleChecks.manifestTexts _ (by simp)) (by simp [sampleDigests])
      (sampleChecks.manifestDigests _ (by simp))
  · exact canonicalSha256_sample (sampleChecks.manifestTexts _ (by simp)) (by simp [sampleDigests])
      (sampleChecks.manifestDigests _ (by simp))

/-- The table, and any other in order that has its files, passes. -/
theorem verifyCryptography_sample (h : Increasing assets) (hsub : sampleAssets ⊆ assets) :
    verifyCryptography sampleEnvironment assets = .ok cryptographySummary := by
  refine (verifyCryptography_eq_ok decodesJson_referenceParse).mpr ⟨?_, ?_, rfl⟩
  · exact hasPin_sample h (hsub (by simp [sampleAssets]))
  · refine ⟨sampleCryptographyManifest, ?_, rfl, ?_, ?_, ?_⟩
    · exact documentAt_sample h cryptographyFile (hsub (by simp [sampleAssets]))
    · intro name
      exact List.Perm.mem_iff (by decide)
    · exact requirePinned_eq_ok.mp sampleChecks.cryptographyHeader
    · refine contents_sample h List.mem_cons_self (Nat.le_refl _) ?_ rfl rfl (by decide)
        canonicalSha256_samples.1
      intro i hi
      apply hsub
      simp only [sampleAssets, List.mem_append, List.mem_map, List.mem_range]
      exact .inl (.inl (.inr ⟨i, hi, rfl⟩))

theorem verifyAdmission_sample (h : Increasing assets) (hsub : sampleAssets ⊆ assets) :
    verifyAdmission sampleEnvironment assets = .ok admissionSummary := by
  refine (verifyAdmission_eq_ok decodesJson_referenceParse).mpr ⟨?_, ?_, rfl⟩
  · exact hasPin_sample h (hsub (by simp [sampleAssets]))
  · refine ⟨sampleAdmissionManifest, ?_, rfl, ?_, ?_, ?_, ?_⟩
    · exact documentAt_sample h admissionFile (hsub (by simp [sampleAssets]))
    · intro name
      exact List.Perm.mem_iff (by decide)
    · exact requirePinned_eq_ok.mp sampleChecks.admissionHeader
    · exact ⟨_, rfl, rfl, fun name => List.Perm.mem_iff (by decide), ⟨_, rfl, rfl⟩, ⟨_, rfl, rfl⟩⟩
    · refine contents_sample h (by simp) (by decide) ?_ rfl rfl (by decide)
        canonicalSha256_samples.2
      intro i hi
      apply hsub
      simp only [sampleAssets, List.mem_append, List.mem_map, List.mem_range]
      exact .inl (.inl (.inl (.inl (.inl (.inr ⟨i, hi, rfl⟩)))))

theorem verified_manifests_agree_sample :
    SameArtifacts sampleEnvironment sampleAssets widerAssets embeddedPin.cryptography.path ∧
      SameArtifacts sampleEnvironment sampleAssets widerAssets embeddedPin.admission.path := by
  have hwider : sampleAssets ⊆ widerAssets := List.subset_append_left _ _
  obtain ⟨hcryptography, hadmission⟩ := @verified_manifests_agree sampleEnvironment sampleAssets
    widerAssets decodesJson_referenceParse
  constructor
  · exact hcryptography _ _ (verifyCryptography_sample increasing_sampleAssets (List.Subset.refl _))
      (verifyCryptography_sample increasing_widerAssets hwider)
  · exact hadmission _ _ (verifyAdmission_sample increasing_sampleAssets (List.Subset.refl _))
      (verifyAdmission_sample increasing_widerAssets hwider)

/-! ## Its trees -/

theorem treeDigest_sample {assets : List EmbeddedAsset} {sha256 : Bytes}
    (h : (treeInput assets, ofHex sha256) ∈ sampleDigests)
    (hsha256 : DigestContext.hexText (ofHex sha256) = sha256) :
    treeDigest sampleEnvironment assets = .ok sha256 := by
  have hdigest := evpDigest_sample h
  rw [treeInput] at hdigest
  rw [treeDigest, DigestContext.finish, hdigest]
  exact congrArg _ hsha256

theorem treeDigest_samples :
    treeDigest sampleEnvironment sampleSchemas = .ok embeddedPin.artifacts.schemas.sha256 ∧
      treeDigest sampleEnvironment sampleConformance =
        .ok embeddedPin.artifacts.conformance.sha256 ∧
      treeDigest sampleEnvironment (sampleConformance ++ sampleSchemas) =
        .ok embeddedPin.bundleSha256 := by
  refine ⟨?_, ?_, ?_⟩
  · exact treeDigest_sample (by simp [sampleDigests]) (sampleChecks.treeDigests _ (by simp))
  · exact treeDigest_sample (by simp [sampleDigests]) (sampleChecks.treeDigests _ (by simp))
  · exact treeDigest_sample (by simp [sampleDigests]) (sampleChecks.treeDigests _ (by simp))

/-- Files in order stay where they are. -/
theorem sortAssets_eq (h : Increasing assets) : sortAssets assets = assets := by
  apply List.Pairwise.insertionSort_eq
  refine (List.pairwise_map.mp h).imp fun {left right} hlt => ?_
  exact List.lt_asymm hlt

theorem verify_sample (h : Increasing assets) (hmem : assets ∈ [sampleAssets, widerAssets])
    (hsub : sampleAssets ⊆ assets) : verify sampleEnvironment assets = .ok bundleSummary := by
  obtain ⟨hschemas, hconformance⟩ := sampleChecks.trees assets hmem
  obtain ⟨hschemasDigest, hconformanceDigest, hbundleDigest⟩ := treeDigest_samples
  have hsorted : Increasing (sampleConformance ++ sampleSchemas) := treesTable.property
  refine (verify_eq_ok decodesJson_referenceParse).mpr ⟨?_, ?_, ?_, ?_, rfl⟩
  · exact hasPin_sample h (hsub (by simp [sampleAssets]))
  · rw [hschemas]
    exact ⟨rfl, hschemasDigest⟩
  · rw [hconformance]
    exact ⟨rfl, hconformanceDigest⟩
  · rw [hschemas, hconformance, sortAssets_eq hsorted]
    exact hbundleDigest

end MissionWeave.Bundle
