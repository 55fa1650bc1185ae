import MissionWeave.Bundle.Lookup
import MissionWeave.Bundle.Manifest

/-!
# What a verified manifest says

The manifests are instances of `ContentAddress`: an artifact is an entry, the
table is the store, and the pinned digest is the root.

* `verifyContents_eq_ok`: what the common part of the two functions accepts.
* `verified_manifests_agree`: two tables that pass have the same manifests and
  the same artifacts, or SHA-256 collides.
-/

namespace MissionWeave.Bundle

open Canonical (identifier identifier_injective)
open ContentAddress (Agree Collide Rooted)
open Json (SameData)
open SignedDocumentCodec (NotNumeral StringMember)
open StrictScanner (maximumDepth)

variable {env : Environment} {assets assets' : List EmbeddedAsset} {kind : ManifestKind}

/-! ## One artifact -/

theorem sha256Identifier_eq_ok {bytes text : Bytes} :
    sha256Identifier env bytes = .ok text ↔
      ∃ digest, env.evpDigest bytes = some digest ∧ text = identifier digest := by
  simp only [sha256Identifier, Except.bind_eq_ok, DigestContext.finish, DigestContext.update,
    DigestContext.empty, List.nil_append, Except.ok.injEq]
  cases env.evpDigest bytes with
  | none => simp
  | some digest => simp [identifier, eq_comm]

/-- The manifest lists the artifact at `path`, and the table has it. -/
structure Listed (env : Environment) (assets : List EmbeddedAsset) (kind : ManifestKind)
    (item : Json) (path : Bytes) : Prop where
  object : item.isObject = true
  fields : item.members.length = 3
  pathMember : TextMember item "path" path
  artifactPath : ArtifactPath kind.primaryPrefix path
  manifest : path ≠ kind.manifestPath
  readme : path ≠ kind.readmePath
  embedded : ∃ asset digest, findAsset assets path = some asset ∧
    SizeMember item "byteLength" asset.bytes.length ∧
      TextMember item "sha256" (identifier digest) ∧ env.evpDigest asset.bytes = some digest

theorem contains_of_size {item : Json} {key : String} {size : Nat} (h : SizeMember item key size) :
    item.contains key = true := by
  obtain ⟨value, hvalue, _⟩ := h
  rw [Json.contains, hvalue]
  rfl

theorem verifyArtifact_eq_ok {paths paths' : List Bytes} {item : Json} :
    verifyArtifact env assets kind paths item = .ok paths' ↔
      ∃ path, Listed env assets kind item path ∧
        (if path ∈ paths then Except.error () else .ok (path :: paths)) = .ok paths' := by
  unfold verifyArtifact
  simp only [bundleError, Except.ite_error_eq_ok, Except.bind_eq_ok, requiredString_eq_ok,
    requiredSize_eq_ok, Except.ok.injEq]
  constructor
  · rintro ⟨hguard, path, hpath, _, hvalid, hfresh, byteLength, hlength, expected, hexpected, h⟩
    simp only [not_or, not_not] at hguard
    cases hasset : findAsset assets path with
    | none =>
      rw [hasset] at h
      cases h
    | some asset =>
      simp only [hasset, Except.bind_eq_ok, requireEqualSize_eq_ok, requireEqual_eq_ok,
        sha256Identifier_eq_ok, Except.ok.injEq] at h
      obtain ⟨_, rfl, _, ⟨digest, hdigest, rfl⟩, _, rfl, rfl⟩ := h
      obtain ⟨hvalid, hmanifest, hreadme⟩ := validateArtifactPath_eq_ok.mp hvalid
      exact ⟨path, ⟨hguard.1, hguard.2.1, hpath, hvalid, hmanifest, hreadme, asset, digest, hasset,
        hlength, hexpected, hdigest⟩, hfresh, rfl⟩
  · rintro ⟨path, h, hfresh, rfl⟩
    obtain ⟨asset, digest, hasset, hlength, hexpected, hdigest⟩ := h.embedded
    refine ⟨?_, path, h.pathMember, (), ?_, hfresh, _, hlength, _, hexpected, ?_⟩
    · simp only [not_or, not_not]
      exact ⟨h.object, h.fields, h.pathMember.contains, contains_of_size hlength,
        hexpected.contains⟩
    · exact validateArtifactPath_eq_ok.mpr ⟨h.artifactPath, h.manifest, h.readme⟩
    · simp only [hasset, Except.bind_eq_ok, requireEqualSize_eq_ok, requireEqual_eq_ok,
        sha256Identifier_eq_ok]
      exact ⟨(), trivial, _, ⟨digest, hdigest, rfl⟩, (), rfl, trivial⟩

/-- A loop that enters new paths enters distinct ones. -/
theorem enterPaths_eq_ok {paths done entered : List Bytes} (hdone : done.Nodup) :
    paths.foldlM (fun done path => if path ∈ done then Except.error () else .ok (path :: done))
      done = .ok entered ↔ (paths.reverse ++ done).Nodup ∧ entered = paths.reverse ++ done := by
  induction paths generalizing done with
  | nil => simp [hdone, pure, Except.pure, eq_comm]
  | cons path paths ih =>
    rw [List.foldlM_cons, List.reverse_cons, List.append_assoc, List.singleton_append]
    by_cases hpath : path ∈ done
    · rw [if_pos hpath]
      simp only [Except.error_bind, reduceCtorEq, false_iff, not_and]
      intro hnodup
      exact absurd hpath (List.nodup_cons.mp (List.nodup_append.mp hnodup).2.1).1
    · rw [if_neg hpath, Except.ok_bind, ih (List.nodup_cons.mpr ⟨hpath, hdone⟩)]

/-- The loop over the artifacts accepts distinct paths that are listed. -/
theorem verifyArtifacts_eq_ok {items : List Json} {entered : List Bytes} :
    items.foldlM (verifyArtifact env assets kind) [] = .ok entered ↔
      ∃ paths, List.Forall₂ (Listed env assets kind) items paths ∧ paths.Nodup ∧
        entered = paths.reverse := by
  have hread : ∀ paths item paths', verifyArtifact env assets kind paths item = .ok paths' ↔
      ∃ path, Listed env assets kind item path ∧
        (if path ∈ paths then Except.error () else .ok (path :: paths)) = .ok paths' :=
    fun _ _ _ => verifyArtifact_eq_ok
  rw [Except.foldlM_eq_ok_of_read hread]
  simp only [enterPaths_eq_ok List.nodup_nil, List.append_nil, List.nodup_reverse]

/-! ## The contents of a manifest -/

/-- The cases are objects with an array of evaluations. -/
def HasEvaluations (testCase : Json) : Prop :=
  testCase.isObject = true ∧
    ∃ evaluations, testCase.member? "evaluations" = some (.array evaluations)

def evaluationsOf (testCase : Json) : List Json :=
  ((testCase.member? "evaluations").map Json.elements).getD []

theorem eq_array_of_isArray {v : Json} (h : v.isArray = true) : v = .array v.elements := by
  cases v with
  | array xs => rfl
  | _ => cases h

theorem countEvaluations_eq_ok {cases : List Json} {count total : Nat} :
    countEvaluations kind count cases = .ok total ↔
      (∀ testCase ∈ cases, HasEvaluations testCase) ∧
        total = count + (cases.map fun testCase => (evaluationsOf testCase).length).sum := by
  induction cases generalizing count with
  | nil => simp [countEvaluations, eq_comm]
  | cons testCase cases ih =>
    rw [countEvaluations, bundleError, Except.ite_error_eq_ok, Except.bind_eq_ok,
      List.forall_mem_cons, List.map_cons, List.sum_cons, not_not]
    simp only [requiredArray_eq_ok, ih, HasEvaluations]
    constructor
    · rintro ⟨hobject, evaluations, ⟨hmember, harray⟩, hcases, htotal⟩
      rw [eq_array_of_isArray harray] at hmember
      refine ⟨⟨⟨hobject, _, hmember⟩, hcases⟩, ?_⟩
      rw [htotal, evaluationsOf, hmember, Option.map_some, Option.getD_some, Json.elements]
      omega
    · rintro ⟨⟨⟨hobject, evaluations, hmember⟩, hcases⟩, htotal⟩
      refine ⟨hobject, _, ⟨hmember, rfl⟩, hcases, ?_⟩
      rw [htotal, evaluationsOf, hmember, Option.map_some, Option.getD_some, Json.elements]
      omega

/-- The manifest has the pinned counts and digest, and lists distinct artifacts
that the table has. -/
structure Contents (env : Environment) (assets : List EmbeddedAsset) (kind : ManifestKind)
    (pin : ContentsSummary) (manifest : Json) : Prop where
  artifacts : ∃ items paths, manifest.member? "artifacts" = some (.array items) ∧
    items.length = pin.artifactCount ∧ List.Forall₂ (Listed env assets kind) items paths ∧
      paths.Nodup
  cases : ∃ cases, manifest.member? "cases" = some (.array cases) ∧
    cases.length = pin.caseCount ∧ (∀ testCase ∈ cases, HasEvaluations testCase) ∧
      (cases.map fun testCase => (evaluationsOf testCase).length).sum = pin.evaluationCount
  digest : Canonical.canonicalSha256 env (manifest.erase "artifactDigest") = .ok pin.artifactDigest

theorem verifyContents_eq_ok {pin summary : ContentsSummary} {manifest : Json} :
    verifyContents env assets kind pin manifest = .ok summary ↔
      Contents env assets kind pin manifest ∧ summary = pin := by
  simp only [verifyContents, Except.bind_eq_ok, requiredArray_eq_ok, requireEqualSize_eq_ok,
    countEvaluations_eq_ok, verifyArtifacts_eq_ok, requireEqual_eq_ok, Except.ok.injEq]
  constructor
  · rintro ⟨artifacts, ⟨hartifacts, harray⟩, cases, ⟨hcases, hcasesArray⟩, _, hcount, _,
      hcaseCount, total, ⟨hevaluations, htotal⟩, _, hevaluationCount, _,
      ⟨paths, hlisted, hnodup, _⟩,
      digest, hdigest, _, rfl, rfl⟩
    rw [eq_array_of_isArray harray] at hartifacts
    rw [eq_array_of_isArray hcasesArray] at hcases
    refine ⟨⟨⟨_, paths, hartifacts, hcount.symm, hlisted, hnodup⟩,
      ⟨_, hcases, hcaseCount.symm, hevaluations, ?_⟩, hdigest⟩, ?_⟩
    · omega
    · rw [← hcount, ← hcaseCount, ← hevaluationCount]
  · rintro ⟨h, rfl⟩
    obtain ⟨items, paths, hartifacts, hcount, hlisted, hnodup⟩ := h.artifacts
    obtain ⟨cases, hcases, hcaseCount, hevaluations, htotal⟩ := h.cases
    refine ⟨_, ⟨hartifacts, rfl⟩, _, ⟨hcases, rfl⟩, (), hcount.symm, (), hcaseCount.symm, _,
      ⟨hevaluations, rfl⟩, (), ?_, _, ⟨paths, hlisted, hnodup, rfl⟩, _, h.digest, (), rfl, ?_⟩
    · rw [Nat.zero_add]
      exact htotal.symm
    · simp only [Json.elements, hcount, hcaseCount, Nat.zero_add, htotal]

/-! ## Entries -/

/-- The text of a member, empty where there is none. -/
def fieldText (item : Json) (field : String) : Bytes :=
  ((item.member? field).bind Json.asString?).getD []

theorem fieldText_eq {item : Json} {field : String} {text : Bytes}
    (h : TextMember item field text) :
    fieldText item field = text := by
  obtain ⟨value, hvalue, htext⟩ := h
  rw [fieldText, hvalue, Option.bind_some, htext, Option.getD_some]

/-- The path and the digest of an artifact. -/
def entryOfItem (item : Json) : Bytes × Bytes := (fieldText item "path", fieldText item "sha256")

/-- The artifacts that a manifest lists. -/
def entries (manifest : Json) : List (Bytes × Bytes) :=
  (((manifest.member? "artifacts").map Json.elements).getD []).map entryOfItem

theorem entries_eq {manifest : Json} {items : List Json}
    (h : manifest.member? "artifacts" = some (.array items)) :
    entries manifest = items.map entryOfItem := by
  rw [entries, h]
  rfl

theorem Listed.entryOfItem {item : Json} {path : Bytes} (h : Listed env assets kind item path) :
    ∃ asset digest, findAsset assets path = some asset ∧ env.evpDigest asset.bytes = some digest ∧
      entryOfItem item = (path, identifier digest) := by
  obtain ⟨asset, digest, hasset, _, hdigestMember, hdigest⟩ := h.embedded
  refine ⟨asset, digest, hasset, hdigest, ?_⟩
  rw [Bundle.entryOfItem, fieldText_eq h.pathMember, fieldText_eq hdigestMember]

theorem notNumeral_identifier (digest : Bytes) : NotNumeral (identifier digest) :=
  ⟨0x73, List.mem_append_left _ (by decide), by decide, by decide⟩

theorem notNumeral_artifactPath {primaryName path : Bytes}
    (h : ArtifactPath (primaryName ++ [Ascii.slash]) path) : NotNumeral path := by
  refine ⟨Ascii.slash, ?_, by decide, by decide⟩
  rcases h.below with hbelow | hbelow
  · exact hbelow.subset (by simp)
  · exact hbelow.subset (by decide)

/-- The entry of an artifact is a matter of its data. -/
theorem Listed.entryOfItem_congr {item item' : Json} {path : Bytes}
    (h : Listed env assets kind item path) (hdata : item'.data = item.data) :
    Bundle.entryOfItem item' = Bundle.entryOfItem item := by
  obtain ⟨_, digest, _, _, hdigestMember, _⟩ := h.embedded
  have hpath := (notNumeral_artifactPath h.artifactPath).stringMember h.pathMember
  have hdigest := (notNumeral_identifier digest).stringMember hdigestMember
  rw [Bundle.entryOfItem, Bundle.entryOfItem, fieldText_eq h.pathMember,
    fieldText_eq hdigestMember, fieldText_eq (hpath.of_data hdata).textMember,
    fieldText_eq (hdigest.of_data hdata).textMember]

/-- Lists with the same images under `f` have the same images under what is a
matter of `f`. -/
theorem map_congr_of_map {α β γ : Type} {f : α → β} {g : α → γ} {xs ys : List α}
    (h : ∀ x ∈ xs, ∀ y, f y = f x → g y = g x) (hmap : ys.map f = xs.map f) :
    ys.map g = xs.map g := by
  induction xs generalizing ys with
  | nil => rw [List.map_eq_nil_iff.mp hmap]
  | cons x xs ih =>
    obtain ⟨y, ys, rfl, hy, hys⟩ := List.map_eq_cons_iff.mp hmap
    rw [List.forall_mem_cons] at h
    rw [List.map_cons, List.map_cons, h.1 y hy, ih h.2 hys]

/-- The entries of a manifest are a matter of its data. -/
theorem Contents.entries_congr {pin : ContentsSummary} {manifest manifest' : Json}
    (h : Contents env assets kind pin manifest)
    (hdata : (manifest'.erase "artifactDigest").data = (manifest.erase "artifactDigest").data) :
    entries manifest' = entries manifest := by
  obtain ⟨items, paths, hitems, _, hlisted, _⟩ := h.artifacts
  have hne : "artifacts" ≠ "artifactDigest" := by decide
  rw [← Json.member?_erase_of_ne manifest hne] at hitems
  obtain ⟨value, hvalue, hvalueData⟩ := Json.exists_member?_of_data hdata hitems
  obtain ⟨items', rfl, hmap⟩ := Json.eq_array_of_data hvalueData
  rw [Json.member?_erase_of_ne _ hne] at hitems hvalue
  rw [entries_eq hitems, entries_eq hvalue]
  refine map_congr_of_map (fun item hitem item' hitem' => ?_) hmap
  obtain ⟨path, _, hpath⟩ := Except.exists_read hlisted hitem
  exact hpath.entryOfItem_congr hitem'

/-! ## The root -/

/-- The digest of contents, as the manifests spell it. -/
def identify (env : Environment) (bytes : Bytes) : Option Bytes :=
  (env.evpDigest bytes).map identifier

theorem collide_of_identify {bytes bytes' : Bytes} (h : Collide (identify env) bytes bytes') :
    Collide env.evpDigest bytes bytes' :=
  Collide.of_map identifier_injective h

/-- The bytes that a table has under a path. -/
def bytesAt (assets : List EmbeddedAsset) (path : Bytes) : Option Bytes :=
  (findAsset assets path).map EmbeddedAsset.bytes

/-- The canonical text that the digest of a manifest is taken of. -/
def encodeManifest (manifest : Json) : Option Bytes :=
  (Canonical.canonicalJson (manifest.erase "artifactDigest")).toOption

theorem canonicalJson_of_encodeManifest {manifest : Json} {t : Bytes}
    (h : encodeManifest manifest = some t) :
    Canonical.canonicalJson (manifest.erase "artifactDigest") = .ok t := by
  unfold encodeManifest at h
  cases hcanonical : Canonical.canonicalJson (manifest.erase "artifactDigest") with
  | error thrown =>
    rw [hcanonical] at h
    cases h
  | ok t' =>
    rw [hcanonical] at h
    rw [Option.some.inj h]

theorem Contents.rooted {pin : ContentsSummary} {manifest : Json}
    (h : Contents env assets kind pin manifest) :
    Rooted (identify env) encodeManifest entries pin.artifactDigest manifest (bytesAt assets) where
  encoded := by
    obtain ⟨t, digest, ht, hdigest, hpin⟩ := Canonical.canonicalSha256_eq_ok.mp h.digest
    refine ⟨t, ?_, ?_⟩
    · rw [encodeManifest, ht]
      rfl
    · rw [identify, hdigest, hpin]
      rfl
  fits := by
    obtain ⟨items, paths, hitems, _, hlisted, _⟩ := h.artifacts
    rw [entries_eq hitems]
    intro entry hentry
    obtain ⟨item, hitem, rfl⟩ := List.mem_map.mp hentry
    obtain ⟨path, _, hpath⟩ := Except.exists_read hlisted hitem
    obtain ⟨asset, digest, hasset, hdigest, heq⟩ := hpath.entryOfItem
    refine ⟨asset.bytes, ?_, ?_⟩
    · rw [heq, bytesAt, hasset]
      rfl
    · rw [heq, identify, hdigest]
      rfl

/-! ## Verified manifests -/

/-- The table has a JSON document under the path. -/
def DocumentAt (assets : List EmbeddedAsset) (path : Bytes) (document : Json) : Prop :=
  ∃ asset, findAsset assets path = some asset ∧ JsonText asset.bytes document ∧
    document.nesting ≤ maximumDepth

/-- The table has the pin that is compiled in. -/
def HasPin (assets : List EmbeddedAsset) : Prop :=
  JsonText (protocolPinBytes assets) embeddedPin.document

/-- The members of an object are those with the given names. -/
def HasFields (object : Json) (names : List String) : Prop :=
  ∀ name, name ∈ object.members.map Prod.fst ↔ name ∈ names.map ascii

structure CryptographyManifest (env : Environment) (assets : List EmbeddedAsset)
    (manifest : Json) : Prop where
  object : manifest.isObject = true
  fields : HasFields manifest cryptographyManifestFields
  header : AllHold manifest (cryptographyHeader embeddedPin)
  contents : Contents env assets .cryptography embeddedPin.cryptography.contents manifest

structure AdmissionManifest (env : Environment) (assets : List EmbeddedAsset)
    (manifest : Json) : Prop where
  object : manifest.isObject = true
  fields : HasFields manifest admissionManifestFields
  header : AllHold manifest (admissionHeader embeddedPin)
  cryptography : ∃ reference, manifest.member? "cryptography" = some reference ∧
    reference.isObject = true ∧ HasFields reference ["artifactDigest", "manifest"] ∧
      TextMember reference "manifest" embeddedPin.cryptography.path ∧
        TextMember reference "artifactDigest" embeddedPin.cryptography.artifactDigest
  contents : Contents env assets .admission embeddedPin.admission.contents manifest

/-- What `verify_cryptography` returns. -/
def cryptographySummary : CryptographyBundleSummary :=
  ⟨embeddedPin.cryptography.sourceCommit, embeddedPin.cryptography.profileId,
    embeddedPin.cryptography.manifestVersion, embeddedPin.cryptography.contents⟩

/-- What `verify_admission` returns. -/
def admissionSummary : AdmissionBundleSummary :=
  ⟨embeddedPin.admission.sourceCommit, embeddedPin.admission.profileId,
    embeddedPin.admission.manifestVersion, embeddedPin.cryptography.artifactDigest,
    embeddedPin.admission.contents⟩

theorem manifestAt_eq_ok (hparse : DecodesJson env.jsonParse) {path : Bytes} {manifest : Json} :
    manifestAt env assets kind path = .ok manifest ↔
      DocumentAt assets path manifest ∧ manifest.isObject = true := by
  unfold manifestAt
  cases hasset : findAsset assets path with
  | none => simp [bundleError, DocumentAt, hasset]
  | some asset =>
    simp only [Except.bind_eq_ok, Environment.parseStrictJson, parseStrictJson_eq_ok hparse,
      bundleError, Except.ite_error_eq_ok, not_not, Except.ok.injEq, DocumentAt, hasset,
      Option.some.injEq, exists_eq_left']
    constructor
    · rintro ⟨_, hdocument, hobject, rfl⟩
      exact ⟨hdocument, hobject⟩
    · rintro ⟨hdocument, hobject⟩
      exact ⟨_, hdocument, hobject, rfl⟩

theorem verifyCryptography_eq_ok (hparse : DecodesJson env.jsonParse)
    {summary : CryptographyBundleSummary} :
    verifyCryptography env assets = .ok summary ↔
      HasPin assets ∧ (∃ manifest, DocumentAt assets embeddedPin.cryptography.path manifest ∧
        CryptographyManifest env assets manifest) ∧ summary = cryptographySummary := by
  simp only [verifyCryptography, Except.bind_eq_ok, protocolPin,
    parseProtocolPin_eq_ok_iff hparse, manifestAt_eq_ok hparse, requireFields_eq_ok,
    requirePinned_eq_ok, verifyContents_eq_ok, Except.ok.injEq]
  constructor
  · rintro ⟨_, ⟨hpin, rfl⟩, manifest, ⟨hdocument, hobject⟩, _, hfields, _, hheader, _,
      ⟨hcontents, rfl⟩, rfl⟩
    exact ⟨hpin, ⟨manifest, hdocument, hobject, hfields, hheader, hcontents⟩, rfl⟩
  · rintro ⟨hpin, ⟨manifest, hdocument, h⟩, rfl⟩
    exact ⟨_, ⟨hpin, rfl⟩, manifest, ⟨hdocument, h.object⟩, (), h.fields, (), h.header, _,
      ⟨h.contents, rfl⟩, rfl⟩

theorem verifyAdmission_eq_ok (hparse : DecodesJson env.jsonParse)
    {summary : AdmissionBundleSummary} :
    verifyAdmission env assets = .ok summary ↔
      HasPin assets ∧ (∃ manifest, DocumentAt assets embeddedPin.admission.path manifest ∧
        AdmissionManifest env assets manifest) ∧ summary = admissionSummary := by
  have hpinned : embeddedPin.admission.cryptographyArtifactDigest =
      embeddedPin.cryptography.artifactDigest := rfl
  simp only [verifyAdmission, Except.bind_eq_ok, protocolPin,
    parseProtocolPin_eq_ok_iff hparse, manifestAt_eq_ok hparse, requireFields_eq_ok,
    requirePinned_eq_ok, requiredObject_eq_ok, requiredString_eq_ok, requireEqual_eq_ok,
    verifyContents_eq_ok, Except.ok.injEq]
  constructor
  · rintro ⟨_, ⟨hpin, rfl⟩, manifest, ⟨hdocument, hobject⟩, _, hfields, _, hheader, reference,
      ⟨hreference, hreferenceObject⟩, _, hreferenceFields, _, hpath, digest, hdigest, _, hadmission,
      _, rfl, _, ⟨hcontents, rfl⟩, rfl⟩
    exact ⟨hpin, ⟨manifest, hdocument, hobject, hfields, hheader, ⟨reference, hreference,
      hreferenceObject, hreferenceFields, hpath _ List.mem_cons_self, hdigest⟩, hcontents⟩, rfl⟩
  · rintro ⟨hpin, ⟨manifest, hdocument, h⟩, rfl⟩
    obtain ⟨reference, hreference, hreferenceObject, hreferenceFields, hpath, hdigest⟩ :=
      h.cryptography
    exact ⟨_, ⟨hpin, rfl⟩, manifest, ⟨hdocument, h.object⟩, (), h.fields, (), h.header, reference,
      ⟨hreference, hreferenceObject⟩, (), hreferenceFields, (),
      List.forall_mem_singleton.mpr hpath, _, hdigest, (), hpinned, (), rfl, _,
      ⟨h.contents, rfl⟩, rfl⟩

/-! ## Two tables -/

/-- Both tables have a manifest under the path.  The manifests have the same
data, and both tables have the artifacts that they list, the same bytes under
each path or bytes that collide; or the texts of the manifests collide. -/
def SameArtifacts (env : Environment) (assets assets' : List EmbeddedAsset) (path : Bytes) : Prop :=
  ∃ manifest manifest', DocumentAt assets path manifest ∧ DocumentAt assets' path manifest' ∧
    ((SameData manifest' manifest ∧ ∀ entry ∈ entries manifest,
        Agree env.evpDigest (bytesAt assets) (bytesAt assets') entry.1) ∨
      ∃ t t', encodeManifest manifest = some t ∧ encodeManifest manifest' = some t' ∧
        Collide env.evpDigest t t')

theorem DocumentAt.ordered {path : Bytes} {document : Json} (h : DocumentAt assets path document) :
    document.Ordered := by
  obtain ⟨_, _, htext, _⟩ := h
  exact Canonical.ordered_of_wellFormed (wellFormed_of_jsonText htext)

theorem DocumentAt.nesting_le {path : Bytes} {document : Json}
    (h : DocumentAt assets path document) : document.nesting ≤ maximumDepth := by
  obtain ⟨_, _, _, hnesting⟩ := h
  exact hnesting

/-- Manifests with the pinned digest have the same data and the same artifacts,
up to collisions. -/
theorem Contents.agree {pin : ContentsSummary} {path : Bytes} {manifest manifest' : Json}
    (hdocument : DocumentAt assets path manifest) (hdocument' : DocumentAt assets' path manifest')
    (hobject : manifest.isObject = true) (hobject' : manifest'.isObject = true)
    (hmember : StringMember manifest "artifactDigest" pin.artifactDigest)
    (hmember' : StringMember manifest' "artifactDigest" pin.artifactDigest)
    (h : Contents env assets kind pin manifest) (h' : Contents env assets' kind pin manifest') :
    SameArtifacts env assets assets' path := by
  have hordered := hdocument.ordered.erase "artifactDigest"
  have hordered' := hdocument'.ordered.erase "artifactDigest"
  have hdepth := (Json.nesting_erase_le manifest "artifactDigest").trans hdocument.nesting_le
  have hdepth' := (Json.nesting_erase_le manifest' "artifactDigest").trans hdocument'.nesting_le
  let Same (m m' : Json) : Prop :=
    SameData (m'.erase "artifactDigest") (m.erase "artifactDigest")
  have hencode : ∀ t, encodeManifest manifest = some t → encodeManifest manifest' = some t →
      Same manifest manifest' := by
    intro t ht ht'
    exact Canonical.sameData_of_canonicalJson hordered' hordered hdepth' hdepth
      (canonicalJson_of_encodeManifest ht') (canonicalJson_of_encodeManifest ht)
  have hentries : Same manifest manifest' → entries manifest = entries manifest' :=
    fun hsame => (h.entries_congr hsame).symm
  refine ⟨manifest, manifest', hdocument, hdocument', ?_⟩
  rcases Rooted.agree hencode hentries h.rooted h'.rooted with
    ⟨hsame, hagree⟩ | ⟨t, t', ht, ht', hcollide⟩
  · left
    refine ⟨?_, fun entry hentry => ?_⟩
    · apply Json.data_eq_of_erase hdocument.ordered hdocument'.ordered hobject hobject' hsame
      rw [hmember, hmember']
    · obtain ⟨contents, contents', hcontents, hcontents', heq⟩ := hagree entry hentry
      exact ⟨contents, contents', hcontents, hcontents', heq.imp_right collide_of_identify⟩
  · exact .inr ⟨t, t', ht, ht', collide_of_identify hcollide⟩

end MissionWeave.Bundle
