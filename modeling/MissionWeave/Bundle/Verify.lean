import MissionWeave.Bundle.ManifestSpec
import Mathlib.Data.List.Sort

/-!
# The verified trees

The accessors of `ProtocolBundle` for the JSON files below a directory, and
`ProtocolBundle::verify`.  `std::sort` is a stable sort here; the paths of a
table in order are distinct, so that it makes no difference.

* `verify_eq_ok`: what `verify` accepts.
* `verified_trees_agree`: two tables that pass have the same trees.
-/

namespace MissionWeave.Bundle

open ContentAddress (Collide)

/-- `json_assets`. -/
def jsonAssets (assets : List EmbeddedAsset) (directory : Bytes) : List EmbeddedAsset :=
  assets.filter fun asset =>
    directory.isPrefixOf asset.path && (ascii ".json").isSuffixOf asset.path

/-- `ProtocolBundle::schema`, `conformance`, `cryptography` and `admission`,
which differ in the directory. -/
def assetBelow (directory : String) (assets : List EmbeddedAsset) (path : Bytes) : Option Bytes :=
  (findAsset assets (ascii directory ++ path)).map EmbeddedAsset.bytes

/-- `ProtocolBundle::schema`. -/
def schema : List EmbeddedAsset → Bytes → Option Bytes := assetBelow "schemas/"

/-- `ProtocolBundle::conformance`. -/
def conformance : List EmbeddedAsset → Bytes → Option Bytes := assetBelow "conformance/"

/-- `ProtocolBundle::schema_names`. -/
def schemaNames (assets : List EmbeddedAsset) : List Bytes :=
  (jsonAssets assets (ascii "schemas/")).map fun asset => asset.path.drop (ascii "schemas/").length

/-- `std::sort` by path. -/
def sortAssets (assets : List EmbeddedAsset) : List EmbeddedAsset :=
  assets.insertionSort fun left right => ¬right.path < left.path

structure BundleSummary where
  schemaFiles : Nat
  conformanceFiles : Nat
  bundleSha256 : Bytes

/-- `ProtocolBundle::verify`. -/
def verify (env : Environment) (assets : List EmbeddedAsset) : Except Thrown BundleSummary := do
  let pin ← protocolPin env assets
  let schemas := jsonAssets assets (ascii "schemas/")
  let conformanceAssets := jsonAssets assets (ascii "conformance/")
  verifyTree env "schemas" schemas pin.artifacts.schemas
  verifyTree env "conformance" conformanceAssets pin.artifacts.conformance
  let bundleDigest ← treeDigest env (sortAssets (conformanceAssets ++ schemas))
  if bundleDigest ≠ pin.bundleSha256 then
    bundleError ("bundle digest is " ++ text bundleDigest ++ "; expected " ++
      text pin.bundleSha256)
  else .ok ⟨schemas.length, conformanceAssets.length, bundleDigest⟩

/-! ## What passes -/

variable {env : Environment} {assets assets' : List EmbeddedAsset}

theorem mem_jsonAssets {directory : Bytes} {asset : EmbeddedAsset} :
    asset ∈ jsonAssets assets directory ↔
      asset ∈ assets ∧ directory <+: asset.path ∧ ascii ".json" <:+ asset.path := by
  simp [jsonAssets]

/-- The JSON files below a directory are those that the pin has. -/
def Pins (env : Environment) (pin : ArtifactPin) (tree : List EmbeddedAsset) : Prop :=
  tree.length = pin.files ∧ treeDigest env tree = .ok pin.sha256

theorem verifyTree_iff_pins {label : String} {tree : List EmbeddedAsset} {pin : ArtifactPin}
    {u : Unit} : verifyTree env label tree pin = .ok u ↔ Pins env pin tree := by
  cases u
  exact verifyTree_eq_ok

/-- What `verify` returns. -/
def bundleSummary : BundleSummary :=
  ⟨embeddedPin.artifacts.schemas.files, embeddedPin.artifacts.conformance.files,
    embeddedPin.bundleSha256⟩

theorem verify_eq_ok (hparse : DecodesJson env.jsonParse) {summary : BundleSummary} :
    verify env assets = .ok summary ↔
      HasPin assets ∧
        Pins env embeddedPin.artifacts.schemas (jsonAssets assets (ascii "schemas/")) ∧
        Pins env embeddedPin.artifacts.conformance (jsonAssets assets (ascii "conformance/")) ∧
        treeDigest env (sortAssets (jsonAssets assets (ascii "conformance/") ++
          jsonAssets assets (ascii "schemas/"))) = .ok embeddedPin.bundleSha256 ∧
        summary = bundleSummary := by
  simp only [verify, Except.bind_eq_ok, protocolPin, parseProtocolPin_eq_ok_iff hparse,
    verifyTree_iff_pins, bundleError, Except.ite_error_eq_ok, Except.ok.injEq, not_not]
  constructor
  · rintro ⟨_, ⟨hpin, rfl⟩, _, hschemas, _, hconformance, _, hbundle, rfl, rfl⟩
    refine ⟨hpin, hschemas, hconformance, hbundle, ?_⟩
    rw [hschemas.1, hconformance.1, bundleSummary]
  · rintro ⟨hpin, hschemas, hconformance, hbundle, rfl⟩
    refine ⟨_, ⟨hpin, rfl⟩, (), hschemas, (), hconformance, _, hbundle, rfl, ?_⟩
    rw [hschemas.1, hconformance.1, bundleSummary]

/-- A tree without NUL bytes is the only one that the pin has, up to a collision
of the streams. -/
theorem Pins.agree {pin : ArtifactPin} {tree tree' : List EmbeddedAsset} (hfree : NulFree tree)
    (h : Pins env pin tree) (h' : Pins env pin tree') :
    tree = tree' ∨ Collide env.evpDigest (treeInput tree) (treeInput tree') := by
  exact (treeInput_eq_or_collide h.2 h'.2).imp_left fun heq =>
    eq_of_treeInput hfree (h.1.trans h'.1.symm) heq

/-! ## Lookup in a table in order -/

/-- The table is in the order that it is searched in. -/
def Increasing (assets : List EmbeddedAsset) : Prop :=
  (assets.map EmbeddedAsset.path).Pairwise (· < ·)

/-- A JSON file below a directory is found in the tree of that directory. -/
theorem findAsset_jsonAssets (h : Increasing assets) {directory path : Bytes}
    (hbelow : directory <+: path) (hjson : ascii ".json" <:+ path) :
    findAsset assets path = findAsset (jsonAssets assets directory) path := by
  have hsub : Increasing (jsonAssets assets directory) := by
    unfold Increasing at h ⊢
    exact h.sublist ((List.filter_sublist).map _)
  cases hfind : findAsset (jsonAssets assets directory) path with
  | some asset =>
    obtain ⟨hmem, rfl⟩ := of_findAsset hfind
    exact findAsset_of_mem h (mem_jsonAssets.mp hmem).1
  | none =>
    cases hfind' : findAsset assets path with
    | none => rfl
    | some asset =>
      obtain ⟨hmem, rfl⟩ := of_findAsset hfind'
      have hfound := findAsset_of_mem hsub (mem_jsonAssets.mpr ⟨hmem, hbelow, hjson⟩)
      rw [hfind] at hfound
      cases hfound

/-- In tables with the same tree, a JSON file of the tree is the same. -/
theorem findAsset_congr (h : Increasing assets) (h' : Increasing assets') {directory path : Bytes}
    (htree : jsonAssets assets directory = jsonAssets assets' directory)
    (hbelow : directory <+: path) (hjson : ascii ".json" <:+ path) :
    findAsset assets path = findAsset assets' path := by
  rw [findAsset_jsonAssets h hbelow hjson, findAsset_jsonAssets h' hbelow hjson, htree]

/-- The files of the tables below a directory are the same, or the streams of
the two trees collide. -/
def SameTree (env : Environment) (assets assets' : List EmbeddedAsset) (directory : String) :
    Prop :=
  jsonAssets assets (ascii directory) = jsonAssets assets' (ascii directory) ∨
    Collide env.evpDigest (treeInput (jsonAssets assets (ascii directory)))
      (treeInput (jsonAssets assets' (ascii directory)))

/-- Tables that pass have the same files in the two trees, up to collisions.  The
files of the first one are to have no NUL byte. -/
theorem verified_trees_agree (hparse : DecodesJson env.jsonParse) {summary summary' : BundleSummary}
    (hfree : NulFree (jsonAssets assets (ascii "schemas/")))
    (hfree' : NulFree (jsonAssets assets (ascii "conformance/")))
    (h : verify env assets = .ok summary) (h' : verify env assets' = .ok summary') :
    SameTree env assets assets' "schemas/" ∧ SameTree env assets assets' "conformance/" := by
  obtain ⟨_, hschemas, hconformance, _⟩ := (verify_eq_ok hparse).mp h
  obtain ⟨_, hschemas', hconformance', _⟩ := (verify_eq_ok hparse).mp h'
  exact ⟨hschemas.agree hfree hschemas', hconformance.agree hfree' hconformance'⟩

end MissionWeave.Bundle
