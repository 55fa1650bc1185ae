import MissionWeave.CodeLib.ContentAddress
import MissionWeave.CodeLib.LowerBound
import MissionWeave.CodeLib.Terminated
import MissionWeave.Environment

/-!
# The embedded assets

`find_asset`, `tree_digest` and `verify_tree` of `bundle.cpp`.  An
`EVP_MD_CTX` is what it was fed so far: `EVP_DigestUpdate` appends to it, and
`EVP_DigestFinal_ex` is the digest of the whole.

* `tree_identified`: one tree without NUL bytes has the stream of no other one,
  so a tree that passes for it collides with it under SHA-256.
* `treeInput_counterexample`: contents with NUL bytes are read in two ways.
-/

namespace MissionWeave.Bundle

open ContentAddress (Collide)

structure EmbeddedAsset where
  path : Bytes
  bytes : Bytes
  deriving DecidableEq, Repr

structure ArtifactPin where
  path : Bytes
  files : Nat
  sha256 : Bytes
  deriving DecidableEq, Repr

/-- `find_asset`, over what `embedded_assets` returns. -/
def findAsset (assets : List EmbeddedAsset) (path : Bytes) : Option EmbeddedAsset :=
  let found := LowerBound.lowerBound (fun asset => decide (asset.path < path)) assets
  (assets[found]?).filter fun asset => asset.path = path

/-! ## Digests -/

structure DigestContext where
  input : Bytes

namespace DigestContext

def empty : DigestContext := ⟨[]⟩

def update (context : DigestContext) (bytes : Bytes) : DigestContext := ⟨context.input ++ bytes⟩

def separator (context : DigestContext) : DigestContext := context.update [0]

/-- The two hexadecimal digits of each byte. -/
def hexText (digest : Bytes) : Bytes :=
  digest.flatMap fun (b : UInt8) => [Canonical.hexDigit (b >>> 4), Canonical.hexDigit (b &&& 0x0F)]

def finish (env : Environment) (context : DigestContext) : Except Thrown Bytes :=
  match env.evpDigest context.input with
  | none => .error (.otherException "unable to finalize SHA-256")
  | some digest => .ok (hexText digest)

end DigestContext

/-- The loop of `tree_digest`. -/
def treeContext (assets : List EmbeddedAsset) : DigestContext :=
  assets.foldl
    (fun digest asset => (((digest.update asset.path).separator).update asset.bytes).separator)
    DigestContext.empty

/-- `tree_digest`. -/
def treeDigest (env : Environment) (assets : List EmbeddedAsset) : Except Thrown Bytes :=
  (treeContext assets).finish env

/-- `verify_tree`. -/
def verifyTree (env : Environment) (label : String) (assets : List EmbeddedAsset)
    (pin : ArtifactPin) : Except Thrown Unit := do
  if assets.length ≠ pin.files then
    .error (.otherException (label ++ " contains " ++ toString assets.length ++
      " JSON files; expected " ++ toString pin.files))
  else do
    let digest ← treeDigest env assets
    if digest ≠ pin.sha256 then
      .error (.otherException (label ++ " digest is " ++ text digest ++ "; expected " ++
        text pin.sha256))
    else .ok ()

/-! ## The stream of a tree -/

/-- What SHA-256 is fed for a tree. -/
def treeInput (assets : List EmbeddedAsset) : Bytes := (treeContext assets).input

/-- The fields that are fed, each with a NUL byte behind it. -/
def fields (assets : List EmbeddedAsset) : List Bytes :=
  assets.flatMap fun asset => [asset.path, asset.bytes]

theorem treeInput_eq (assets : List EmbeddedAsset) :
    treeInput assets = Terminated.joined 0 (fields assets) := by
  have hloop : ∀ context : DigestContext,
      (assets.foldl (fun digest asset =>
        (((digest.update asset.path).separator).update asset.bytes).separator) context).input =
      context.input ++ Terminated.joined 0 (fields assets) := by
    induction assets with
    | nil => simp [fields]
    | cons asset assets ih =>
      intro context
      rw [List.foldl_cons, ih]
      simp [fields, DigestContext.update, DigestContext.separator]
  exact hloop DigestContext.empty

theorem length_fields (assets : List EmbeddedAsset) :
    (fields assets).length = 2 * assets.length := by
  induction assets with
  | nil => rfl
  | cons asset assets ih =>
    simp only [fields, List.flatMap_cons, List.length_append, List.length_cons] at ih ⊢
    rw [ih]
    simp only [List.length_nil]
    omega

theorem fields_injective : Function.Injective fields := by
  intro assets assets' h
  induction assets generalizing assets' with
  | nil =>
    cases assets' with
    | nil => rfl
    | cons asset' assets' => cases h
  | cons asset assets ih =>
    cases assets' with
    | nil => cases h
    | cons asset' assets' =>
      simp only [fields, List.flatMap_cons, List.cons_append, List.nil_append,
        List.cons.injEq] at h
      obtain ⟨hpath, hbytes, hrest⟩ := h
      rw [ih hrest]
      cases asset
      cases asset'
      simp only at hpath hbytes
      rw [hpath, hbytes]

/-- No path and no contents of the tree has a NUL byte. -/
def NulFree (assets : List EmbeddedAsset) : Prop :=
  ∀ asset ∈ assets, 0 ∉ asset.path ∧ 0 ∉ asset.bytes

theorem NulFree.free {assets : List EmbeddedAsset} (h : NulFree assets) :
    Terminated.Free 0 (fields assets) := by
  intro field hfield
  obtain ⟨asset, hasset, hmem⟩ := List.mem_flatMap.mp hfield
  simp only [List.mem_cons, List.not_mem_nil, or_false] at hmem
  rcases hmem with hmem | hmem
  · rw [hmem]
    exact (h asset hasset).1
  · rw [hmem]
    exact (h asset hasset).2

/-- A tree without NUL bytes is the only one of its size with its stream. -/
theorem eq_of_treeInput {assets assets' : List EmbeddedAsset} (hfree : NulFree assets)
    (hlength : assets.length = assets'.length) (h : treeInput assets = treeInput assets') :
    assets = assets' := by
  apply fields_injective
  apply Terminated.joined_injective _ _ hfree.free
  · rw [length_fields, length_fields, hlength]
  · rw [← treeInput_eq, ← treeInput_eq, h]

/-! ## Verified trees -/

private theorem hexDigits_value : ∀ n, n < 256 →
    ((Ascii.hexValue? (Canonical.hexDigit (UInt8.ofNat n >>> 4))).getD 0 * 16 +
      (Ascii.hexValue? (Canonical.hexDigit (UInt8.ofNat n &&& 0x0F))).getD 0) = n := by
  decide +kernel

theorem hexDigits_injective {b c : UInt8}
    (hhigh : Canonical.hexDigit (b >>> 4) = Canonical.hexDigit (c >>> 4))
    (hlow : Canonical.hexDigit (b &&& 0x0F) = Canonical.hexDigit (c &&& 0x0F)) : b = c := by
  have hb := hexDigits_value b.toNat b.toNat_lt
  have hc := hexDigits_value c.toNat c.toNat_lt
  rw [UInt8.ofNat_toNat] at hb hc
  rw [hhigh, hlow, hc] at hb
  exact UInt8.toNat_inj.mp hb.symm

theorem hexText_injective : Function.Injective DigestContext.hexText := by
  intro digest digest' h
  induction digest generalizing digest' with
  | nil =>
    cases digest' with
    | nil => rfl
    | cons c digest' => cases h
  | cons b digest ih =>
    cases digest' with
    | nil => cases h
    | cons c digest' =>
      simp only [DigestContext.hexText, List.flatMap_cons, List.cons_append, List.nil_append,
        List.cons.injEq] at h
      obtain ⟨hhigh, hlow, hrest⟩ := h
      rw [hexDigits_injective hhigh hlow, ih hrest]

theorem verifyTree_eq_ok {env : Environment} {label : String} {assets : List EmbeddedAsset}
    {pin : ArtifactPin} :
    verifyTree env label assets pin = .ok () ↔
      assets.length = pin.files ∧ treeDigest env assets = .ok pin.sha256 := by
  unfold verifyTree
  by_cases hlength : assets.length = pin.files
  · rw [if_neg (not_not.mpr hlength)]
    simp only [hlength, true_and]
    cases treeDigest env assets with
    | error thrown => simp
    | ok digest =>
      simp only [Except.ok_bind, Except.ok.injEq]
      by_cases hdigest : digest = pin.sha256
      · simp [hdigest]
      · simp [hdigest]
  · simp [hlength]

theorem exists_digest {env : Environment} {assets : List EmbeddedAsset} {sha256 : Bytes}
    (h : treeDigest env assets = .ok sha256) :
    ∃ digest, env.evpDigest (treeInput assets) = some digest ∧
      sha256 = DigestContext.hexText digest := by
  unfold treeDigest DigestContext.finish at h
  split at h
  · cases h
  · rename_i digest hdigest
    exact ⟨digest, hdigest, (Except.ok.inj h).symm⟩

/-- Trees that pass for one pin have one stream, or their streams collide. -/
theorem treeInput_eq_or_collide {env : Environment} {assets assets' : List EmbeddedAsset}
    {sha256 : Bytes} (h : treeDigest env assets = .ok sha256)
    (h' : treeDigest env assets' = .ok sha256) :
    treeInput assets = treeInput assets' ∨
      Collide env.evpDigest (treeInput assets) (treeInput assets') := by
  obtain ⟨digest, hdigest, hhex⟩ := exists_digest h
  obtain ⟨digest', hdigest', hhex'⟩ := exists_digest h'
  rw [← hexText_injective (hhex.symm.trans hhex')] at hdigest'
  exact ContentAddress.eq_or_collide hdigest hdigest'

/-- A tree without NUL bytes is the only one of its size that SHA-256 is fed
its stream for.  A tree that passes for the same pin is the same tree, or the
streams of the two collide. -/
theorem tree_identified (assets assets' : List EmbeddedAsset) (hfree : NulFree assets) :
    (assets.length = assets'.length → treeInput assets = treeInput assets' → assets = assets') ∧
      ∀ env label label' pin, verifyTree env label assets pin = .ok () →
        verifyTree env label' assets' pin = .ok () →
          assets = assets' ∨ Collide env.evpDigest (treeInput assets) (treeInput assets') := by
  refine ⟨eq_of_treeInput hfree, ?_⟩
  intro env label label' pin h h'
  obtain ⟨hlength, hdigest⟩ := verifyTree_eq_ok.mp h
  obtain ⟨hlength', hdigest'⟩ := verifyTree_eq_ok.mp h'
  rcases treeInput_eq_or_collide hdigest hdigest' with heq | hcollide
  · exact .inl (eq_of_treeInput hfree (hlength.trans hlength'.symm) heq)
  · exact .inr hcollide

/-! ## Two trees with one stream -/

/-- Two assets, the first with two NUL bytes in its contents. -/
def firstTree : List EmbeddedAsset :=
  [⟨ascii "a", ascii "1" ++ 0 :: (ascii "b" ++ 0 :: ascii "2")⟩, ⟨ascii "c", ascii "3"⟩]

/-- Two assets with the path and the contents behind the first NUL byte in an
asset of their own. -/
def secondTree : List EmbeddedAsset :=
  [⟨ascii "a", ascii "1"⟩, ⟨ascii "b", ascii "2" ++ 0 :: (ascii "c" ++ 0 :: ascii "3")⟩]

/-- The two trees have proper paths and the same stream, and `verify_tree`
does not tell them apart. -/
theorem treeInput_counterexample :
    (firstTree.map EmbeddedAsset.path).Pairwise (· < ·) ∧
      (secondTree.map EmbeddedAsset.path).Pairwise (· < ·) ∧
      (firstTree ++ secondTree).all (fun asset => asset.path ≠ [] ∧ 0 ∉ asset.path) = true ∧
      firstTree.length = secondTree.length ∧ treeInput firstTree = treeInput secondTree ∧
      firstTree ≠ secondTree ∧
      ∀ env label pin,
        verifyTree env label firstTree pin = verifyTree env label secondTree pin := by
  refine ⟨by decide, by decide, by decide +kernel, rfl, rfl, by decide, ?_⟩
  intro env label pin
  rfl

/-- Two assets with the same bytes in all, split otherwise. -/
def plainTree : List EmbeddedAsset := [⟨ascii "a", ascii "12"⟩, ⟨ascii "b", ascii "3"⟩]

def movedTree : List EmbeddedAsset := [⟨ascii "a1", ascii "2"⟩, ⟨ascii "b", ascii "3"⟩]

theorem tree_identified_sample :
    (plainTree.length = movedTree.length → treeInput plainTree = treeInput movedTree →
      plainTree = movedTree) ∧
      ∀ env label label' pin, verifyTree env label plainTree pin = .ok () →
        verifyTree env label' movedTree pin = .ok () →
          plainTree = movedTree ∨
            Collide env.evpDigest (treeInput plainTree) (treeInput movedTree) := by
  apply tree_identified
  unfold NulFree
  decide

end MissionWeave.Bundle
