import MissionWeave.Bundle.Assets
import MissionWeave.CodeLib.Utf8Order
import Mathlib.Data.List.Sort

/-!
# The generator of the embedded assets

`asset_paths` and `generate` of `generate_embedded_assets.py`.  A path is the
list of its components below `ROOT`, and paths are compared component by
component.  Of the emitted C++ text the rows of the table are kept, each with
the characters between the quotes of its literal and the contents of the array
it refers to.

* `pairwise_of_assetPaths`: the embedded paths are in strict order.
* `generate_eq_ok`: the rows are those of the embedded paths, which are files.
-/

namespace MissionWeave.Bundle

abbrev Name := List Char

/-- The components of a path below `ROOT`. -/
abbrev Path := List Name

inductive Node
  | file (contents : Bytes)
  | directory
  deriving DecidableEq, Repr

/-- A component of a path. -/
def IsName (name : Name) : Prop := name ≠ [] ∧ '/' ∉ name

instance (name : Name) : Decidable (IsName name) := inferInstanceAs (Decidable (_ ∧ _))

/-- The paths of two nodes differ, and none lies below a file. -/
def Separate (left right : Path × Node) : Prop :=
  left.1 ≠ right.1 ∧ (left.2 ≠ .directory → ¬left.1 <+: right.1) ∧
    (right.2 ≠ .directory → ¬right.1 <+: left.1)

instance : Std.Symm Separate where
  symm _ _ h := ⟨h.1.symm, h.2.2, h.2.1⟩

instance (left right : Path × Node) : Decidable (Separate left right) :=
  inferInstanceAs (Decidable (_ ∧ _))

/-- The files and directories below `ROOT`. -/
structure SourceTree where
  nodes : List (Path × Node)
  names : ∀ node ∈ nodes, ∀ name ∈ node.1, IsName name
  separate : nodes.Pairwise Separate

namespace SourceTree

variable (tree : SourceTree)

/-- The nodes that `(ROOT / name).rglob` visits. -/
def below (name : Name) : List (Path × Node) :=
  tree.nodes.filter fun node => node.1.head? = some name ∧ 2 ≤ node.1.length

/-- `rglob("*.json")`, which finds directories too. -/
def rglobJson (name : Name) : List Path :=
  ((tree.below name).filter fun node =>
    (node.1.getLast?).any fun last => ".json".toList.isSuffixOf last).map Prod.fst

/-- The files among `rglob("*")`. -/
def rglobFiles (name : Name) : List Path :=
  ((tree.below name).filter fun node => node.2 ≠ .directory).map Prod.fst

/-- `read_bytes`. -/
def readBytes (path : Path) : Option Bytes :=
  match tree.nodes.find? fun node => node.1 = path with
  | some (_, .file contents) => some contents
  | _ => none

end SourceTree

/-- What the generator raises. -/
inductive GeneratorError
  | runtimeError (text : String)
  | osError (path : Path)
  deriving DecidableEq, Repr

/-- `sorted`. -/
def sorted (paths : List Path) : List Path := paths.insertionSort fun left right => ¬right < left

def pinPath : Path := ["PROTOCOL_PIN.json".toList]

/-- `asset_paths`. -/
def assetPaths (tree : SourceTree) : Except GeneratorError (List Path) :=
  let schemas := sorted (tree.rglobJson "schemas".toList)
  let conformance := sorted (tree.rglobJson "conformance".toList)
  let cryptography := sorted (tree.rglobFiles "cryptography".toList)
  let admission := sorted (tree.rglobFiles "admission".toList)
  if schemas.length ≠ 22 then
    .error (.runtimeError ("expected 22 schema files, found " ++ toString schemas.length))
  else if conformance.length ≠ 59 then
    .error (.runtimeError ("expected 59 conformance files, found " ++ toString conformance.length))
  else if cryptography.length ≠ 90 then
    .error (.runtimeError ("expected 90 cryptography files, found " ++
      toString cryptography.length))
  else if admission.length ≠ 19 then
    .error (.runtimeError ("expected 19 admission files, found " ++ toString admission.length))
  else .ok (sorted (pinPath :: (schemas ++ conformance ++ cryptography ++ admission)))

/-- `as_posix`. -/
def asPosix (path : Path) : List Char := ['/'].intercalate path

/-- A row of the emitted table. -/
structure Row where
  literal : List Char
  contents : Bytes
  deriving DecidableEq, Repr

def emitRow (tree : SourceTree) (path : Path) : Except GeneratorError Row :=
  match tree.readBytes path with
  | some contents => .ok ⟨asPosix path, contents⟩
  | none => .error (.osError path)

/-- `generate`. -/
def generate (tree : SourceTree) : Except GeneratorError (List Row) := do
  let paths ← assetPaths tree
  paths.mapM (emitRow tree)

/-! ## Sorting -/

private instance : Std.Total fun left right : Path => ¬right < left where
  total left right := by
    rcases le_total left right with h | h
    · exact .inl (not_lt.mpr h)
    · exact .inr (not_lt.mpr h)

private instance : IsTrans Path fun left right => ¬right < left where
  trans _ _ _ h h' := not_lt.mpr (le_trans (not_lt.mp h) (not_lt.mp h'))

theorem perm_sorted (paths : List Path) : (sorted paths).Perm paths :=
  List.perm_insertionSort _ paths

/-- Different paths are sorted strictly. -/
theorem pairwise_sorted {paths : List Path} (h : paths.Nodup) :
    (sorted paths).Pairwise (· < ·) := by
  have hle : (sorted paths).Pairwise fun left right => ¬right < left :=
    List.pairwise_insertionSort _ paths
  have hne : (sorted paths).Nodup := (perm_sorted paths).nodup_iff.mpr h
  exact (hle.and hne).imp fun h => lt_of_le_of_ne (not_lt.mp h.1) h.2

/-- Sorting ends in the only list in order. -/
theorem sorted_eq_of_perm {paths paths' : List Path} (hperm : paths.Perm paths')
    (h : paths'.Pairwise (· < ·)) : sorted paths = paths' := by
  have hnodup : paths.Nodup := hperm.nodup_iff.mpr (h.imp ne_of_lt)
  exact ((perm_sorted paths).trans hperm).eq_of_pairwise
    (fun _ _ _ _ hlt hgt => absurd hgt (lt_asymm hlt)) (pairwise_sorted hnodup) h

/-! ## The files of a tree -/

namespace SourceTree

variable {tree : SourceTree}

theorem nodup_paths : (tree.nodes.map Prod.fst).Nodup :=
  List.pairwise_map.mpr (tree.separate.imp And.left)

/-- A path has one node. -/
theorem node_unique {path : Path} {node node' : Node} (h : (path, node) ∈ tree.nodes)
    (h' : (path, node') ∈ tree.nodes) : node = node' :=
  congrArg Prod.snd (List.inj_on_of_nodup_map nodup_paths h h' rfl)

theorem find?_path {path : Path} {node : Node} (h : (path, node) ∈ tree.nodes) :
    tree.nodes.find? (fun node => node.1 = path) = some (path, node) := by
  cases hfind : tree.nodes.find? fun node => node.1 = path with
  | none => exact absurd (decide_eq_true rfl) (List.find?_eq_none.mp hfind _ h)
  | some found =>
    have hpath : found.1 = path := by simpa using List.find?_some hfind
    have hmem : (path, found.2) ∈ tree.nodes := by
      rw [← hpath]
      exact List.mem_of_find?_eq_some hfind
    rw [node_unique h hmem, ← hpath]

/-- A path is read as its file. -/
theorem readBytes_eq_some {path : Path} {contents : Bytes} :
    tree.readBytes path = some contents ↔ (path, .file contents) ∈ tree.nodes := by
  unfold readBytes
  constructor
  · intro h
    split at h
    · rename_i found contents' hfind
      have hpath : found = path := by simpa using List.find?_some hfind
      rw [← hpath, ← Option.some.inj h]
      exact List.mem_of_find?_eq_some hfind
    · cases h
  · intro h
    rw [find?_path h]

/-- No node lies below a file. -/
theorem not_prefix {path path' : Path} {contents : Bytes} {node : Node}
    (h : (path, .file contents) ∈ tree.nodes) (h' : (path', node) ∈ tree.nodes)
    (hne : path ≠ path') : ¬path <+: path' := by
  have hdiffer : ((path, Node.file contents) : Path × Node) ≠ (path', node) := by
    intro heq
    exact hne (congrArg Prod.fst heq)
  have hseparate := tree.separate.forall h h' hdiffer
  exact hseparate.2.1 (by simp)

/-! ## What `rglob` finds -/

variable {name : Name} {keep : Path × Node → Bool} {path : Path}

theorem head_of_below (h : path ∈ ((tree.below name).filter keep).map Prod.fst) :
    path.head? = some name ∧ 2 ≤ path.length := by
  obtain ⟨node, hnode, rfl⟩ := List.mem_map.mp h
  have hbelow := List.mem_filter.mp (List.mem_filter.mp hnode).1
  exact of_decide_eq_true hbelow.2

theorem nodup_below (keep : Path × Node → Bool) :
    (((tree.below name).filter keep).map Prod.fst).Nodup :=
  nodup_paths.sublist ((List.filter_sublist.trans List.filter_sublist).map _)

end SourceTree

/-! ## The embedded paths -/

variable {tree : SourceTree} {paths : List Path} {rows : List Row}

theorem mem_sorted {path : Path} : path ∈ sorted paths ↔ path ∈ paths :=
  (perm_sorted paths).mem_iff

/-- What one search of `asset_paths` finds: different paths below a
directory. -/
structure FoundBelow (name : Name) (paths : List Path) : Prop where
  nodup : paths.Nodup
  below : ∀ path ∈ paths, path.head? = some name ∧ 2 ≤ path.length

theorem foundBelow_sorted (tree : SourceTree) (name : Name) (keep : Path × Node → Bool) :
    FoundBelow name (sorted (((tree.below name).filter keep).map Prod.fst)) where
  nodup := (perm_sorted _).nodup_iff.mpr (SourceTree.nodup_below keep)
  below _ h := SourceTree.head_of_below (mem_sorted.mp h)

namespace FoundBelow

variable {name name' : Name} {paths' : List Path}

theorem disjoint (h : FoundBelow name paths) (h' : FoundBelow name' paths') (hne : name ≠ name') :
    paths.Disjoint paths' := by
  intro path hpath hpath'
  have heq := (h.below path hpath).1.symm.trans (h'.below path hpath').1
  exact hne (Option.some.inj heq)

theorem pinPath_notMem (h : FoundBelow name paths) : pinPath ∉ paths := by
  intro hmem
  exact absurd (h.below _ hmem).2 (by decide)

end FoundBelow

/-- The embedded paths are in strict order. -/
theorem pairwise_of_assetPaths (h : assetPaths tree = .ok paths) : paths.Pairwise (· < ·) := by
  unfold assetPaths at h
  dsimp only at h
  split_ifs at h
  rw [← Except.ok.inj h]
  have hs : FoundBelow _ (sorted (tree.rglobJson "schemas".toList)) := foundBelow_sorted _ _ _
  have hc : FoundBelow _ (sorted (tree.rglobJson "conformance".toList)) := foundBelow_sorted _ _ _
  have hk : FoundBelow _ (sorted (tree.rglobFiles "cryptography".toList)) :=
    foundBelow_sorted _ _ _
  have ha : FoundBelow _ (sorted (tree.rglobFiles "admission".toList)) := foundBelow_sorted _ _ _
  apply pairwise_sorted
  rw [List.nodup_cons]
  constructor
  · simp only [List.mem_append, not_or]
    exact ⟨⟨⟨hs.pinPath_notMem, hc.pinPath_notMem⟩, hk.pinPath_notMem⟩, ha.pinPath_notMem⟩
  · apply List.Nodup.append (List.Nodup.append (hs.nodup.append hc.nodup _) hk.nodup _) ha.nodup
    · simp only [List.disjoint_append_left]
      exact ⟨⟨hs.disjoint ha (by decide), hc.disjoint ha (by decide)⟩,
        hk.disjoint ha (by decide)⟩
    · exact hs.disjoint hc (by decide)
    · simp only [List.disjoint_append_left]
      exact ⟨hs.disjoint hk (by decide), hc.disjoint hk (by decide)⟩

/-! ## The emitted rows -/

/-- What is emitted for a file. -/
def rowOf (tree : SourceTree) (path : Path) : Row :=
  ⟨asPosix path, (tree.readBytes path).getD []⟩

theorem emitRow_eq_ok {path : Path} {row : Row} :
    emitRow tree path = .ok row ↔
      (∃ contents, (path, .file contents) ∈ tree.nodes) ∧ row = rowOf tree path := by
  simp only [← SourceTree.readBytes_eq_some]
  unfold emitRow rowOf
  cases tree.readBytes path with
  | none => simp
  | some contents => simp [eq_comm]

theorem mapM_emitRow_eq_ok :
    paths.mapM (emitRow tree) = .ok rows ↔
      (∀ path ∈ paths, ∃ contents, (path, .file contents) ∈ tree.nodes) ∧
        rows = paths.map (rowOf tree) := by
  induction paths generalizing rows with
  | nil =>
    rw [List.mapM_nil]
    simp [pure, Except.pure, eq_comm]
  | cons path paths ih =>
    rw [List.mapM_cons, Except.bind_eq_ok, List.forall_mem_cons]
    constructor
    · rintro ⟨row, hrow, h⟩
      obtain ⟨rest, hrest, h⟩ := Except.bind_eq_ok.mp h
      obtain ⟨hfile, hrow⟩ := emitRow_eq_ok.mp hrow
      obtain ⟨hfiles, hrest⟩ := ih.mp hrest
      refine ⟨⟨hfile, hfiles⟩, ?_⟩
      rw [← Except.ok.inj h, hrow, hrest, List.map_cons]
    · rintro ⟨⟨hfile, hfiles⟩, hrows⟩
      refine ⟨_, emitRow_eq_ok.mpr ⟨hfile, rfl⟩, ?_⟩
      rw [ih.mpr ⟨hfiles, rfl⟩, hrows]
      rfl

/-- The rows are those of the embedded paths, in their order, and all of them
are files. -/
theorem generate_eq_ok :
    generate tree = .ok rows ↔ ∃ paths, assetPaths tree = .ok paths ∧
      (∀ path ∈ paths, ∃ contents, (path, .file contents) ∈ tree.nodes) ∧
        rows = paths.map (rowOf tree) := by
  unfold generate
  simp only [Except.bind_eq_ok, mapM_emitRow_eq_ok]

end MissionWeave.Bundle
