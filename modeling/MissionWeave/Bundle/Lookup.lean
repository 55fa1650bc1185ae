import MissionWeave.Bundle.Generator

/-!
# Finding an embedded asset

The table is emitted in the order of the paths, component by component, and
searched in the order of the bytes of the whole paths.  The two orders differ
for a file below a directory and one below a sibling whose name goes on, after
the name of the directory, with a character before `'/'`.

* `asPosix_lt_iff`: when the two orders agree on a pair of paths.
* `findable_iff`: when every embedded file is found.
* `findable_counterexample`: a set of files of which one is not found.
-/

namespace MissionWeave.Bundle

/-! ## The embedded table -/

/-- A text that a C++ string literal spells as it stands. -/
def Plain (text : List Char) : Prop :=
  ∀ c ∈ text, c ≠ '"' ∧ c ≠ '\\' ∧ c ≠ '\n' ∧ c ≠ '\r' ∧ c ≠ '\x00'

instance (text : List Char) : Decidable (Plain text) := List.decidableBAll _ text

/-- The compiler, which makes a string view of the characters between quotes or
rejects them, spells the plain texts and no others as they stand. -/
def SpellsPlain (spell : List Char → Option Bytes) : Prop :=
  ∀ text, spell text = some (Utf8.encodeAll text) ↔ Plain text

/-- `embedded_assets`, if the emitted source compiles. -/
def embeddedAssets (spell : List Char → Option Bytes) (rows : List Row) :
    Option (List EmbeddedAsset) :=
  rows.mapM fun row => (spell row.literal).map fun path => EmbeddedAsset.mk path row.contents

/-- The bytes of a relative path. -/
def pathBytes (path : Path) : Bytes := Utf8.encodeAll (asPosix path)

/-- The table is in order, and it is searched successfully for each embedded
path and for no other string. -/
structure Findable (tree : SourceTree) (paths : List Path) (table : List EmbeddedAsset) :
    Prop where
  increasing : (table.map EmbeddedAsset.path).Pairwise (· < ·)
  found : ∀ (i : Nat) (path : Path), paths[i]? = some path →
    ∃ contents, (path, .file contents) ∈ tree.nodes ∧
      table[i]? = some (EmbeddedAsset.mk (pathBytes path) contents) ∧
        findAsset table (pathBytes path) = some (EmbeddedAsset.mk (pathBytes path) contents)
  other : ∀ text, (∀ path ∈ paths, text ≠ pathBytes path) → findAsset table text = none

/-- On the way to the first path stands a directory, and on the way to the
second one a sibling of it whose name is that of the directory and goes on with
a character before `'/'`. -/
def Overtakes : Path → Path → Prop
  | a :: p, b :: q =>
    if a = b then Overtakes p q
    else p ≠ [] ∧ ∃ c rest, b = a ++ c :: rest ∧ c < '/'
  | _, _ => False

/-! ## `find_asset` -/

section

variable {assets : List EmbeddedAsset} {asset : EmbeddedAsset} {path : Bytes}

theorem of_findAsset (h : findAsset assets path = some asset) :
    asset ∈ assets ∧ asset.path = path := by
  unfold findAsset at h
  obtain ⟨hget, hpath⟩ := Option.filter_eq_some_iff.mp h
  exact ⟨List.mem_of_getElem? hget, of_decide_eq_true hpath⟩

/-- In a table in order the search ends at the entry of the path. -/
theorem findAsset_of_mem (h : (assets.map EmbeddedAsset.path).Pairwise (· < ·))
    (hmem : asset ∈ assets) : findAsset assets asset.path = some asset := by
  obtain ⟨i, hi, hget⟩ := List.getElem_of_mem hmem
  have hpairs := List.pairwise_iff_getElem.mp (List.pairwise_map.mp h)
  have hborder : LowerBound.Border (fun x : EmbeddedAsset => decide (x.path < asset.path))
      assets i := by
    intro j x hx
    obtain ⟨hj, hx⟩ := List.getElem?_eq_some_iff.mp hx
    rw [decide_eq_true_iff, ← hx, ← hget]
    constructor
    · intro hlt
      rcases Nat.lt_trichotomy j i with hji | hji | hji
      · exact hji
      · rw [getElem_congr_idx hji] at hlt
        exact absurd hlt (List.lt_irrefl _)
      · exact absurd hlt (List.lt_asymm (hpairs i j hi hj hji))
    · intro hji
      exact hpairs j i hj hi hji
  unfold findAsset
  dsimp only
  rw [LowerBound.lowerBound_spec hborder (Nat.le_of_lt hi), List.getElem?_eq_getElem hi, hget]
  simp

end

/-! ## The two orders -/

/-- Two lists in order: one goes on where the other ends, or they part at a
place where the first one has the smaller element. -/
theorem lt_cases {a b : Name} (h : a < b) :
    (∃ c rest, b = a ++ c :: rest) ∨
      ∃ common x y rest rest', x < y ∧ a = common ++ x :: rest ∧ b = common ++ y :: rest' := by
  induction a generalizing b with
  | nil =>
    cases b with
    | nil => exact absurd h (List.lt_irrefl _)
    | cons c rest => exact .inl ⟨c, rest, rfl⟩
  | cons x a ih =>
    cases b with
    | nil => exact absurd h (List.not_lt_nil _)
    | cons y b =>
      rcases List.cons_lt_cons_iff.mp h with hlt | ⟨heq, hlt⟩
      · exact .inr ⟨[], x, y, a, b, hlt, rfl, rfl⟩
      · rw [← heq]
        rcases ih hlt with ⟨c, rest, hb⟩ | ⟨common, u, v, rest, rest', huv, ha, hb⟩
        · exact .inl ⟨c, rest, by rw [hb]; rfl⟩
        · exact .inr ⟨x :: common, u, v, rest, rest', huv, by rw [ha]; rfl, by rw [hb]; rfl⟩

/-- What follows a component of a path. -/
def tailText (path : Path) : List Char := if path = [] then [] else '/' :: asPosix path

theorem asPosix_cons (name : Name) (path : Path) :
    asPosix (name :: path) = name ++ tailText path := by
  cases path with
  | nil => simp [asPosix, tailText]
  | cons next path => simp [asPosix, tailText, List.intercalate_cons_cons]

theorem append_lt_append_iff {xs ys : List Char} (prefixed : List Char) :
    prefixed ++ xs < prefixed ++ ys ↔ xs < ys := by
  induction prefixed with
  | nil => rfl
  | cons x rest ih =>
    rw [List.cons_append, List.cons_append, List.cons_lt_cons_iff, ih]
    simp

/-- Two components that differ, with what follows them. -/
theorem component_lt_iff {a b : Name} (h : a < b) (hb : '/' ∉ b) (p q : Path) :
    a ++ tailText p < b ++ tailText q ↔ ¬(p ≠ [] ∧ ∃ c rest, b = a ++ c :: rest ∧ c < '/') := by
  rcases lt_cases h with ⟨c, rest, heq⟩ | ⟨common, x, y, rest, rest', hxy, ha, hb'⟩
  · have hc : c ≠ '/' := by
      intro hslash
      apply hb
      rw [heq, hslash]
      simp
    have hnext : (∃ c' rest', b = a ++ c' :: rest' ∧ c' < '/') ↔ c < '/' := by
      constructor
      · rintro ⟨c', rest', heq', hlt⟩
        rw [heq] at heq'
        rw [(List.cons.inj (List.append_cancel_left heq')).1]
        exact hlt
      · intro hlt
        exact ⟨c, rest, heq, hlt⟩
    rw [hnext, heq, List.append_assoc, append_lt_append_iff]
    by_cases hp : p = []
    · rw [hp, tailText, if_pos rfl]
      simp
    · rw [tailText, if_neg hp, List.cons_append, List.cons_lt_cons_iff]
      simp only [hc.symm, false_and, or_false, ne_eq, hp, not_false_eq_true, true_and, not_lt]
      exact ⟨le_of_lt, fun hle => lt_of_le_of_ne hle hc.symm⟩
  · have hlt : a ++ tailText p < b ++ tailText q := by
      rw [ha, hb', List.append_assoc, List.append_assoc, append_lt_append_iff]
      exact List.cons_lt_cons_iff.mpr (.inl hxy)
    refine iff_of_true hlt ?_
    rintro ⟨_, c, rest'', heq, _⟩
    rw [ha, hb', List.append_assoc] at heq
    have hhead := (List.cons.inj (List.append_cancel_left heq)).1
    exact absurd hxy (by rw [hhead]; exact lt_irrefl _)

/-- The order of the components and that of the characters agree on two paths,
of which none leads to the other, unless the second overtakes the first. -/
theorem asPosix_lt_iff {p q : Path} (h : p < q) (hincomparable : ¬p <+: q)
    (hnames : ∀ name ∈ q, '/' ∉ name) : asPosix p < asPosix q ↔ ¬Overtakes p q := by
  induction p generalizing q with
  | nil => exact absurd List.nil_prefix hincomparable
  | cons a p ih =>
    cases q with
    | nil => exact absurd h (List.not_lt_nil _)
    | cons b q =>
      rw [List.forall_mem_cons] at hnames
      rw [asPosix_cons, asPosix_cons, Overtakes]
      rcases List.cons_lt_cons_iff.mp h with hlt | ⟨heq, hlt⟩
      · have hne : a ≠ b := ne_of_lt hlt
        rw [if_neg hne]
        exact component_lt_iff hlt hnames.1 p q
      · rw [if_pos heq, heq, append_lt_append_iff]
        have hrest : ¬p <+: q := by
          intro hpq
          apply hincomparable
          rw [heq]
          exact List.cons_prefix_cons.mpr ⟨rfl, hpq⟩
        have hp : p ≠ [] := by
          intro hnil
          apply hrest
          rw [hnil]
          exact List.nil_prefix
        have hq : q ≠ [] := by
          intro hnil
          rw [hnil] at hlt
          exact List.not_lt_nil _ hlt
        rw [tailText, tailText, if_neg hp, if_neg hq, List.cons_lt_cons_iff,
          ← ih hlt hrest hnames.2]
        simp

/-- A path that is overtaken comes first. -/
theorem Overtakes.lt {p q : Path} (h : Overtakes p q) : p < q := by
  induction p generalizing q with
  | nil => exact h.elim
  | cons a p ih =>
    cases q with
    | nil => exact h.elim
    | cons b q =>
      rw [Overtakes] at h
      rw [List.cons_lt_cons_iff]
      by_cases heq : a = b
      · rw [if_pos heq] at h
        exact .inr ⟨heq, ih h⟩
      · rw [if_neg heq] at h
        obtain ⟨_, c, rest, hb, _⟩ := h
        have hlt := (append_lt_append_iff a).mpr (List.nil_lt_cons c rest)
        rw [List.append_nil, ← hb] at hlt
        exact .inl hlt

/-! ## The table that is searched -/

section

variable {tree : SourceTree} {spell : List Char → Option Bytes} {paths : List Path}
  {rows : List Row} {table : List EmbeddedAsset}

/-- The entry of a path whose literal spells it. -/
def entryOf (tree : SourceTree) (path : Path) : EmbeddedAsset :=
  ⟨pathBytes path, (tree.readBytes path).getD []⟩

theorem embeddedAssets_of_plain (hspell : SpellsPlain spell)
    (h : ∀ path ∈ paths, Plain (asPosix path)) :
    embeddedAssets spell (paths.map (rowOf tree)) = some (paths.map (entryOf tree)) := by
  induction paths with
  | nil => rfl
  | cons path paths ih =>
    rw [List.forall_mem_cons] at h
    have hrest := ih h.2
    unfold embeddedAssets at hrest ⊢
    have hliteral : spell (rowOf tree path).literal = some (pathBytes path) :=
      (hspell _).mpr h.1
    rw [List.map_cons, List.mapM_cons, hrest, hliteral]
    rfl

/-- The literal of each row is spelled as the path of its entry. -/
theorem spell_of_embeddedAssets (h : embeddedAssets spell rows = some table) :
    ∀ (i : Nat) (row : Row), rows[i]? = some row →
      ∃ asset, table[i]? = some asset ∧ spell row.literal = some asset.path := by
  unfold embeddedAssets at h
  induction rows generalizing table with
  | nil =>
    intro i row hrow
    cases hrow
  | cons first rows ih =>
    rw [List.mapM_cons] at h
    obtain ⟨asset, hasset, h⟩ := Option.bind_eq_some_iff.mp h
    obtain ⟨assets, hassets, h⟩ := Option.bind_eq_some_iff.mp h
    obtain ⟨path, hpath, heq⟩ := Option.map_eq_some_iff.mp hasset
    rw [← Option.some.inj h]
    intro i row hrow
    cases i with
    | zero =>
      rw [← Option.some.inj hrow]
      refine ⟨asset, rfl, ?_⟩
      rw [hpath, ← heq]
    | succ i => exact ih hassets i row hrow

/-- In a list in order, what holds of every earlier and later element holds of
every smaller and greater one. -/
theorem forall_lt_of_pairwise {R : Path → Path → Prop} (hsorted : paths.Pairwise (· < ·)) :
    paths.Pairwise R ↔ ∀ p ∈ paths, ∀ q ∈ paths, p < q → R p q := by
  constructor
  · intro h p hp q hq hlt
    obtain ⟨i, hi, rfl⟩ := List.getElem_of_mem hp
    obtain ⟨j, hj, rfl⟩ := List.getElem_of_mem hq
    rcases Nat.lt_trichotomy i j with hij | hij | hij
    · exact List.pairwise_iff_getElem.mp h i j hi hj hij
    · rw [getElem_congr_idx hij] at hlt
      exact absurd hlt (lt_irrefl _)
    · exact absurd hlt (lt_asymm (List.pairwise_iff_getElem.mp hsorted j i hj hi hij))
  · intro h
    exact hsorted.imp_of_mem fun {p q} hp hq hlt => h p hp q hq hlt

/-- The table is in order if and only if no embedded path overtakes another
one. -/
theorem increasing_iff (hpaths : assetPaths tree = .ok paths)
    (hfiles : ∀ path ∈ paths, ∃ contents, (path, .file contents) ∈ tree.nodes) :
    ((paths.map (entryOf tree)).map EmbeddedAsset.path).Pairwise (· < ·) ↔
      ∀ p ∈ paths, ∀ q ∈ paths, ¬Overtakes p q := by
  have hsorted := pairwise_of_assetPaths hpaths
  have horder (p q : Path) (hp : p ∈ paths) (hq : q ∈ paths) (hlt : p < q) :
      pathBytes p < pathBytes q ↔ ¬Overtakes p q := by
    obtain ⟨contents, hp⟩ := hfiles p hp
    obtain ⟨contents', hq⟩ := hfiles q hq
    rw [pathBytes, pathBytes, Utf8.encodeAll_lt_iff]
    exact asPosix_lt_iff hlt (SourceTree.not_prefix hp hq (ne_of_lt hlt))
      fun name hname => (tree.names _ hq name hname).2
  rw [List.map_map, List.pairwise_map]
  show paths.Pairwise (fun p q => pathBytes p < pathBytes q) ↔ _
  rw [forall_lt_of_pairwise hsorted]
  constructor
  · intro h p hp q hq hovertakes
    exact (horder p q hp hq hovertakes.lt).mp (h p hp q hq hovertakes.lt) hovertakes
  · intro h p hp q hq hlt
    exact (horder p q hp hq hlt).mpr (h p hp q hq)

/-- A table in order finds each of its entries. -/
theorem findable_of_increasing
    (hfiles : ∀ path ∈ paths, ∃ contents, (path, .file contents) ∈ tree.nodes)
    (h : ((paths.map (entryOf tree)).map EmbeddedAsset.path).Pairwise (· < ·)) :
    Findable tree paths (paths.map (entryOf tree)) where
  increasing := h
  found i path hpath := by
    obtain ⟨contents, hfile⟩ := hfiles path (List.mem_of_getElem? hpath)
    have hentry : entryOf tree path = ⟨pathBytes path, contents⟩ := by
      rw [entryOf, SourceTree.readBytes_eq_some.mpr hfile, Option.getD_some]
    have hget : (paths.map (entryOf tree))[i]? = some ⟨pathBytes path, contents⟩ := by
      rw [List.getElem?_map, hpath, Option.map_some, hentry]
    exact ⟨contents, hfile, hget, findAsset_of_mem h (List.mem_of_getElem? hget)⟩
  other text htext := by
    cases hfind : findAsset (paths.map (entryOf tree)) text with
    | none => rfl
    | some asset =>
      obtain ⟨hmem, hpath⟩ := of_findAsset hfind
      obtain ⟨path, hmem, heq⟩ := List.mem_map.mp hmem
      exact absurd (by rw [← hpath, ← heq]; rfl) (htext path hmem)

end

/-- Every embedded file is found, in a table in order, if and only if the
literals spell the paths as they stand and no path overtakes another one. -/
theorem findable_iff (tree : SourceTree) (spell : List Char → Option Bytes) (paths : List Path)
    (rows : List Row) (hspell : SpellsPlain spell) (hpaths : assetPaths tree = .ok paths)
    (hrows : generate tree = .ok rows) :
    (∃ table, embeddedAssets spell rows = some table ∧ Findable tree paths table) ↔
      (∀ path ∈ paths, Plain (asPosix path)) ∧ ∀ p ∈ paths, ∀ q ∈ paths, ¬Overtakes p q := by
  obtain ⟨paths', hpaths', hfiles, hmap⟩ := generate_eq_ok.mp hrows
  have hsame : paths' = paths := Except.ok.inj (hpaths'.symm.trans hpaths)
  rw [hsame] at hfiles hmap
  rw [hmap]
  constructor
  · rintro ⟨table, htable, hfindable⟩
    have hplain : ∀ path ∈ paths, Plain (asPosix path) := by
      intro path hpath
      obtain ⟨i, hi, hget⟩ := List.getElem_of_mem hpath
      have hpath : paths[i]? = some path := by rw [List.getElem?_eq_getElem hi, hget]
      obtain ⟨contents, _, hentry, _⟩ := hfindable.found i path hpath
      obtain ⟨asset, hasset, hliteral⟩ := spell_of_embeddedAssets htable i (rowOf tree path)
        (by rw [List.getElem?_map, hpath, Option.map_some])
      rw [Option.some.inj (hasset.symm.trans hentry)] at hliteral
      exact (hspell _).mp hliteral
    refine ⟨hplain, ?_⟩
    rw [← increasing_iff hpaths hfiles,
      Option.some.inj ((embeddedAssets_of_plain hspell hplain).symm.trans htable)]
    exact hfindable.increasing
  · rintro ⟨hplain, hovertakes⟩
    exact ⟨_, embeddedAssets_of_plain hspell hplain,
      findable_of_increasing hfiles ((increasing_iff hpaths hfiles).mpr hovertakes)⟩

/-! ## A file that is not found -/

/-- The paths between a path and one that it leads to begin with it. -/
theorem prefix_of_between {p q r : Path} (hpr : p <+: r) (hpq : p < q) (hqr : q < r) : p <+: q := by
  induction p generalizing q r with
  | nil => exact List.nil_prefix
  | cons a p ih =>
    cases r with
    | nil => exact absurd hpr (by simp)
    | cons c r =>
      cases q with
      | nil => exact absurd hpq (List.not_lt_nil _)
      | cons b q =>
        obtain ⟨hac, hpr⟩ := List.cons_prefix_cons.mp hpr
        rw [← hac] at hqr
        rcases List.cons_lt_cons_iff.mp hpq with hab | ⟨hab, hpq⟩
        · rcases List.cons_lt_cons_iff.mp hqr with hba | ⟨hba, _⟩
          · exact absurd hba (lt_asymm hab)
          · rw [hba] at hab
            exact absurd hab (lt_irrefl _)
        · rcases List.cons_lt_cons_iff.mp hqr with hba | ⟨_, hqr⟩
          · rw [hab] at hba
            exact absurd hba (lt_irrefl _)
          · exact List.cons_prefix_cons.mpr ⟨hab, ih hpr hpq hqr⟩

/-- Paths that stand in order, none of which leads to the next one, belong to
different files. -/
theorem pairwise_incomparable {paths : List Path}
    (h : paths.IsChain fun p q => p < q ∧ ¬p <+: q) :
    paths.Pairwise fun p q => p < q ∧ ¬p <+: q := by
  have htrans : ∀ p q r : Path, p < q ∧ ¬p <+: q → q < r ∧ ¬q <+: r → p < r ∧ ¬p <+: r := by
    intro p q r hpq hqr
    refine ⟨lt_trans hpq.1 hqr.1, fun hpr => hpq.2 (prefix_of_between hpr hpq.1 hqr.1)⟩
  have : IsTrans Path fun p q => p < q ∧ ¬p <+: q := ⟨htrans⟩
  exact List.isChain_iff_pairwise.mp h

/-- A compiler that rejects what it would not spell as it stands. -/
def referenceSpell (text : List Char) : Option Bytes :=
  if Plain text then some (Utf8.encodeAll text) else none

theorem spellsPlain_referenceSpell : SpellsPlain referenceSpell := by
  intro text
  unfold referenceSpell
  split_ifs with h <;> simp [h]

/-- Paths below a directory with names of two letters. -/
def numberedPaths (root extension : String) (count : Nat) : List Path :=
  (List.range count).map fun i =>
    [root.toList, Char.ofNat (0x61 + i / 26) :: Char.ofNat (0x61 + i % 26) :: extension.toList]

def overtakenPath : Path := ["conformance".toList, "a".toList, "b.json".toList]

def lostPath : Path := ["conformance".toList, "a.json".toList]

/-- 191 paths, in order. -/
def samplePaths : List Path :=
  pinPath :: (numberedPaths "admission" "" 19 ++
    (overtakenPath :: lostPath :: numberedPaths "conformance" ".json" 57) ++
    numberedPaths "cryptography" "" 90 ++ numberedPaths "schemas" ".json" 22)

theorem samplePaths_chain : samplePaths.IsChain fun p q => p < q ∧ ¬p <+: q := by
  decide +kernel

def sampleDirectories : List Path :=
  [["admission".toList], ["conformance".toList], ["conformance".toList, "a".toList],
    ["cryptography".toList], ["schemas".toList]]

def sampleNodes : List (Path × Node) :=
  sampleDirectories.map (·, .directory) ++ samplePaths.map (·, .file [])

theorem sampleNodes_names : ∀ node ∈ sampleNodes, ∀ name ∈ node.1, IsName name := by
  decide +kernel

theorem sampleNodes_separate : sampleNodes.Pairwise Separate := by
  rw [sampleNodes, List.pairwise_append, List.pairwise_map, List.pairwise_map]
  refine ⟨by decide +kernel, ?_, by decide +kernel⟩
  refine (pairwise_incomparable samplePaths_chain).imp fun {p q} h => ?_
  refine ⟨ne_of_lt h.1, fun _ => h.2, fun _ hqp => ?_⟩
  exact absurd h.1 (List.not_lt.mpr (List.IsPrefix.le hqp))

/-- Empty files at these paths, and their directories. -/
def sampleTree : SourceTree := ⟨sampleNodes, sampleNodes_names, sampleNodes_separate⟩

theorem perm_ends {α : Type} [DecidableEq α] (first middle middle' last : List α) :
    (first ++ middle ++ middle' ++ last).Perm (last ++ middle ++ middle' ++ first) := by
  rw [List.perm_iff_count]
  intro a
  simp only [List.count_append]
  omega

theorem assetPaths_sampleTree : assetPaths sampleTree = .ok samplePaths := by
  have hschemas : sorted (sampleTree.rglobJson "schemas".toList) =
      numberedPaths "schemas" ".json" 22 := by decide +kernel
  have hconformance : sorted (sampleTree.rglobJson "conformance".toList) =
      overtakenPath :: lostPath :: numberedPaths "conformance" ".json" 57 := by decide +kernel
  have hcryptography : sorted (sampleTree.rglobFiles "cryptography".toList) =
      numberedPaths "cryptography" "" 90 := by decide +kernel
  have hadmission : sorted (sampleTree.rglobFiles "admission".toList) =
      numberedPaths "admission" "" 19 := by decide +kernel
  unfold assetPaths
  rw [hschemas, hconformance, hcryptography, hadmission]
  have hsorted : sorted (pinPath :: (numberedPaths "schemas" ".json" 22 ++
      (overtakenPath :: lostPath :: numberedPaths "conformance" ".json" 57) ++
      numberedPaths "cryptography" "" 90 ++ numberedPaths "admission" "" 19)) = samplePaths := by
    apply sorted_eq_of_perm
    · exact (perm_ends _ _ _ _).cons _
    · exact (pairwise_incomparable samplePaths_chain).imp And.left
  exact congrArg Except.ok hsorted

theorem samplePaths_files :
    ∀ path ∈ samplePaths, ∃ contents, (path, .file contents) ∈ sampleTree.nodes := by
  intro path hpath
  exact ⟨[], List.mem_append_right _ (List.mem_map.mpr ⟨path, hpath, rfl⟩)⟩

theorem samplePaths_plain : ∀ path ∈ samplePaths, Plain (asPosix path) := by
  decide +kernel

def sampleRows : List Row := samplePaths.map (rowOf sampleTree)

theorem generate_sampleTree : generate sampleTree = .ok sampleRows :=
  generate_eq_ok.mpr ⟨samplePaths, assetPaths_sampleTree, samplePaths_files, rfl⟩

/-- The generator embeds a file that `find_asset` does not find, since the
table is not in order. -/
theorem findable_counterexample :
    ∃ table, generate sampleTree = .ok sampleRows ∧
      embeddedAssets referenceSpell sampleRows = some table ∧
      (∃ asset ∈ table, asset.path = ascii "conformance/a.json") ∧
      findAsset table (ascii "conformance/a.json") = none ∧
      ¬(table.map EmbeddedAsset.path).Pairwise (· < ·) := by
  refine ⟨samplePaths.map (entryOf sampleTree), generate_sampleTree,
    embeddedAssets_of_plain spellsPlain_referenceSpell samplePaths_plain, ?_, ?_, ?_⟩
  · refine ⟨entryOf sampleTree lostPath, List.mem_map_of_mem ?_, ?_⟩
    · decide +kernel
    · decide +kernel
  · decide +kernel
  · rw [increasing_iff assetPaths_sampleTree samplePaths_files]
    intro h
    apply h overtakenPath (by decide +kernel) lostPath (by decide +kernel)
    show Overtakes ["conformance".toList, "a".toList, "b.json".toList]
      ["conformance".toList, "a.json".toList]
    rw [Overtakes, if_pos rfl, Overtakes, if_neg (by decide)]
    exact ⟨by decide, '.', "json".toList, by decide, by decide⟩

theorem findable_iff_sample :
    (∃ table, embeddedAssets referenceSpell sampleRows = some table ∧
      Findable sampleTree samplePaths table) ↔
      (∀ path ∈ samplePaths, Plain (asPosix path)) ∧
        ∀ p ∈ samplePaths, ∀ q ∈ samplePaths, ¬Overtakes p q :=
  findable_iff sampleTree referenceSpell samplePaths sampleRows spellsPlain_referenceSpell
    assetPaths_sampleTree generate_sampleTree

end MissionWeave.Bundle
