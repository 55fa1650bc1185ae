import MissionWeave.Bundle.Agreement
import MissionWeave.Schema.Catalog

/-!
# The conformance suite

`conformance.cpp`: the suite that an SDK is checked with.  `run` reads the
manifest of the suite and asks the catalog for a verdict on each instance.

* `safeRelativePath_eq_ok`: the paths that are read.
* `run_exact`: what a report says, and which files a run reads.
* `runSuite_agree`: the suite gives the same report on all tables that pass
  `verify`, up to collisions.
-/

namespace MissionWeave.Conformance

open MissionWeave.Bundle (EmbeddedAsset conformance)
open ContentAddress (Collide)
open Segments (first rest?)

/-- A `ConformanceError`. -/
def conformanceError {α : Type} (what : String) : Except Thrown α :=
  .error (.otherException what)

def unsafePath {α : Type} (path : Bytes) : Except Thrown α :=
  conformanceError ("unsafe conformance path: " ++ text path)

/-- The loop of `safe_relative_path`, from a `start` with `rest` behind it. -/
def segmentLoop (path rest : Bytes) : Except Thrown Unit :=
  let segment := first Ascii.slash rest
  if segment = [] ∨ segment = ascii ".." then unsafePath path
  else
    match _hrest : rest? Ascii.slash rest with
    | none => .ok ()
    | some rest => segmentLoop path rest
termination_by rest.length
decreasing_by exact Segments.length_rest? _hrest

/-- `safe_relative_path`. -/
def safeRelativePath (path directory : Bytes) : Except Thrown Bytes :=
  if ¬directory <+: path then conformanceError ("unexpected conformance path: " ++ text path)
  else
    let relative := path.drop directory.length
    if relative = [] ∨ relative.head? = some Ascii.slash ∨ Ascii.backslash ∈ relative then
      unsafePath path
    else do
      segmentLoop path relative
      .ok relative

/-- `required_string`. -/
def requiredString (object : Json) (key : String) : Except Thrown Bytes :=
  match (object.member? key).bind Json.asString? with
  | some text => .ok text
  | none => conformanceError ("manifest field must be a string: " ++ key)

/-! ## Reports -/

structure VectorResult where
  name : Bytes
  expectedValid : Bool
  actualValid : Bool
  error : String

def VectorResult.passed (result : VectorResult) : Bool :=
  result.expectedValid == result.actualValid

structure ConformanceReport where
  results : List VectorResult

namespace ConformanceReport

variable (report : ConformanceReport)

def passed : Bool := report.results.all VectorResult.passed

def passedCount : Nat := report.results.countP VectorResult.passed

def expectedValidCount : Nat := report.results.countP VectorResult.expectedValid

def summary : String :=
  toString report.passedCount ++ "/" ++ toString report.results.length ++
    " conformance vectors passed (" ++ toString report.expectedValidCount ++ " valid, " ++
    toString (report.results.length - report.expectedValidCount) ++ " invalid)"

theorem passed_iff : report.passed = true ↔ report.passedCount = report.results.length := by
  rw [passed, passedCount, List.all_eq_true, List.countP_eq_length]

/-- The subtraction counts the vectors that are to be rejected. -/
theorem length_sub_expectedValidCount :
    report.results.length - report.expectedValidCount =
      report.results.countP fun result => !result.expectedValid := by
  have hlength := List.length_eq_countP_add_countP VectorResult.expectedValid
    (l := report.results)
  simp only [Bool.not_eq_true, Bool.decide_eq_false] at hlength
  rw [expectedValidCount, hlength, Nat.add_sub_cancel_left]

/-- What is printed for a suite that passes. -/
theorem summary_of_passed (h : report.passed = true) :
    report.summary = toString report.results.length ++ "/" ++ toString report.results.length ++
      " conformance vectors passed (" ++ toString report.expectedValidCount ++ " valid, " ++
      toString (report.results.countP fun result => !result.expectedValid) ++ " invalid)" := by
  rw [summary, report.passed_iff.mp h, length_sub_expectedValidCount]

end ConformanceReport

/-! ## `ConformanceRunner::run` -/

/-- `SchemaCatalog::validate` of the runner's catalog. -/
abbrev CatalogValidate := Bytes → Json → Except Thrown ValidationResult

structure RunState where
  names : List Bytes
  results : List VectorResult

section

variable (env : Environment) (validate : CatalogValidate) (assets : List EmbeddedAsset)

/-- A vector is read and judged. -/
def judge (name : Bytes) (expectedValid : Bool) (schemaPath instancePath : Bytes) :
    Except Thrown VectorResult := do
  let schemaName ← safeRelativePath schemaPath (ascii "schemas/")
  let instanceName ← safeRelativePath instancePath (ascii "conformance/")
  match conformance assets instanceName with
  | none =>
    conformanceError ("embedded conformance vector is missing: " ++ text instancePath)
  | some instanceBytes => do
    let instance_ ← env.parseStrictJson instanceBytes
    let validation ← validate schemaName instance_
    .ok ⟨name, expectedValid, validation.valid, (validation.issue.map (·.message)).getD ""⟩

/-- The body of the loop over the manifest. -/
def runEntry (state : RunState) (entry : Json) : Except Thrown RunState :=
  if ¬entry.isObject then conformanceError "conformance manifest entry must be an object"
  else do
    let name ← requiredString entry "name"
    if name ∈ state.names then
      conformanceError ("duplicate conformance vector name: " ++ text name)
    else do
      let schemaPath ← requiredString entry "schema"
      let instancePath ← requiredString entry "instance"
      match entry.member? "valid" with
      | some (.bool expectedValid) => do
        let result ← judge env validate assets name expectedValid schemaPath instancePath
        .ok ⟨name :: state.names, state.results ++ [result]⟩
      | _ => conformanceError "manifest field must be a boolean: valid"

/-- `ConformanceRunner::run`. -/
def run : Except Thrown ConformanceReport :=
  match conformance assets (ascii "manifest.json") with
  | none => conformanceError "embedded conformance manifest is missing"
  | some manifestBytes => do
    let manifest ← env.parseStrictJson manifestBytes
    if ¬manifest.isArray then conformanceError "embedded conformance manifest must be an array"
    else do
      let state ← manifest.elements.foldlM (runEntry env validate assets) ⟨[], []⟩
      .ok ⟨state.results⟩

end

/-- `ConformanceRunner{}.run()`. -/
def runSuite (env : Environment) (jsoncons : JsonSchemas) (assets : List EmbeddedAsset) :
    Except Thrown ConformanceReport := do
  let catalog ← SchemaCatalog.new env jsoncons assets
  run env (catalog.validate env) assets

/-! ## The paths that are read -/

/-- The loop without the proof that it ends. -/
theorem segmentLoop_eq (path rest : Bytes) :
    segmentLoop path rest =
      if first Ascii.slash rest = [] ∨ first Ascii.slash rest = ascii ".." then unsafePath path
      else ((rest? Ascii.slash rest).map (segmentLoop path)).getD (.ok ()) := by
  rw [segmentLoop]
  split_ifs with hbad
  · rfl
  · split
    · rename_i hnone
      rw [hnone, Option.map_none, Option.getD_none]
    · rename_i next hsome
      rw [hsome, Option.map_some, Option.getD_some]

/-- The segment is that of an entry, or `.`. -/
def SafeSegment (segment : Bytes) : Prop := segment ≠ [] ∧ segment ≠ ascii ".."

theorem segmentLoop_eq_ok {path rest : Bytes} {u : Unit} :
    segmentLoop path rest = .ok u ↔ ∀ segment ∈ rest.splitOn Ascii.slash, SafeSegment segment := by
  induction rest using Segments.induct with
  | step rest ih =>
    rw [segmentLoop_eq, Segments.splitOn_eq, List.forall_mem_cons, unsafePath, conformanceError,
      Except.ite_error_eq_ok, SafeSegment, not_or]
    apply and_congr_right
    intro _
    cases hnext : rest? Ascii.slash rest with
    | none => simp
    | some next =>
      rw [Option.map_some, Option.getD_some, Option.map_some, Option.getD_some]
      exact ih next hnext

/-- The path leads from the directory by safe segments. -/
structure SafePath (path directory relative : Bytes) : Prop where
  path : path = directory ++ relative
  backslash : Ascii.backslash ∉ relative
  segments : ∀ segment ∈ relative.splitOn Ascii.slash, SafeSegment segment

theorem safeRelativePath_eq_ok {path directory relative : Bytes} :
    safeRelativePath path directory = .ok relative ↔ SafePath path directory relative := by
  unfold safeRelativePath
  simp only [conformanceError, unsafePath, Except.ite_error_eq_ok, Except.bind_eq_ok,
    segmentLoop_eq_ok, Except.ok.injEq, not_not, not_or]
  constructor
  · rintro ⟨⟨rest, rfl⟩, ⟨_, _, hbackslash⟩, _, hsegments, rfl⟩
    rw [List.drop_left] at hbackslash hsegments ⊢
    exact ⟨rfl, hbackslash, hsegments⟩
  · rintro ⟨rfl, hbackslash, hsegments⟩
    rw [List.drop_left]
    refine ⟨List.prefix_append _ _, ⟨?_, ?_, hbackslash⟩, (), hsegments, rfl⟩
    · rintro rfl
      exact (hsegments [] (by simp)).1 rfl
    · intro hhead
      obtain ⟨rest, rfl⟩ := List.head?_eq_some_iff.mp hhead
      rw [List.splitOn_cons_eq_if_modifyHead, if_pos (by simp)] at hsegments
      exact (hsegments [] List.mem_cons_self).1 rfl

/-- A path that is read leads to an entry below its directory. -/
theorem SafePath.resolve {path name relative : Bytes} (hname : Ascii.slash ∉ name)
    (hstays : Bundle.stays name = false) (hup : name ≠ ascii "..")
    (h : SafePath path (name ++ [Ascii.slash]) relative) :
    Bundle.resolvePath path =
      some (name ::
        (relative.splitOn Ascii.slash).filter fun segment => !Bundle.stays segment) := by
  have hsplit : path.splitOn Ascii.slash = name :: relative.splitOn Ascii.slash := by
    rw [h.path, List.append_assoc]
    exact List.splitOn_append_cons_self_of_not_mem hname relative
  have hmem : ascii ".." ∉ path.splitOn Ascii.slash := by
    rw [hsplit, List.mem_cons, not_or]
    exact ⟨hup.symm, fun hmem => (h.segments _ hmem).2 rfl⟩
  rw [Bundle.resolvePath, Segments.resolve_eq hmem, List.nil_append, hsplit,
    List.filter_cons_of_pos (by simp [hstays])]

/-! ## What a report says -/

section

variable {env : Environment} {validate : CatalogValidate} {assets : List EmbeddedAsset}

theorem requiredString_eq_ok {object : Json} {key : String} {text : Bytes} :
    requiredString object key = .ok text ↔ TextMember object key text := by
  rw [requiredString, TextMember, ← Option.bind_eq_some_iff]
  cases (object.member? key).bind Json.asString? with
  | none => simp [conformanceError]
  | some t => simp

/-- The vector that an entry of the manifest describes, and the verdict on it. -/
structure Judged (env : Environment) (validate : CatalogValidate) (assets : List EmbeddedAsset)
    (entry : Json) (result : VectorResult) : Prop where
  object : entry.isObject = true
  name : TextMember entry "name" result.name
  valid : entry.member? "valid" = some (.bool result.expectedValid)
  verdict : ∃ schemaPath schemaName instancePath instanceName instance_ validation,
    TextMember entry "schema" schemaPath ∧ SafePath schemaPath (ascii "schemas/") schemaName ∧
    TextMember entry "instance" instancePath ∧
    SafePath instancePath (ascii "conformance/") instanceName ∧
    Bundle.DocumentAt assets instancePath instance_ ∧
    validate schemaName instance_ = .ok validation ∧ result.actualValid = validation.valid ∧
    result.error = (validation.issue.map (·.message)).getD ""

/-- A file below `conformance/` is that of the whole path. -/
theorem conformance_eq {path instanceName : Bytes}
    (h : SafePath path (ascii "conformance/") instanceName) :
    conformance assets instanceName = (Bundle.findAsset assets path).map EmbeddedAsset.bytes := by
  rw [conformance, Bundle.assetBelow, h.path]

theorem judge_eq_ok (hparse : DecodesJson env.jsonParse) {name schemaPath instancePath : Bytes}
    {expectedValid : Bool} {result : VectorResult} :
    judge env validate assets name expectedValid schemaPath instancePath = .ok result ↔
      ∃ schemaName instanceName instance_ validation,
        SafePath schemaPath (ascii "schemas/") schemaName ∧
        SafePath instancePath (ascii "conformance/") instanceName ∧
        Bundle.DocumentAt assets instancePath instance_ ∧
        validate schemaName instance_ = .ok validation ∧
        result = ⟨name, expectedValid, validation.valid,
          (validation.issue.map (·.message)).getD ""⟩ := by
  simp only [judge, Except.bind_eq_ok, safeRelativePath_eq_ok]
  constructor
  · rintro ⟨schemaName, hschema, instanceName, hinstance, h⟩
    rw [conformance_eq hinstance] at h
    cases hasset : Bundle.findAsset assets instancePath with
    | none =>
      rw [hasset] at h
      cases h
    | some asset =>
      simp only [hasset, Option.map_some, Except.bind_eq_ok, Environment.parseStrictJson,
        parseStrictJson_eq_ok hparse, Except.ok.injEq] at h
      obtain ⟨instance_, hdocument, validation, hvalidation, rfl⟩ := h
      exact ⟨schemaName, instanceName, instance_, validation, hschema, hinstance,
        ⟨asset, hasset, hdocument⟩, hvalidation, rfl⟩
  · rintro ⟨schemaName, instanceName, instance_, validation, hschema, hinstance,
      ⟨asset, hasset, hdocument⟩, hvalidation, rfl⟩
    refine ⟨schemaName, hschema, instanceName, hinstance, ?_⟩
    rw [conformance_eq hinstance, hasset]
    simp only [Option.map_some, Except.bind_eq_ok, Environment.parseStrictJson,
      parseStrictJson_eq_ok hparse, Except.ok.injEq]
    exact ⟨instance_, hdocument, validation, hvalidation, rfl⟩

/-- What the loop does with a result. -/
def RunState.enter (state : RunState) (result : VectorResult) : Except Unit RunState :=
  if result.name ∈ state.names then .error ()
  else .ok ⟨result.name :: state.names, state.results ++ [result]⟩

theorem runEntry_eq_ok (hparse : DecodesJson env.jsonParse) {state state' : RunState}
    {entry : Json} :
    runEntry env validate assets state entry = .ok state' ↔
      ∃ result, Judged env validate assets entry result ∧ state.enter result = .ok state' := by
  simp only [runEntry, conformanceError, Except.ite_error_eq_ok, Except.bind_eq_ok,
    requiredString_eq_ok, not_not, RunState.enter]
  constructor
  · rintro ⟨hobject, name, hname, hfresh, schemaPath, hschemaPath, instancePath, hinstancePath, h⟩
    split at h
    · rename_i expectedValid hvalid
      simp only [Except.bind_eq_ok, judge_eq_ok hparse, Except.ok.injEq] at h
      obtain ⟨_, ⟨schemaName, instanceName, instance_, validation, hschema, hinstance, hdocument,
        hvalidation, rfl⟩, rfl⟩ := h
      exact ⟨⟨name, expectedValid, _, _⟩, ⟨hobject, hname, hvalid, schemaPath, schemaName,
        instancePath, instanceName, instance_, validation, hschemaPath, hschema, hinstancePath,
        hinstance, hdocument, hvalidation, rfl, rfl⟩, hfresh, rfl⟩
    · cases h
  · rintro ⟨result, hjudged, hfresh, h⟩
    obtain ⟨schemaPath, schemaName, instancePath, instanceName, instance_, validation, hschemaPath,
      hschema, hinstancePath, hinstance, hdocument, hvalidation, hactual, herror⟩ :=
      hjudged.verdict
    refine ⟨hjudged.object, result.name, hjudged.name, hfresh, schemaPath, hschemaPath,
      instancePath, hinstancePath, ?_⟩
    rw [hjudged.valid]
    simp only [Except.bind_eq_ok, judge_eq_ok hparse]
    refine ⟨result, ⟨schemaName, instanceName, instance_, validation, hschema, hinstance,
      hdocument, hvalidation, ?_⟩, ?_⟩
    · rw [← hactual, ← herror]
    · rw [← Except.ok.inj h]

theorem loopStep_enter : Except.LoopStep RunState.enter
    (fun done state => state.results = done ∧ ∀ name, name ∈ state.names ↔
      name ∈ done.map VectorResult.name)
    (fun done => (done.map VectorResult.name).Nodup) where
  shorter done result h := by
    rw [List.map_append, List.nodup_append] at h
    exact h.1
  accepts done state result hinv hgood := by
    have hfresh : result.name ∉ state.names := by
      rw [hinv.2]
      rw [List.map_append, List.nodup_append] at hgood
      exact fun hmem => hgood.2.2 _ hmem _ List.mem_cons_self rfl
    exact ⟨_, by rw [RunState.enter, if_neg hfresh]⟩
  keeps done state result state' hinv hgood hstep := by
    rw [RunState.enter, Except.ite_error_eq_ok, hinv.2] at hstep
    obtain ⟨hfresh, hstep⟩ := hstep
    rw [← Except.ok.inj hstep]
    refine ⟨?_, by rw [hinv.1], ?_⟩
    · rw [List.map_append, List.map_singleton]
      exact hgood.append (List.nodup_singleton _) (by simpa using hfresh)
    · intro name
      rw [List.map_append, List.mem_append, List.mem_cons, hinv.2, List.map_singleton,
        List.mem_singleton, or_comm]

/-- A report has one result for each entry of the manifest, in its order and
under distinct names: the verdict of the catalog on the file that the entry
names, beside the verdict that the entry expects. -/
theorem run_eq_ok (hparse : DecodesJson env.jsonParse) {report : ConformanceReport} :
    run env validate assets = .ok report ↔
      ∃ entries, Bundle.DocumentAt assets (ascii "conformance/manifest.json") (.array entries) ∧
        List.Forall₂ (Judged env validate assets) entries report.results ∧
        (report.results.map VectorResult.name).Nodup := by
  have hpath : ascii "conformance/" ++ ascii "manifest.json" =
      ascii "conformance/manifest.json" := by decide
  have hread : ∀ state entry state', runEntry env validate assets state entry = .ok state' ↔
      ∃ result, Judged env validate assets entry result ∧ state.enter result = .ok state' :=
    fun _ _ _ => runEntry_eq_ok hparse
  have hempty : (⟨[], []⟩ : RunState).results = [] ∧ ∀ name, name ∈ (⟨[], []⟩ : RunState).names ↔
      name ∈ ([] : List VectorResult).map VectorResult.name := by simp
  unfold run conformance Bundle.assetBelow
  rw [hpath]
  cases hasset : Bundle.findAsset assets (ascii "conformance/manifest.json") with
  | none => simp [conformanceError, Bundle.DocumentAt, hasset]
  | some asset =>
    simp only [Option.map_some, Except.bind_eq_ok, Environment.parseStrictJson,
      parseStrictJson_eq_ok hparse, conformanceError, Except.ite_error_eq_ok, not_not,
      Except.foldlM_eq_ok_of_read hread, Except.ok.injEq, Bundle.DocumentAt, hasset,
      Option.some.injEq, exists_eq_left']
    constructor
    · rintro ⟨manifest, hdocument, harray, state, ⟨results, hjudged, hrun⟩, rfl⟩
      obtain ⟨hnodup, hresults, _⟩ := loopStep_enter.run hempty List.nodup_nil hrun
      rw [Bundle.eq_array_of_isArray harray] at hdocument
      simp only [List.nil_append] at hresults hnodup
      rw [hresults]
      exact ⟨_, hdocument, hjudged, hnodup⟩
    · rintro ⟨entries, hdocument, hjudged, hnodup⟩
      have hexists : ∃ state, report.results.foldlM RunState.enter ⟨[], []⟩ = .ok state :=
        loopStep_enter.exists_run hempty hnodup
      obtain ⟨state, hrun⟩ := hexists
      obtain ⟨_, hresults, _⟩ := loopStep_enter.run hempty List.nodup_nil hrun
      refine ⟨_, hdocument, rfl, state, ⟨report.results, hjudged, hrun⟩, ?_⟩
      rw [hresults, List.nil_append]

end

/-! ## The files that are read -/

section

variable {env : Environment} {validate : CatalogValidate} {assets assets' : List EmbeddedAsset}

/-- The verdict on a vector is a matter of the file that it names. -/
theorem judge_congr {name schemaPath instancePath : Bytes} {expectedValid : Bool}
    (h : ∀ instanceName, SafePath instancePath (ascii "conformance/") instanceName →
      Bundle.findAsset assets instancePath = Bundle.findAsset assets' instancePath) :
    judge env validate assets name expectedValid schemaPath instancePath =
      judge env validate assets' name expectedValid schemaPath instancePath := by
  unfold judge
  cases safeRelativePath schemaPath (ascii "schemas/") with
  | error thrown => rfl
  | ok schemaName =>
    cases hinstance : safeRelativePath instancePath (ascii "conformance/") with
    | error thrown => rfl
    | ok instanceName =>
      have hsafe := safeRelativePath_eq_ok.mp hinstance
      simp only [Except.ok_bind, conformance_eq hsafe, h instanceName hsafe]

/-- The tables have the same file for the entry. -/
def SameVector (assets assets' : List EmbeddedAsset) (entry : Json) : Prop :=
  ∀ path instanceName, TextMember entry "instance" path →
    SafePath path (ascii "conformance/") instanceName →
      Bundle.findAsset assets path = Bundle.findAsset assets' path

theorem runEntry_congr {entry : Json} {state : RunState} (h : SameVector assets assets' entry) :
    runEntry env validate assets state entry = runEntry env validate assets' state entry := by
  unfold runEntry
  split_ifs
  · cases requiredString entry "name" with
    | error thrown => rfl
    | ok name =>
      simp only [Except.ok_bind]
      split_ifs
      · rfl
      · cases requiredString entry "schema" with
        | error thrown => rfl
        | ok schemaPath =>
          cases hpath : requiredString entry "instance" with
          | error thrown => rfl
          | ok instancePath =>
            have hjudge {name : Bytes} {expectedValid : Bool} :
                judge env validate assets name expectedValid schemaPath instancePath =
                  judge env validate assets' name expectedValid schemaPath instancePath :=
              judge_congr fun _ => h _ _ (requiredString_eq_ok.mp hpath)
            simp only [Except.ok_bind, hjudge]
  · rfl

/-- Tables with the same manifest and the same files for its entries. -/
structure SameVectors (assets assets' : List EmbeddedAsset) : Prop where
  manifest : Bundle.findAsset assets (ascii "conformance/manifest.json") =
    Bundle.findAsset assets' (ascii "conformance/manifest.json")
  vectors : ∀ entries, Bundle.DocumentAt assets (ascii "conformance/manifest.json")
    (.array entries) → ∀ entry ∈ entries, SameVector assets assets' entry

/-- The run on such tables is the same, whether it returns or throws. -/
theorem run_congr (hparse : DecodesJson env.jsonParse) (h : SameVectors assets assets') :
    run env validate assets = run env validate assets' := by
  have hmanifest : conformance assets (ascii "manifest.json") =
      conformance assets' (ascii "manifest.json") :=
    congrArg (Option.map EmbeddedAsset.bytes) h.manifest
  unfold run
  rw [← hmanifest]
  cases hbytes : conformance assets (ascii "manifest.json") with
  | none => rfl
  | some manifestBytes =>
    cases hparsed : env.parseStrictJson manifestBytes with
    | error thrown => simp only [hparsed, Except.error_bind]
    | ok manifest =>
      simp only [hparsed, Except.ok_bind]
      split_ifs with harray
      · congr 1
        apply Except.foldlM_congr
        intro entry hentry state
        have hdocument : Bundle.DocumentAt assets (ascii "conformance/manifest.json")
            (.array manifest.elements) := by
          obtain ⟨asset, hasset, rfl⟩ := Option.map_eq_some_iff.mp hbytes
          rw [← Bundle.eq_array_of_isArray harray]
          exact ⟨asset, hasset, (parseStrictJson_eq_ok hparse).mp hparsed⟩
        exact runEntry_congr (h.vectors _ hdocument entry hentry)
      · rfl

/-- The tables have the same files below `conformance/`, whatever a path to them
looks like. -/
def SameBelow (assets assets' : List EmbeddedAsset) : Prop :=
  ∀ path rest, Bundle.resolvePath path = some (ascii "conformance" :: rest) →
    Bundle.findAsset assets path = Bundle.findAsset assets' path

theorem SameBelow.vectors (h : SameBelow assets assets') : SameVectors assets assets' where
  manifest := h _ [ascii "manifest.json"] (by decide)
  vectors _ _ _ _ path _ _ hsafe :=
    h path _ (@SafePath.resolve _ (ascii "conformance") _ (by decide) (by decide) (by decide) hsafe)

/-- When there is a report and what it says; and whatever the manifest says, and
whether the run returns or throws, it is a matter of the files below
`conformance/`. -/
theorem run_exact (hparse : DecodesJson env.jsonParse) :
    (∀ report, run env validate assets = .ok report ↔
      ∃ entries, Bundle.DocumentAt assets (ascii "conformance/manifest.json") (.array entries) ∧
        List.Forall₂ (Judged env validate assets) entries report.results ∧
        (report.results.map VectorResult.name).Nodup) ∧
    ∀ assets', SameBelow assets assets' →
      run env validate assets = run env validate assets' :=
  ⟨fun _ => run_eq_ok hparse, fun _ h => run_congr hparse h.vectors⟩

/-- A suite of one vector. -/
def vectorAssets : List EmbeddedAsset := [
  ⟨ascii "conformance/a.json", ascii "0"⟩,
  ⟨ascii "conformance/manifest.json",
    ascii "[\x7b\"instance\":\"conformance/a.json\",\"name\":\"n\"," ++
      ascii "\"schema\":\"schemas/s.json\",\"valid\":true\x7d]"⟩]

/-- The suite with a file in another directory. -/
def besideAssets : List EmbeddedAsset := ⟨ascii "a.json", ascii "1"⟩ :: vectorAssets

theorem increasing_besideAssets : Bundle.Increasing besideAssets := by
  unfold Bundle.Increasing
  decide

theorem increasing_vectorAssets : Bundle.Increasing vectorAssets :=
  increasing_besideAssets.sublist ((List.sublist_cons_self _ _).map _)

/-- No path to the other file leads below `conformance/`. -/
theorem sameBelow_besideAssets : SameBelow vectorAssets besideAssets := by
  intro path rest hpath
  refine Option.ext fun asset => ?_
  constructor
  · intro hasset
    obtain ⟨hmem, rfl⟩ := Bundle.of_findAsset hasset
    exact Bundle.findAsset_of_mem increasing_besideAssets (List.mem_cons_of_mem _ hmem)
  · intro hasset
    obtain ⟨hmem, rfl⟩ := Bundle.of_findAsset hasset
    rcases List.mem_cons.mp hmem with rfl | hmem
    · have hroot : Bundle.resolvePath (ascii "a.json") = some [ascii "a.json"] := by decide
      rw [hroot, Option.some.injEq, List.cons.injEq] at hpath
      exact absurd hpath.1 (by decide)
    · exact Bundle.findAsset_of_mem increasing_vectorAssets hmem

/-- It is checked in both tables. -/
theorem run_exact_sample :
    run Environment.reference (fun _ _ => .ok ⟨true, none⟩) vectorAssets =
        .ok ⟨[⟨ascii "n", true, true, ""⟩]⟩ ∧
      run Environment.reference (fun _ _ => .ok ⟨true, none⟩) besideAssets =
        .ok ⟨[⟨ascii "n", true, true, ""⟩]⟩ := by
  obtain ⟨hreports, hreads⟩ := @run_exact Environment.reference (fun _ _ => .ok ⟨true, none⟩)
    vectorAssets decodesJson_referenceParse
  let entry : Json := .object [(ascii "instance", .string (ascii "conformance/a.json")),
    (ascii "name", .string (ascii "n")), (ascii "schema", .string (ascii "schemas/s.json")),
    (ascii "valid", .bool true)]
  have hinstanceAsset : Bundle.findAsset vectorAssets (ascii "conformance/a.json") =
      some ⟨ascii "conformance/a.json", ascii "0"⟩ :=
    Bundle.findAsset_of_mem increasing_vectorAssets List.mem_cons_self
  have hmanifestAsset := Bundle.findAsset_of_mem increasing_vectorAssets
    (List.mem_cons_of_mem _ List.mem_cons_self)
  have hmanifest : Bundle.DocumentAt vectorAssets (ascii "conformance/manifest.json")
      (.array [entry]) := ⟨_, hmanifestAsset, Decoder.decode_sound (by decide +kernel)⟩
  have hinstance : Bundle.DocumentAt vectorAssets (ascii "conformance/a.json") (.uint64 0) :=
    ⟨_, hinstanceAsset, Decoder.decode_sound (by decide +kernel)⟩
  have hrun : run Environment.reference (fun _ _ => .ok ⟨true, none⟩) vectorAssets =
      .ok ⟨[⟨ascii "n", true, true, ""⟩]⟩ := by
    refine (hreports _).mpr ⟨[entry], hmanifest, .cons ?_ .nil, by simp⟩
    refine ⟨rfl, ⟨_, rfl, rfl⟩, rfl, _, ascii "s.json", _, ascii "a.json", _, ⟨true, none⟩,
      ⟨_, rfl, rfl⟩, ⟨by decide, by decide, ?_⟩, ⟨_, rfl, rfl⟩, ⟨by decide, by decide, ?_⟩,
      hinstance, rfl, rfl, rfl⟩
    · unfold SafeSegment
      decide
    · unfold SafeSegment
      decide
  exact ⟨hrun, hreads _ sameBelow_besideAssets ▸ hrun⟩

end

/-! ## One suite for all tables -/

section

variable {env : Environment} {jsoncons : JsonSchemas} {assets assets' : List EmbeddedAsset}

/-- Every vector of the manifest is a JSON file. -/
def JsonVectors (assets : List EmbeddedAsset) : Prop :=
  ∀ entries, Bundle.DocumentAt assets (ascii "conformance/manifest.json") (.array entries) →
    ∀ entry ∈ entries, ∀ path, TextMember entry "instance" path → ascii ".json" <:+ path

/-- Tables with the same tree have the same JSON vectors. -/
theorem sameVectors_of_trees (h : Bundle.Increasing assets) (h' : Bundle.Increasing assets')
    (hjson : JsonVectors assets)
    (htree : Bundle.jsonAssets assets (ascii "conformance/") =
      Bundle.jsonAssets assets' (ascii "conformance/")) : SameVectors assets assets' where
  manifest := Bundle.findAsset_congr h h' htree ⟨_, rfl⟩ (by decide)
  vectors entries hdocument entry hentry path _ hpath hsafe :=
    Bundle.findAsset_congr h h' htree ⟨_, hsafe.path.symm⟩
      (hjson entries hdocument entry hentry path hpath)

/-- The pin settles the conformance suite: two tables that pass `verify` have the
same files in the two trees and give the same report, whatever else they hold,
unless the streams of the two trees below one directory collide. -/
theorem runSuite_agree (hparse : DecodesJson env.jsonParse)
    {summary summary' : Bundle.BundleSummary}
    (h : Bundle.Increasing assets) (h' : Bundle.Increasing assets') (hjson : JsonVectors assets)
    (hfree : Bundle.NulFree (Bundle.jsonAssets assets (ascii "schemas/")))
    (hfree' : Bundle.NulFree (Bundle.jsonAssets assets (ascii "conformance/")))
    (hverify : Bundle.verify env assets = .ok summary)
    (hverify' : Bundle.verify env assets' = .ok summary') :
    (Bundle.jsonAssets assets (ascii "schemas/") = Bundle.jsonAssets assets' (ascii "schemas/") ∧
      Bundle.jsonAssets assets (ascii "conformance/") =
        Bundle.jsonAssets assets' (ascii "conformance/") ∧
      runSuite env jsoncons assets = runSuite env jsoncons assets') ∨
    (∃ directory ∈ ["schemas/", "conformance/"],
      Collide env.evpDigest (Bundle.treeInput (Bundle.jsonAssets assets (ascii directory)))
        (Bundle.treeInput (Bundle.jsonAssets assets' (ascii directory)))) := by
  obtain ⟨hschemas | hcollide, hconformance | hcollide⟩ :=
    Bundle.verified_trees_agree hparse hfree hfree' hverify hverify'
  · left
    refine ⟨hschemas, hconformance, ?_⟩
    unfold runSuite
    rw [SchemaCatalog.new_congr h h' hschemas]
    congr 1
    funext catalog
    exact run_congr hparse (sameVectors_of_trees h h' hjson hconformance)
  · exact .inr ⟨_, by simp, hcollide⟩
  · exact .inr ⟨_, by simp, hcollide⟩
  · exact .inr ⟨_, by simp, hcollide⟩

/-! ## The suite of the sample table -/

/-- A validator that knows one keyword, `type` with the value `object`. -/
def objectSchemas : JsonSchemas where
  CompiledSchema := Json
  makeJsonSchema document _ _ := .ok document
  walk _ _ := []
  messages schema instance_ :=
    if schema.member? "type" = some (.string (ascii "object")) ∧ ¬instance_.isObject then
      [⟨"type", "", "#/type", "Expected object, found uint64"⟩]
    else []

def schemaEntry (i : Nat) : SchemaDocument where
  name := Bundle.sampleName i ++ ascii ".json"
  document := Bundle.sampleSchemaDocument i
  id := ascii "urn:" ++ Bundle.sampleName i

theorem readsSchemas_sample :
    ReadsSchemas Bundle.sampleEnvironment Bundle.sampleAssets
      ((List.range 22).map schemaEntry) where
  reads := by
    have hnames : Bundle.schemaNames Bundle.sampleAssets =
        (List.range 22).map fun i => Bundle.sampleName i ++ ascii ".json" := by
      rw [Bundle.schemaNames, (Bundle.sampleChecks.trees _ List.mem_cons_self).1,
        Bundle.sampleSchemas, List.map_map]
      exact List.map_congr_left fun i _ => List.drop_left
    rw [hnames, List.forall₂_map_left_iff, List.forall₂_map_right_iff, List.forall₂_same]
    intro i hi
    have hmem : Bundle.sampleSchema i ∈ Bundle.sampleAssets :=
      List.mem_append_right _ (List.mem_map_of_mem hi)
    refine ⟨rfl, (Bundle.sampleSchema i).bytes, Bundle.sampleSchemaDocument i, ?_, ?_,
      ⟨_, rfl, rfl⟩, ?_⟩
    · exact congrArg (Option.map EmbeddedAsset.bytes)
        (Bundle.findAsset_of_mem Bundle.increasing_sampleAssets hmem)
    · exact (parseStrictJson_eq_ok decodesJson_referenceParse).mpr
        (Decoder.decode_sound (Bundle.sampleChecks.schemaDocuments i (List.mem_range.mp hi)))
    · have hlength : (Bundle.sampleName i ++ ascii ".json").length ≠
          (ascii "common.schema.json").length := by
        rw [List.length_append, Bundle.sampleName, List.length_cons, List.length_cons,
          List.length_nil]
        decide
      rw [annotated, if_neg fun heq => hlength (congrArg List.length heq)]
      rfl
  distinct := by
    rw [List.map_map]
    apply List.Nodup.map_on _ List.nodup_range
    intro i hi j hj heq
    have hi := List.mem_range.mp hi
    have hj := List.mem_range.mp hj
    exact Bundle.sampleName_inj (by omega) (by omega) (List.append_cancel_left heq)

theorem documentAt_vectors : Bundle.DocumentAt Bundle.sampleAssets
    (ascii "conformance/manifest.json") (.array [Bundle.sampleVector]) :=
  Bundle.documentAt_sample Bundle.increasing_sampleAssets Bundle.vectorsFile
    (by simp [Bundle.sampleAssets, Bundle.sampleConformance])

theorem jsonVectors_sample : JsonVectors Bundle.sampleAssets := by
  intro entries hentries entry hentry path hpath
  obtain ⟨asset, hasset, htext, hdepth⟩ := hentries
  obtain ⟨asset', hasset', htext', hdepth'⟩ := documentAt_vectors
  rw [hasset, Option.some.injEq] at hasset'
  rw [← hasset'] at htext'
  rw [Json.array.inj (htext.eq htext' hdepth hdepth'), List.mem_singleton] at hentry
  rw [hentry] at hpath
  have hinstance : TextMember Bundle.sampleVector "instance" (ascii "conformance/aa.json") :=
    ⟨_, rfl, rfl⟩
  rw [hpath.unique hinstance]
  decide

/-- The report on the vector. -/
def vectorReport : ConformanceReport :=
  ⟨[⟨ascii "number", false, false, "Expected object, found uint64"⟩]⟩

theorem runSuite_sample :
    runSuite Bundle.sampleEnvironment objectSchemas Bundle.sampleAssets = .ok vectorReport := by
  obtain ⟨hcatalog, hbuilt⟩ :=
    SchemaCatalog.new_spec Bundle.sampleEnvironment objectSchemas Bundle.sampleAssets
  obtain ⟨catalog, hnew⟩ :=
    hbuilt.mpr ⟨_, readsSchemas_sample, fun entry _ => ⟨entry.document, rfl⟩⟩
  obtain ⟨entries, hreads, hcompiled⟩ := hcatalog catalog hnew
  rw [hreads.unique readsSchemas_sample] at hcompiled
  have hschema : catalog.compiled[ascii "aa.json"]? = some (Bundle.sampleSchemaDocument 0) :=
    (hcompiled _ _).mpr ⟨schemaEntry 0, List.mem_map_of_mem (by simp), rfl, rfl⟩
  have hvalidate : catalog.validate Bundle.sampleEnvironment (ascii "aa.json") (.uint64 0) =
      .ok ⟨false, some ⟨"type", "", "#/type", "Expected object, found uint64"⟩⟩ :=
    SchemaCatalog.validate_eq_ok.mpr ⟨_, hschema, .inr ⟨by simp [IdentifiersAreUris, objectSchemas],
      rfl⟩⟩
  have hmem : Bundle.sampleInstance 0 ∈ Bundle.sampleAssets := by
    simp only [Bundle.sampleAssets, Bundle.sampleConformance, List.mem_append]
    exact .inl (.inl (.inl (.inr (.inl (List.mem_map_of_mem (by simp))))))
  have hinstance : Bundle.DocumentAt Bundle.sampleAssets (ascii "conformance/aa.json")
      (.uint64 0) := ⟨_, Bundle.findAsset_of_mem Bundle.increasing_sampleAssets hmem,
        Decoder.decode_sound Bundle.sampleChecks.instances⟩
  refine Except.bind_eq_ok.mpr ⟨catalog, hnew, (run_eq_ok decodesJson_referenceParse).mpr
    ⟨_, documentAt_vectors, .cons ⟨rfl, ⟨_, rfl, rfl⟩, rfl, ?_⟩ .nil, by simp [vectorReport]⟩⟩
  refine ⟨_, ascii "aa.json", _, ascii "aa.json", _, _, ⟨_, rfl, rfl⟩, ⟨by decide, by decide, ?_⟩,
    ⟨_, rfl, rfl⟩, ⟨by decide, by decide, ?_⟩, hinstance, hvalidate, rfl, rfl⟩
  · unfold SafeSegment
    decide
  · unfold SafeSegment
    decide

/-- The wider table gives the report as well: the trees of the two are the same,
and so no streams of them collide. -/
theorem runSuite_agree_sample :
    runSuite Bundle.sampleEnvironment objectSchemas Bundle.sampleAssets = .ok vectorReport ∧
      runSuite Bundle.sampleEnvironment objectSchemas Bundle.widerAssets = .ok vectorReport := by
  have htrees := Bundle.sampleChecks.trees Bundle.sampleAssets List.mem_cons_self
  have hwider := Bundle.sampleChecks.trees Bundle.widerAssets (by simp)
  refine ⟨runSuite_sample, ?_⟩
  rcases @runSuite_agree Bundle.sampleEnvironment objectSchemas Bundle.sampleAssets
    Bundle.widerAssets decodesJson_referenceParse _ _ Bundle.increasing_sampleAssets
    Bundle.increasing_widerAssets jsonVectors_sample
    (htrees.1 ▸ Bundle.sampleChecks.nulFree _ (by simp))
    (htrees.2 ▸ Bundle.sampleChecks.nulFree _ (by simp))
    (Bundle.verify_sample Bundle.increasing_sampleAssets (by simp) (List.Subset.refl _))
    (Bundle.verify_sample Bundle.increasing_widerAssets (by simp) (List.subset_append_left _ _))
    with ⟨_, _, hreports⟩ | ⟨directory, hdirectory, hne, _⟩
  · exact hreports ▸ runSuite_sample
  · simp only [List.mem_cons, List.not_mem_nil, or_false] at hdirectory
    rcases hdirectory with rfl | rfl
    · rw [htrees.1, hwider.1] at hne
      exact absurd rfl hne
    · rw [htrees.2, hwider.2] at hne
      exact absurd rfl hne

end

end MissionWeave.Conformance
