import MissionWeave.Bundle.Verify
import MissionWeave.Environment
import MissionWeave.CodeLib.MapLoop

/-!
# The schema catalog

The constructor and `validate` of `SchemaCatalog::Impl`.  The schema compiler of
jsoncons is a parameter, `JsonSchemas`: it compiles a document, walks an instance
through the keywords that apply, and reports validation messages.  Both runs are
lists, of which the reporters of the source read as much as they want.

* `validate_eq_ok`: the verdict on an instance.
* `verdict_exact`: the catalog of a table, and its verdicts.
* `new_congr`: the catalog is a matter of the schemas in the table.
-/

namespace MissionWeave

open MissionWeave.Bundle (EmbeddedAsset schema schemaNames)

/-- A keyword that `walk` meets, with the value that it applies to. -/
structure SchemaVisit where
  keyword : String
  schemaLocation : String
  instance_ : Json
  instanceLocation : String

/-- What the catalog uses of jsoncons. -/
structure JsonSchemas where
  CompiledSchema : Type
  /-- `make_json_schema`, with the identifier and the resolver. -/
  makeJsonSchema : Json → Bytes → (Bytes → Json) → Except Thrown CompiledSchema
  walk : CompiledSchema → Json → List SchemaVisit
  messages : CompiledSchema → Json → List ValidationIssue

/-- A `SchemaError`. -/
def schemaError {α : Type} (what : String) : Except Thrown α := .error (.otherException what)

/-! ## `prevalidate_identifier_uris` -/

def identifierFormatLocation : String :=
  "https://missionweaveprotocol.dev/schemas/0.1/common.schema.json#/$defs/id/format"

def identifierValidatorFormat : String := "missionweaveprotocol-uri"

/-- The visits that the reporter looks at. -/
def SchemaVisit.isIdentifier (visit : SchemaVisit) : Bool :=
  visit.keyword == "format" && visit.schemaLocation == identifierFormatLocation &&
    visit.instance_.isString

def SchemaVisit.issue (visit : SchemaVisit) (value : Bytes) (fault : String) : ValidationIssue where
  keyword := visit.keyword
  instanceLocation := visit.instanceLocation
  schemaLocation := visit.schemaLocation
  message := "'" ++ text value ++ "': " ++ fault

/-- The reporter.  It aborts the walk with an issue. -/
def SchemaVisit.report (env : Environment) (visit : SchemaVisit) : Option ValidationIssue :=
  if ¬visit.isIdentifier then none
  else
    let value := visit.instance_.asString?.getD []
    if ¬Uri.hasValidPercentTriplets value then
      some (visit.issue value "Invalid percent-encoded octet")
    else if ¬env.isProtocolUri value then some (visit.issue value "Invalid URI")
    else none

/-- `prevalidate_identifier_uris`. -/
def prevalidateIdentifierUris (env : Environment) (visits : List SchemaVisit) :
    Option ValidationIssue :=
  visits.findSome? fun visit => visit.report env

/-! ## `SchemaCatalog` -/

variable (env : Environment) (jsoncons : JsonSchemas)

structure SchemaCatalog where
  compiled : Std.TreeMap Bytes jsoncons.CompiledSchema

structure CatalogDocuments where
  documents : Std.TreeMap Bytes Json
  documentsById : Std.TreeMap Bytes Json

/-- The identifier format of the common schema is replaced. -/
def annotateIdentifierFormat (document : Json) : Except Thrown Json := do
  let defs ← document.at' "$defs"
  let id ← defs.at' "id"
  let format ← id.at' "format"
  if format.asString? ≠ some (ascii "uri") then
    schemaError "embedded identifier Schema has an unexpected URI format"
  else
    .ok (document.set "$defs" (defs.set "id"
      (id.set "format" (.string (ascii identifierValidatorFormat)))))

/-- Only the common schema is changed. -/
def annotated (name : Bytes) (document : Json) : Except Thrown Json :=
  if name = ascii "common.schema.json" then annotateIdentifierFormat document else .ok document

/-- The body of the loop over the names. -/
def enterDocument (assets : List EmbeddedAsset) (state : CatalogDocuments) (name : Bytes) :
    Except Thrown CatalogDocuments :=
  match schema assets name with
  | none => schemaError ("embedded schema is missing: " ++ text name)
  | some bytes => do
    let document ← env.parseStrictJson bytes
    match (document.member? "$id").bind Json.asString? with
    | none => schemaError ("embedded schema has no string $id: " ++ text name)
    | some id => do
      let document ← annotated name document
      if state.documentsById.contains id then
        schemaError ("duplicate embedded schema $id: " ++ text id)
      else
        .ok ⟨state.documents.insertIfNew name document, state.documentsById.insert id document⟩

/-- The resolver of the references between schemas. -/
def CatalogDocuments.resolve (documents : CatalogDocuments) (base : Bytes) : Json :=
  documents.documentsById[base]?.getD .null

/-- The body of the loop over the documents. -/
def compileDocument (documents : CatalogDocuments)
    (compiled : Std.TreeMap Bytes jsoncons.CompiledSchema) (entry : Bytes × Json) :
    Except Thrown (Std.TreeMap Bytes jsoncons.CompiledSchema) := do
  let id := ((entry.2.member? "$id").bind Json.asString?).getD []
  let schema ← catchException (jsoncons.makeJsonSchema entry.2 id documents.resolve) fun what =>
    schemaError ("unable to compile " ++ text entry.1 ++ ": " ++ what)
  .ok (compiled.insertIfNew entry.1 schema)

/-- The constructor of the catalog. -/
def SchemaCatalog.new (assets : List EmbeddedAsset) : Except Thrown (SchemaCatalog jsoncons) := do
  let documents ← (schemaNames assets).foldlM (enterDocument env assets) ⟨∅, ∅⟩
  let compiled ← documents.documents.toList.foldlM (compileDocument jsoncons documents) ∅
  .ok ⟨compiled⟩

variable {jsoncons}

/-- `SchemaCatalog::validate`. -/
def SchemaCatalog.validate (catalog : SchemaCatalog jsoncons) (schemaName : Bytes)
    (instance_ : Json) : Except Thrown ValidationResult :=
  match catalog.compiled[schemaName]? with
  | none => schemaError ("unknown embedded schema: " ++ text schemaName)
  | some schema =>
    match prevalidateIdentifierUris env (jsoncons.walk schema instance_) with
    | some issue => .ok ⟨false, some issue⟩
    | none =>
      let issue := (jsoncons.messages schema instance_).head?
      .ok ⟨!issue.isSome, issue⟩

/-! ## The verdict -/

variable {env} {catalog : SchemaCatalog jsoncons} {schemaName : Bytes} {instance_ : Json}

/-- The visit is to an identifier that is no protocol URI, and the issue says
so. -/
structure SchemaVisit.Offends (env : Environment) (visit : SchemaVisit) (issue : ValidationIssue) :
    Prop where
  identifier : visit.isIdentifier = true
  value : ∃ value, visit.instance_.asString? = some value ∧ env.isProtocolUri value = false ∧
    issue = visit.issue value (if Uri.hasValidPercentTriplets value then "Invalid URI"
      else "Invalid percent-encoded octet")

theorem SchemaVisit.exists_value {visit : SchemaVisit} (h : visit.isIdentifier = true) :
    ∃ value, visit.instance_.asString? = some value := by
  simp only [isIdentifier, Bool.and_eq_true] at h
  obtain ⟨_, hstring⟩ := h
  cases hinstance : visit.instance_ with
  | string s => exact ⟨_, rfl⟩
  | bigint n => exact ⟨_, rfl⟩
  | _ =>
    rw [hinstance] at hstring
    cases hstring

theorem SchemaVisit.report_eq_some {visit : SchemaVisit} {issue : ValidationIssue} :
    visit.report env = some issue ↔ visit.Offends env issue := by
  unfold report
  by_cases hidentifier : visit.isIdentifier = true
  · obtain ⟨value, hvalue⟩ := SchemaVisit.exists_value hidentifier
    have hoffends : visit.Offends env issue ↔ env.isProtocolUri value = false ∧
        issue = visit.issue value (if Uri.hasValidPercentTriplets value then "Invalid URI"
          else "Invalid percent-encoded octet") := by
      constructor
      · rintro ⟨_, value', hvalue', h⟩
        rwa [Option.some.inj (hvalue'.symm.trans hvalue)] at h
      · exact fun h => ⟨hidentifier, value, hvalue, h⟩
    rw [hoffends]
    simp only [hidentifier, hvalue, not_true_eq_false, if_false, Option.getD_some]
    by_cases htriplets : Uri.hasValidPercentTriplets value = true
    · cases huri : env.isProtocolUri value with
      | false => simp [htriplets, eq_comm]
      | true => simp [htriplets]
    · have huri : env.isProtocolUri value = false := by
        unfold Environment.isProtocolUri Uri.isProtocolUri
        exact if_pos (.inr (.inr htriplets))
      simp [htriplets, huri, eq_comm]
  · simp only [hidentifier]
    constructor
    · intro h
      cases h
    · exact fun h => absurd h.identifier hidentifier

theorem SchemaVisit.report_eq_none {visit : SchemaVisit} :
    visit.report env = none ↔ (visit.isIdentifier = true →
      ∀ value, visit.instance_.asString? = some value → env.isProtocolUri value = true) := by
  rw [Option.eq_none_iff_forall_ne_some]
  simp only [ne_eq, SchemaVisit.report_eq_some]
  constructor
  · intro h hidentifier value hvalue
    by_contra huri
    exact h _ ⟨hidentifier, value, hvalue, Bool.eq_false_of_not_eq_true huri, rfl⟩
  · rintro h issue ⟨hidentifier, value, hvalue, huri, _⟩
    rw [h hidentifier value hvalue] at huri
    cases huri

/-- The identifiers that a walk meets are protocol URIs. -/
def IdentifiersAreUris (env : Environment) (visits : List SchemaVisit) : Prop :=
  ∀ visit ∈ visits, visit.isIdentifier = true →
    ∀ value, visit.instance_.asString? = some value → env.isProtocolUri value = true

/-- The issue is that of the first identifier of a walk that is no protocol
URI. -/
def FirstOffense (env : Environment) (visits : List SchemaVisit) (issue : ValidationIssue) : Prop :=
  ∃ before visit after, visits = before ++ visit :: after ∧ IdentifiersAreUris env before ∧
    visit.Offends env issue

theorem prevalidateIdentifierUris_eq_none {visits : List SchemaVisit} :
    prevalidateIdentifierUris env visits = none ↔ IdentifiersAreUris env visits := by
  simp only [prevalidateIdentifierUris, List.findSome?_eq_none_iff, SchemaVisit.report_eq_none,
    IdentifiersAreUris]

theorem prevalidateIdentifierUris_eq_some {visits : List SchemaVisit} {issue : ValidationIssue} :
    prevalidateIdentifierUris env visits = some issue ↔ FirstOffense env visits issue := by
  simp only [prevalidateIdentifierUris, List.findSome?_eq_some_iff, SchemaVisit.report_eq_some,
    SchemaVisit.report_eq_none, FirstOffense, IdentifiersAreUris]
  constructor
  · rintro ⟨before, visit, after, hvisits, hoffends, hbefore⟩
    exact ⟨before, visit, after, hvisits, hbefore, hoffends⟩
  · rintro ⟨before, visit, after, hvisits, hbefore, hoffends⟩
    exact ⟨before, visit, after, hvisits, hoffends, hbefore⟩

/-- The verdict of a compiled schema: an instance is valid if every identifier in
it is a protocol URI and jsoncons has no message.  An identifier that is none
comes first, and only an invalid instance has an issue. -/
def Verdict (env : Environment) (jsoncons : JsonSchemas) (schema : jsoncons.CompiledSchema)
    (instance_ : Json) (result : ValidationResult) : Prop :=
  (∃ issue, FirstOffense env (jsoncons.walk schema instance_) issue ∧
      result = ⟨false, some issue⟩) ∨
    IdentifiersAreUris env (jsoncons.walk schema instance_) ∧
      result = ⟨(jsoncons.messages schema instance_).isEmpty,
        (jsoncons.messages schema instance_).head?⟩

theorem SchemaCatalog.validate_eq_ok {result : ValidationResult} :
    catalog.validate env schemaName instance_ = .ok result ↔
      ∃ schema, catalog.compiled[schemaName]? = some schema ∧
        Verdict env jsoncons schema instance_ result := by
  unfold Verdict
  unfold validate
  cases hschema : catalog.compiled[schemaName]? with
  | none => simp [schemaError]
  | some schema =>
    simp only [Option.some.injEq, exists_eq_left']
    simp only [← prevalidateIdentifierUris_eq_none, ← prevalidateIdentifierUris_eq_some]
    cases hissue : prevalidateIdentifierUris env (jsoncons.walk schema instance_) with
    | some issue => simp [eq_comm]
    | none =>
      cases jsoncons.messages schema instance_ with
      | nil => simp [eq_comm]
      | cons issue issues => simp [eq_comm]

/-! ## The documents of the catalog -/

/-- A schema document with the name and the identifier that it is entered
under. -/
structure SchemaDocument where
  name : Bytes
  document : Json
  id : Bytes

/-- The document that the table has for a name. -/
structure ReadsSchema (env : Environment) (assets : List EmbeddedAsset) (name : Bytes)
    (entry : SchemaDocument) : Prop where
  names : entry.name = name
  document : ∃ bytes document, schema assets name = some bytes ∧
    env.parseStrictJson bytes = .ok document ∧ TextMember document "$id" entry.id ∧
      annotated name document = .ok entry.document

/-- What the loop does with a document that it has read. -/
def CatalogDocuments.enter (state : CatalogDocuments) (entry : SchemaDocument) :
    Except Unit CatalogDocuments :=
  if state.documentsById.contains entry.id then .error ()
  else .ok ⟨state.documents.insertIfNew entry.name entry.document,
    state.documentsById.insert entry.id entry.document⟩

variable {assets : List EmbeddedAsset}

theorem enterDocument_eq_ok {state state' : CatalogDocuments} {name : Bytes} :
    enterDocument env assets state name = .ok state' ↔
      ∃ entry, ReadsSchema env assets name entry ∧ state.enter entry = .ok state' := by
  unfold enterDocument
  cases hschema : schema assets name with
  | none =>
    simp only [schemaError, reduceCtorEq, false_iff, not_exists, not_and]
    intro entry h
    obtain ⟨bytes, _, hbytes, _⟩ := h.document
    rw [hschema] at hbytes
    cases hbytes
  | some bytes =>
    simp only [Except.bind_eq_ok]
    constructor
    · rintro ⟨document, hdocument, h⟩
      cases hid : (document.member? "$id").bind Json.asString? with
      | none =>
        rw [hid] at h
        cases h
      | some id =>
        simp only [hid, Except.bind_eq_ok, schemaError, Except.ite_error_eq_ok,
          Except.ok.injEq] at h
        obtain ⟨annotated, hannotated, hfresh, rfl⟩ := h
        refine ⟨⟨name, annotated, id⟩, ⟨rfl, bytes, document, hschema, hdocument,
          Option.bind_eq_some_iff.mp hid, hannotated⟩, ?_⟩
        rw [CatalogDocuments.enter, if_neg hfresh]
    · rintro ⟨entry, hread, hstate⟩
      obtain ⟨bytes', document, hbytes, hdocument, hid, hannotated⟩ := hread.document
      rw [hschema, Option.some.injEq] at hbytes
      rw [← hbytes] at hdocument
      refine ⟨document, hdocument, ?_⟩
      have hid : (document.member? "$id").bind Json.asString? = some entry.id :=
        Option.bind_eq_some_iff.mpr hid
      rw [CatalogDocuments.enter, Except.ite_error_eq_ok] at hstate
      simp only [hid, Except.bind_eq_ok, schemaError, Except.ite_error_eq_ok, Except.ok.injEq]
      refine ⟨entry.document, hannotated, hstate.1, ?_⟩
      rw [← Except.ok.inj hstate.2, hread.names]

/-- The entries of the two maps. -/
def byName (entry : SchemaDocument) : Bytes × Json := (entry.name, entry.document)

def byId (entry : SchemaDocument) : Bytes × Json := (entry.id, entry.document)

structure CatalogDocuments.Holds (entries : List SchemaDocument) (state : CatalogDocuments) :
    Prop where
  documents : MapLoop.Holds state.documents (entries.map byName)
  documentsById : MapLoop.Holds state.documentsById (entries.map byId)

theorem CatalogDocuments.Holds.contains_iff {entries : List SchemaDocument}
    {state : CatalogDocuments} (h : state.Holds entries) (id : Bytes) :
    state.documentsById.contains id = true ↔ id ∈ entries.map SchemaDocument.id := by
  rw [Std.TreeMap.contains_eq_isSome_getElem?, h.documentsById, Option.isSome_iff_ne_none, ne_eq,
    MapLoop.first_eq_none]
  simp [byId, eq_comm]

/-- The loop accepts the documents with distinct identifiers. -/
theorem loopStep_enter : Except.LoopStep CatalogDocuments.enter
    (fun done state => CatalogDocuments.Holds done state)
    (fun done => (done.map SchemaDocument.id).Nodup) where
  shorter done entry h := by
    rw [List.map_append, List.nodup_append] at h
    exact h.1
  accepts done state entry hinv hgood := by
    have hfresh : ¬state.documentsById.contains entry.id = true := by
      rw [hinv.contains_iff]
      rw [List.map_append, List.nodup_append] at hgood
      intro hmem
      exact hgood.2.2 _ hmem _ List.mem_cons_self rfl
    exact ⟨_, by rw [CatalogDocuments.enter, if_neg hfresh]⟩
  keeps done state entry state' hinv hgood hstep := by
    rw [CatalogDocuments.enter, Except.ite_error_eq_ok] at hstep
    obtain ⟨hfresh, hstep⟩ := hstep
    have hnot : entry.id ∉ state.documentsById := by
      rwa [← Std.TreeMap.contains_iff_mem]
    rw [hinv.contains_iff] at hfresh
    rw [← Except.ok.inj hstep]
    refine ⟨?_, ?_, ?_⟩
    · rw [List.map_append, List.map_singleton]
      exact hgood.append (List.nodup_singleton _) (by simpa using hfresh)
    · rw [List.map_append, List.map_singleton]
      exact hinv.documents.insertIfNew _ _
    · rw [List.map_append, List.map_singleton]
      exact hinv.documentsById.insert hnot _

/-! ## The compiled schemas -/

variable {entries : List SchemaDocument}

/-- What the table has, in the order of the names, with distinct identifiers. -/
structure ReadsSchemas (env : Environment) (assets : List EmbeddedAsset)
    (entries : List SchemaDocument) : Prop where
  reads : List.Forall₂ (ReadsSchema env assets) (schemaNames assets) entries
  distinct : (entries.map SchemaDocument.id).Nodup

/-- The documents that references are resolved to. -/
def resolver (entries : List SchemaDocument) (base : Bytes) : Json :=
  (MapLoop.first (entries.map byId) base).getD .null

/-- The identifier is that of the document that is entered. -/
theorem ReadsSchema.id_eq {name : Bytes} {entry : SchemaDocument}
    (h : ReadsSchema env assets name entry) :
    (entry.document.member? "$id").bind Json.asString? = some entry.id := by
  obtain ⟨_, document, _, _, hid, hannotated⟩ := h.document
  have hmember : entry.document.member? "$id" = document.member? "$id" := by
    unfold annotated at hannotated
    split_ifs at hannotated
    · simp only [annotateIdentifierFormat, Except.bind_eq_ok, schemaError,
        Except.ite_error_eq_ok, Except.ok.injEq] at hannotated
      obtain ⟨defs, _, id, _, format, _, _, hset⟩ := hannotated
      rw [← hset, Json.member?_set_of_ne _ _ (by decide)]
    · rw [Except.ok.inj hannotated]
  rw [hmember]
  exact Option.bind_eq_some_iff.mpr hid

/-- A name stands for one document. -/
theorem ReadsSchema.unique {name : Bytes} {entry entry' : SchemaDocument}
    (h : ReadsSchema env assets name entry) (h' : ReadsSchema env assets name entry') :
    entry = entry' := by
  obtain ⟨bytes, document, hbytes, hdocument, hid, hannotated⟩ := h.document
  obtain ⟨bytes', document', hbytes', hdocument', hid', hannotated'⟩ := h'.document
  rw [hbytes, Option.some.injEq] at hbytes'
  rw [hbytes', hdocument', Except.ok.injEq] at hdocument
  rw [← hdocument] at hid hannotated
  rw [hannotated', Except.ok.injEq] at hannotated
  cases entry
  cases entry'
  rw [SchemaDocument.mk.injEq]
  exact ⟨h.names.trans h'.names.symm, hannotated.symm, hid.unique hid'⟩

namespace ReadsSchemas

theorem unique {entries' : List SchemaDocument} (h : ReadsSchemas env assets entries)
    (h' : ReadsSchemas env assets entries') : entries = entries' := by
  have hunique : Relator.RightUnique (ReadsSchema env assets) := fun _ _ _ => ReadsSchema.unique
  exact List.right_unique_forall₂' hunique h.reads h'.reads

theorem exists_reads (h : ReadsSchemas env assets entries) {entry : SchemaDocument}
    (hentry : entry ∈ entries) : ReadsSchema env assets entry.name entry := by
  obtain ⟨name, _, hread⟩ := Except.exists_of_reads h.reads hentry
  rw [hread.names]
  exact hread

/-- Documents with one name are one. -/
theorem eq_of_name (h : ReadsSchemas env assets entries) {entry entry' : SchemaDocument}
    (hentry : entry ∈ entries) (hentry' : entry' ∈ entries) (hname : entry.name = entry'.name) :
    entry = entry' := by
  have hread := h.exists_reads hentry
  rw [hname] at hread
  exact hread.unique (h.exists_reads hentry')

/-- The document under a name. -/
theorem first_byName (h : ReadsSchemas env assets entries) {name : Bytes} {document : Json} :
    MapLoop.first (entries.map byName) name = some document ↔
      ∃ entry ∈ entries, entry.name = name ∧ entry.document = document := by
  constructor
  · intro hfirst
    obtain ⟨entry, hentry, heq⟩ := List.mem_map.mp (MapLoop.mem_of_first hfirst)
    exact ⟨entry, hentry, congrArg Prod.fst heq, congrArg Prod.snd heq⟩
  · rintro ⟨entry, hentry, rfl, rfl⟩
    have hmem : byName entry ∈ entries.map byName := List.mem_map_of_mem hentry
    obtain ⟨value, hvalue⟩ := MapLoop.exists_first hmem
    obtain ⟨entry', hentry', heq⟩ := List.mem_map.mp (MapLoop.mem_of_first hvalue)
    have hsame := h.eq_of_name hentry' hentry (congrArg Prod.fst heq)
    rw [hsame] at heq
    rw [show entry.name = (byName entry).1 from rfl, hvalue]
    exact congrArg some (congrArg Prod.snd heq).symm

end ReadsSchemas

/-- The loop over the names accepts what can be read with distinct
identifiers. -/
theorem enterDocuments_spec :
    (∀ state, (schemaNames assets).foldlM (enterDocument env assets) ⟨∅, ∅⟩ = .ok state →
      ∃ entries, ReadsSchemas env assets entries ∧ state.Holds entries) ∧
    ∀ entries, ReadsSchemas env assets entries →
      ∃ state, (schemaNames assets).foldlM (enterDocument env assets) ⟨∅, ∅⟩ = .ok state ∧
        state.Holds entries := by
  have hread : ∀ state name state', enterDocument env assets state name = .ok state' ↔
      ∃ entry, ReadsSchema env assets name entry ∧ state.enter entry = .ok state' :=
    fun _ _ _ => enterDocument_eq_ok
  have hempty : CatalogDocuments.Holds [] ⟨∅, ∅⟩ := ⟨MapLoop.holds_empty, MapLoop.holds_empty⟩
  constructor
  · intro state h
    obtain ⟨entries, hreads, hrun⟩ := (Except.foldlM_eq_ok_of_read hread).mp h
    obtain ⟨hdistinct, hholds⟩ := loopStep_enter.run hempty List.nodup_nil hrun
    exact ⟨entries, ⟨hreads, hdistinct⟩, hholds⟩
  · intro entries h
    have hexists : ∃ state, entries.foldlM CatalogDocuments.enter ⟨∅, ∅⟩ = .ok state :=
      loopStep_enter.exists_run hempty h.distinct
    obtain ⟨state, hrun⟩ := hexists
    exact ⟨state, (Except.foldlM_eq_ok_of_read hread).mpr ⟨entries, h.reads, hrun⟩,
      (loopStep_enter.run hempty List.nodup_nil hrun).2⟩

/-- The compiled schema of a document, with the references resolved in the
catalog. -/
def Compiles (jsoncons : JsonSchemas) (entries : List SchemaDocument) (entry : SchemaDocument)
    (compiled : jsoncons.CompiledSchema) : Prop :=
  jsoncons.makeJsonSchema entry.document entry.id (resolver entries) = .ok compiled

theorem resolve_eq {state : CatalogDocuments} (h : state.Holds entries) :
    state.resolve = resolver entries := by
  funext base
  rw [CatalogDocuments.resolve, resolver, h.documentsById]

/-- What the second loop reads from a pair. -/
theorem compileDocument_eq_ok {state : CatalogDocuments}
    {compiled compiled' : Std.TreeMap Bytes jsoncons.CompiledSchema} {entry : Bytes × Json} :
    compileDocument jsoncons state compiled entry = .ok compiled' ↔
      ∃ pair : Bytes × jsoncons.CompiledSchema,
        (pair.1 = entry.1 ∧ jsoncons.makeJsonSchema entry.2
          (((entry.2.member? "$id").bind Json.asString?).getD []) state.resolve = .ok pair.2) ∧
        (Except.ok (compiled.insertIfNew pair.1 pair.2) : Except Unit _) = .ok compiled' := by
  simp only [compileDocument, Except.bind_eq_ok,
    catchException_eq_ok (by simp [schemaError] : ∀ what v, schemaError
      ("unable to compile " ++ text entry.1 ++ ": " ++ what) ≠ Except.ok v), Except.ok.injEq]
  constructor
  · rintro ⟨schema, hschema, rfl⟩
    exact ⟨(entry.1, schema), ⟨rfl, hschema⟩, rfl⟩
  · rintro ⟨⟨name, schema⟩, ⟨rfl, hschema⟩, rfl⟩
    exact ⟨schema, hschema, rfl⟩

theorem mem_documents_iff {state : CatalogDocuments} (h : ReadsSchemas env assets entries)
    (hholds : state.Holds entries) {pair : Bytes × Json} :
    pair ∈ state.documents.toList ↔ ∃ entry ∈ entries, byName entry = pair := by
  rw [Std.TreeMap.mem_toList_iff_getElem?_eq_some, hholds.documents, h.first_byName]
  simp only [byName, Prod.ext_iff]

/-- The second loop compiles every document, under its name. -/
theorem compileDocuments_spec {state : CatalogDocuments} (h : ReadsSchemas env assets entries)
    (hholds : state.Holds entries) :
    (∀ compiled, state.documents.toList.foldlM (compileDocument jsoncons state) ∅ = .ok compiled →
      ∀ name schema, compiled[name]? = some schema ↔
        ∃ entry ∈ entries, entry.name = name ∧ Compiles jsoncons entries entry schema) ∧
    ((∃ compiled, state.documents.toList.foldlM (compileDocument jsoncons state) ∅ =
        .ok compiled) ↔ ∀ entry ∈ entries, ∃ schema, Compiles jsoncons entries entry schema) := by
  have hread : ∀ compiled entry compiled',
      compileDocument jsoncons state compiled entry = .ok compiled' ↔
        ∃ pair : Bytes × jsoncons.CompiledSchema,
          (pair.1 = entry.1 ∧ jsoncons.makeJsonSchema entry.2
            (((entry.2.member? "$id").bind Json.asString?).getD []) state.resolve = .ok pair.2) ∧
          (Except.ok (compiled.insertIfNew pair.1 pair.2) : Except Unit _) = .ok compiled' :=
    fun _ _ _ => compileDocument_eq_ok
  -- a pair is read as its name and the compiled schema of its document
  have hcompiles {entry : SchemaDocument} (hentry : entry ∈ entries)
      {schema : jsoncons.CompiledSchema} : jsoncons.makeJsonSchema entry.document
        (((entry.document.member? "$id").bind Json.asString?).getD []) state.resolve =
          .ok schema ↔ Compiles jsoncons entries entry schema := by
    rw [(h.exists_reads hentry).id_eq, Option.getD_some, resolve_eq hholds, Compiles]
  constructor
  · intro compiled hrun
    obtain ⟨pairs, hpairs, hrun⟩ := (Except.foldlM_eq_ok_of_read hread).mp hrun
    have hfold : compiled = pairs.foldl (fun map pair => map.insertIfNew pair.1 pair.2) ∅ :=
      (Except.ok.inj (List.foldlM_pure.symm.trans hrun)).symm
    intro name schema
    have hdistinct : (pairs.map Prod.fst).Nodup := by
      have hnames : pairs.map Prod.fst = state.documents.toList.map Prod.fst := by
        clear hrun hfold
        generalize state.documents.toList = documents at hpairs
        induction hpairs with
        | nil => rfl
        | cons hpair _ ih => rw [List.map_cons, List.map_cons, hpair.1, ih]
      rw [hnames, List.Nodup, List.pairwise_map]
      exact MapLoop.distinct_toList _
    rw [hfold, MapLoop.holds_foldl]
    constructor
    · intro hfirst
      obtain ⟨pair, hpair, hname, hschema⟩ :=
        Except.exists_of_reads hpairs (MapLoop.mem_of_first hfirst)
      obtain ⟨entry, hentry, rfl⟩ := (mem_documents_iff h hholds).mp hpair
      exact ⟨entry, hentry, hname.symm, (hcompiles hentry).mp hschema⟩
    · rintro ⟨entry, hentry, rfl, hschema⟩
      obtain ⟨pair, hpair, hname, hpairSchema⟩ := Except.exists_read hpairs
        ((mem_documents_iff h hholds).mpr ⟨entry, hentry, rfl⟩)
      have hsame : pair = (entry.name, schema) := by
        have heq := (hcompiles hentry).mp hpairSchema
        rw [Compiles] at heq hschema
        rw [hschema, Except.ok.injEq] at heq
        exact Prod.ext hname heq.symm
      rw [hsame] at hpair
      obtain ⟨value, hvalue⟩ := MapLoop.exists_first hpair
      have hmem := MapLoop.mem_of_first hvalue
      have hboth := List.inj_on_of_nodup_map hdistinct hmem hpair rfl
      rw [hvalue, (Prod.mk.inj hboth).2]
  · constructor
    · rintro ⟨compiled, hrun⟩ entry hentry
      obtain ⟨pairs, hpairs, _⟩ := (Except.foldlM_eq_ok_of_read hread).mp hrun
      obtain ⟨pair, _, _, hschema⟩ := Except.exists_read hpairs
        ((mem_documents_iff h hholds).mpr ⟨entry, hentry, rfl⟩)
      exact ⟨pair.2, (hcompiles hentry).mp hschema⟩
    · intro hall
      have hpairs : ∀ as : List (Bytes × Json), (∀ a ∈ as, a ∈ state.documents.toList) →
          ∃ pairs : List (Bytes × jsoncons.CompiledSchema), List.Forall₂ (fun entry pair =>
            pair.1 = entry.1 ∧ jsoncons.makeJsonSchema entry.2
              (((entry.2.member? "$id").bind Json.asString?).getD []) state.resolve =
                .ok pair.2) as pairs := by
        intro as has
        induction as with
        | nil => exact ⟨[], .nil⟩
        | cons a as ih =>
          rw [List.forall_mem_cons] at has
          obtain ⟨entry, hentry, rfl⟩ := (mem_documents_iff h hholds).mp has.1
          obtain ⟨schema, hschema⟩ := hall entry hentry
          obtain ⟨pairs, hpairs⟩ := ih has.2
          exact ⟨(entry.name, schema) :: pairs, .cons ⟨rfl, (hcompiles hentry).mpr hschema⟩ hpairs⟩
      obtain ⟨pairs, hpairs⟩ := hpairs _ fun _ ha => ha
      exact ⟨_, (Except.foldlM_eq_ok_of_read hread).mpr ⟨pairs, hpairs, List.foldlM_pure⟩⟩

/-- The catalog is built if and only if every schema in the table can be read,
the identifiers are distinct, and every document compiles with the references
resolved by identifier.  It holds the compiled document of each name. -/
theorem SchemaCatalog.new_spec (env : Environment) (jsoncons : JsonSchemas)
    (assets : List EmbeddedAsset) :
    (∀ catalog, SchemaCatalog.new env jsoncons assets = .ok catalog →
      ∃ entries, ReadsSchemas env assets entries ∧
        ∀ name schema, catalog.compiled[name]? = some schema ↔
          ∃ entry ∈ entries, entry.name = name ∧ Compiles jsoncons entries entry schema) ∧
    ((∃ catalog, SchemaCatalog.new env jsoncons assets = .ok catalog) ↔
      ∃ entries, ReadsSchemas env assets entries ∧
        ∀ entry ∈ entries, ∃ schema, Compiles jsoncons entries entry schema) := by
  obtain ⟨hsound, hcomplete⟩ := @enterDocuments_spec env assets
  constructor
  · intro catalog h
    obtain ⟨state, hstate, h⟩ := Except.bind_eq_ok.mp h
    obtain ⟨compiled, hcompiled, h⟩ := Except.bind_eq_ok.mp h
    obtain ⟨entries, hreads, hholds⟩ := hsound state hstate
    refine ⟨entries, hreads, ?_⟩
    rw [← Except.ok.inj h]
    exact (compileDocuments_spec hreads hholds).1 compiled hcompiled
  · constructor
    · rintro ⟨catalog, h⟩
      obtain ⟨state, hstate, h⟩ := Except.bind_eq_ok.mp h
      obtain ⟨compiled, hcompiled, _⟩ := Except.bind_eq_ok.mp h
      obtain ⟨entries, hreads, hholds⟩ := hsound state hstate
      exact ⟨entries, hreads, (compileDocuments_spec hreads hholds).2.mp ⟨compiled, hcompiled⟩⟩
    · rintro ⟨entries, hreads, hall⟩
      obtain ⟨state, hstate, hholds⟩ := hcomplete entries hreads
      obtain ⟨compiled, hcompiled⟩ := (compileDocuments_spec hreads hholds).2.mpr hall
      exact ⟨_, Except.bind_eq_ok.mpr ⟨state, hstate, Except.bind_eq_ok.mpr
        ⟨compiled, hcompiled, rfl⟩⟩⟩

/-- The catalog gives the verdict of the schema that has the name in the table,
compiled with the references resolved by identifier, and throws for all other
names.  It is built if and only if every schema in the table can be read, the
identifiers are distinct, and every document compiles. -/
theorem SchemaCatalog.verdict_exact (env : Environment) (jsoncons : JsonSchemas)
    (assets : List EmbeddedAsset) :
    ((∃ catalog, SchemaCatalog.new env jsoncons assets = .ok catalog) ↔
      ∃ entries, ReadsSchemas env assets entries ∧
        ∀ entry ∈ entries, ∃ schema, Compiles jsoncons entries entry schema) ∧
    ∀ catalog, SchemaCatalog.new env jsoncons assets = .ok catalog →
      ∃ entries, ReadsSchemas env assets entries ∧
        ∀ schemaName instance_ result, catalog.validate env schemaName instance_ = .ok result ↔
          ∃ entry ∈ entries, ∃ schema, entry.name = schemaName ∧
            Compiles jsoncons entries entry schema ∧
              Verdict env jsoncons schema instance_ result := by
  obtain ⟨hcatalog, hbuilt⟩ := SchemaCatalog.new_spec env jsoncons assets
  refine ⟨hbuilt, fun catalog h => ?_⟩
  obtain ⟨entries, hreads, hcompiled⟩ := hcatalog catalog h
  refine ⟨entries, hreads, fun schemaName instance_ result => ?_⟩
  rw [SchemaCatalog.validate_eq_ok]
  simp only [hcompiled]
  constructor
  · rintro ⟨schema, ⟨entry, hentry, hname, hcompiles⟩, hverdict⟩
    exact ⟨entry, hentry, schema, hname, hcompiles, hverdict⟩
  · rintro ⟨entry, hentry, schema, hname, hcompiles, hverdict⟩
    exact ⟨schema, ⟨entry, hentry, hname, hcompiles⟩, hverdict⟩

/-! ## Catalogs of two tables -/

/-- The catalog is a matter of the schemas in the table. -/
theorem SchemaCatalog.new_congr {assets assets' : List EmbeddedAsset}
    (h : Bundle.Increasing assets) (h' : Bundle.Increasing assets')
    (htree : Bundle.jsonAssets assets (ascii "schemas/") =
      Bundle.jsonAssets assets' (ascii "schemas/")) :
    SchemaCatalog.new env jsoncons assets = SchemaCatalog.new env jsoncons assets' := by
  have hnames : schemaNames assets = schemaNames assets' := by
    rw [schemaNames, schemaNames, htree]
  have hloop : (schemaNames assets).foldlM (enterDocument env assets) ⟨∅, ∅⟩ =
      (schemaNames assets').foldlM (enterDocument env assets') ⟨∅, ∅⟩ := by
    rw [← hnames]
    apply Except.foldlM_congr
    intro name hname state
    obtain ⟨asset, hasset, rfl⟩ := List.mem_map.mp hname
    obtain ⟨_, ⟨rest, hpath⟩, hjson⟩ := Bundle.mem_jsonAssets.mp hasset
    have hschema : schema assets (asset.path.drop (ascii "schemas/").length) =
        schema assets' (asset.path.drop (ascii "schemas/").length) := by
      unfold schema Bundle.assetBelow
      rw [← hpath, List.drop_left]
      rw [← hpath] at hjson
      rw [Bundle.findAsset_congr h h' htree ⟨rest, rfl⟩ hjson]
    rw [enterDocument, enterDocument, hschema]
  rw [SchemaCatalog.new, SchemaCatalog.new, hloop]

end MissionWeave
