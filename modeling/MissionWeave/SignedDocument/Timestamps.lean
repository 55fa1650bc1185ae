import MissionWeave.Schema.Positions
import MissionWeave.SignedDocument.Rfc3339
import MissionWeave.SignedDocument.Verify

/-!
# The timestamps of an accepted document

The `date-time` format of the schemas admits spellings that are no protocol
instants.  `verify` looks for them in the protected time and in
`signature.createdAt`, and the schemas declare further timestamps.

* `schemaStage_eq_ok`: what the schema stage checks.
* `covered_iff`: the documents all of whose timestamps are checked as if they
  were protected.
* `timestamps_counterexample`: an Agent Card that expires in a leap second is
  accepted.
-/

namespace MissionWeave

namespace SignedDocumentCodec

/-! ## Errors of the stages -/

/-- No value is thrown that is not a `std::exception`. -/
def Standard {α : Type} (x : Except Thrown α) : Prop := x ≠ .error .foreign

theorem Standard.bind {α β : Type} {x : Except Thrown α} {f : α → Except Thrown β}
    (hx : Standard x) (hf : ∀ a, Standard (f a)) : Standard (x >>= f) := by
  intro h
  rcases Except.bind_eq_error.mp h with h | ⟨a, _, h⟩
  · exact hx h
  · exact hf a h

theorem Standard.ite {α : Type} {c : Prop} [Decidable c] {x y : Except Thrown α}
    (hx : Standard x) (hy : Standard y) : Standard (if c then x else y) := by
  split_ifs
  · exact hx
  · exact hy

theorem standard_ok {α : Type} (value : α) : Standard (.ok value) := by
  simp [Standard]

theorem standard_invalidArgument {α : Type} (what : String) :
    Standard (.error (.invalidArgument what) : Except Thrown α) := by
  simp [Standard]

theorem standard_requiredString (object : Json) (field : String) :
    Standard (requiredString object field) := by
  unfold Standard requiredString requiredStringField
  split <;> simp

theorem standard_at' (object : Json) (field : String) : Standard (object.at' field) := by
  unfold Standard Json.at'
  split <;> simp

theorem standard_offsetSeconds (offset : Bytes) : Standard (offsetSeconds offset) :=
  .ite (standard_invalidArgument _) (.ite (standard_ok 0)
    (.ite (standard_invalidArgument _) (standard_ok _)))

theorem standard_parseInstant (text : Bytes) : Standard (parseInstant text) := by
  unfold parseInstant
  cases matchTimestamp text with
  | none => exact standard_invalidArgument _
  | some t =>
    apply Standard.ite (standard_invalidArgument _)
    apply Standard.ite (standard_invalidArgument _)
    apply Standard.ite (standard_invalidArgument _)
    exact (standard_offsetSeconds _).bind fun offset => standard_ok _

/-- A stage throws its own error, or passes on what is no `std::exception`. -/
theorem inStage_eq_error {α : Type} {stage : VerificationStage} {block : Except Thrown α}
    {thrown : Thrown} (h : inStage stage block = .error thrown) :
    (∃ reason, thrown = .verificationError ⟨stage, reason⟩) ∨
      thrown = .foreign ∧ block = .error .foreign := by
  cases block with
  | ok value => cases h
  | error inner =>
    cases inner with
    | foreign => exact Or.inr ⟨(Except.error.inj h).symm, rfl⟩
    | _ => exact Or.inl ⟨_, (Except.error.inj h).symm⟩

theorem inStage_ne {α : Type} {stage other : VerificationStage} (block : Except Thrown α)
    (hne : stage ≠ other) (reason : String) :
    inStage stage block ≠ .error (.verificationError ⟨other, reason⟩) := by
  intro h
  rcases inStage_eq_error h with ⟨reason', heq⟩ | ⟨heq, _⟩
  · exact hne (VerificationDiagnostic.mk.inj (Thrown.verificationError.inj heq)).1.symm
  · cases heq

section

variable {env : Environment} {kind : SignedDocumentKind} {selected : Profile} {document : Json}
  {receivedBytes : Bytes} {parsed : ParsedDocument}

/-! ## The schema stage -/

/-- The text of a member is an instant. -/
def InstantMember (object : Json) (field : String) : Prop :=
  ∃ text i, TextMember object field text ∧ parseInstant text = .ok i

theorem schemaStage_eq_ok :
    schemaStage env selected document = .ok () ↔
      Validates env.validate selected.schema document ∧ document.isObject = true ∧
        InstantMember document selected.protectedTime ∧
        ∃ signature, document.member? "signature" = some signature ∧
          InstantMember signature "createdAt" := by
  rw [schemaStage, inStage_eq_ok]
  constructor
  · intro h
    obtain ⟨⟨⟩, hschema, h⟩ := Except.bind_eq_ok.mp h
    split_ifs at h with hobject
    obtain ⟨time, htime, h⟩ := Except.bind_eq_ok.mp h
    obtain ⟨i, hi, h⟩ := Except.bind_eq_ok.mp h
    obtain ⟨signature, hsignature, h⟩ := Except.bind_eq_ok.mp h
    obtain ⟨createdAt, hcreatedAt, h⟩ := Except.bind_eq_ok.mp h
    obtain ⟨j, hj, _⟩ := Except.bind_eq_ok.mp h
    exact ⟨requireSchema_eq_ok.mp hschema, hobject, ⟨time, i, requiredString_eq_ok.mp htime, hi⟩,
      signature, Json.at'_eq_ok.mp hsignature, createdAt, j, requiredString_eq_ok.mp hcreatedAt, hj⟩
  · intro h
    obtain ⟨hschema, hobject, ⟨time, i, htime, hi⟩, signature, hsignature, createdAt, j,
      hcreatedAt, hj⟩ := h
    rw [requireSchema_eq_ok.mpr hschema, Except.ok_bind, if_neg (not_not.mpr hobject),
      requiredString_eq_ok.mpr htime, Except.ok_bind, hi, Except.ok_bind,
      Json.at'_eq_ok.mpr hsignature, Except.ok_bind, requiredString_eq_ok.mpr hcreatedAt,
      Except.ok_bind, hj, Except.ok_bind]

/-- What the stage does not accept fails at it, if the validator answers. -/
theorem schemaStage_eq_error
    (hanswers : ∃ result, env.validate selected.schema document = .ok result)
    (h : schemaStage env selected document ≠ .ok ()) :
    ∃ reason, schemaStage env selected document =
      .error (.verificationError ⟨.schema, reason⟩) := by
  have hstandard : Standard (do
      requireSchema env selected.schema document
      if ¬document.isObject then
        .error (.invalidArgument "Signed Document is not a JSON object")
      else do
        let protectedTime ← requiredString document selected.protectedTime
        let _ ← parseInstant protectedTime
        let envelope ← document.at' "signature"
        let createdAt ← requiredString envelope "createdAt"
        let _ ← parseInstant createdAt
        .ok ()) := by
    refine Standard.bind ?_ fun _ => ?_
    · obtain ⟨result, hresult⟩ := hanswers
      unfold Standard requireSchema
      rw [hresult, Except.ok_bind]
      split_ifs <;> simp
    · apply Standard.ite (standard_invalidArgument _)
      refine (standard_requiredString _ _).bind fun _ => ?_
      refine (standard_parseInstant _).bind fun _ => ?_
      refine (standard_at' _ _).bind fun _ => ?_
      refine (standard_requiredString _ _).bind fun _ => ?_
      exact (standard_parseInstant _).bind fun _ => standard_ok _
  cases hstage : schemaStage env selected document with
  | ok value => exact absurd hstage h
  | error thrown =>
    rcases inStage_eq_error hstage with ⟨reason, rfl⟩ | ⟨_, hforeign⟩
    · exact ⟨reason, rfl⟩
    · exact absurd hforeign hstandard

/-- What comes after the resolver has answered fails at another stage than those
before. -/
theorem completeDocument_ne {opened : OpenedDocument} {response : Except Thrown KeyRegistrySnapshot}
    {stage : VerificationStage}
    (hstage : stage ∉ [.keyResolution, .canonicalization, .signature]) (reason : String) :
    completeDocument env opened response ≠ .error (.verificationError ⟨stage, reason⟩) := by
  simp only [List.mem_cons, List.not_mem_nil, or_false, not_or] at hstage
  obtain ⟨hresolution, hcanonicalization, hsignature⟩ := hstage
  have hsha256 (bytes : Bytes) :
      env.sha256 bytes ≠ .error (.verificationError ⟨stage, reason⟩) := by
    unfold Environment.sha256
    split <;> simp
  intro h
  rcases Except.bind_eq_error.mp h with h | ⟨resolution, _, h⟩
  · exact inStage_ne _ (Ne.symm hresolution) reason h
  rcases Except.bind_eq_error.mp h with h | ⟨bytes, _, h⟩
  · exact inStage_ne _ (Ne.symm hcanonicalization) reason h
  rcases Except.bind_eq_error.mp h with h | ⟨_, _, h⟩
  · exact inStage_ne _ (Ne.symm hsignature) reason h
  rcases Except.bind_eq_error.mp h with h | ⟨signingHash, _, h⟩
  · exact hsha256 _ h
  rcases Except.bind_eq_error.mp h with h | ⟨canonicalHash, _, h⟩
  · exact hsha256 _ h
  · cases h

/-- What comes after the schema stage fails at another stage. -/
theorem verify_ne_schema_error {resolver : KeyResolver}
    (hparsed : parseStage env receivedBytes = .ok parsed)
    (hstage : schemaStage env (profile kind) parsed.document = .ok ()) (reason : String) :
    verify env kind receivedBytes resolver ≠ .error (.verificationError ⟨.schema, reason⟩) := by
  intro h
  rw [verify, openDocument, hparsed, Except.ok_bind, hstage, Except.ok_bind] at h
  rcases Except.bind_eq_error.mp h with h | ⟨opened, _, h⟩
  · rcases Except.bind_eq_error.mp h with h | ⟨envelope, _, h⟩
    · exact inStage_ne _ (by decide) reason h
    · cases h
  · exact completeDocument_ne (by decide) reason h

theorem verify_of_schemaStage_error {resolver : KeyResolver} {thrown : Thrown}
    (hparsed : parseStage env receivedBytes = .ok parsed)
    (hstage : schemaStage env (profile kind) parsed.document = .error thrown) :
    verify env kind receivedBytes resolver = .error thrown := by
  rw [verify, openDocument, hparsed, Except.ok_bind, hstage]
  rfl

/-! ## All timestamps -/

/-- The positions that `verify` looks for an instant at. -/
def checkedPositions (kind : SignedDocumentKind) : List Position :=
  [[.member (profile kind).protectedTime], createdAtPosition]

/-- The timestamps of the schema that it does not look at. -/
def otherPositions (kind : SignedDocumentKind) : List Position :=
  (timestampPositions kind).filter (· ∉ checkedPositions kind)

theorem mem_timestampPositions {position : Position} :
    position ∈ timestampPositions kind ↔
      position ∈ checkedPositions kind ∨ position ∈ otherPositions kind := by
  have hsub : ∀ position ∈ checkedPositions kind, position ∈ timestampPositions kind := by
    cases kind <;> decide
  rw [otherPositions, List.mem_filter, decide_eq_true_eq]
  constructor
  · intro h
    by_cases hchecked : position ∈ checkedPositions kind
    · exact Or.inl hchecked
    · exact Or.inr ⟨h, hchecked⟩
  · rintro (h | h)
    · exact hsub position h
    · exact h.1

/-- What the validator asserts of a document of each kind: it is an object with
the two times that `verify` reads, and all its timestamps are `date-time` texts. -/
structure AssertsTimestamps (env : Environment) : Prop where
  answers : ∀ kind document, ∃ result, env.validate (profile kind).schema document = .ok result
  object : ∀ kind document, Validates env.validate (profile kind).schema document →
    document.isObject = true
  required : ∀ kind document, Validates env.validate (profile kind).schema document →
    ∀ position ∈ checkedPositions kind, document.reach position ≠ []
  dateTime : ∀ kind document, Validates env.validate (profile kind).schema document →
    ∀ position ∈ timestampPositions kind, ∀ value ∈ document.reach position,
      ∃ t : Rfc3339.DateTime, value.asString? = some t.render

/-- Some value at one of the positions is a `date-time` that is no instant: a
leap second, the year 0000 or the offset `-00:00`. -/
def HasMisspelled (document : Json) (positions : List Position) : Prop :=
  ∃ position ∈ positions, ∃ value ∈ document.reach position,
    ∃ t : Rfc3339.DateTime, value.asString? = some t.render ∧ t.Misspelled

/-- Every value at one of the positions is an instant. -/
def HoldsInstants (document : Json) (positions : List Position) : Prop :=
  ∀ position ∈ positions, ∀ value ∈ document.reach position,
    ∃ text i, value.asString? = some text ∧ parseInstant text = .ok i

/-- All timestamps of the document are treated as the protected ones: those of
an accepted document are instants, and a misspelled one is an error of the
schema stage. -/
def Covered (env : Environment) (kind : SignedDocumentKind) (receivedBytes : Bytes)
    (document : Json) : Prop :=
  ∀ resolver,
    (∀ verified, verify env kind receivedBytes resolver = .ok verified →
      HoldsInstants verified.document (timestampPositions kind)) ∧
    (HasMisspelled document (timestampPositions kind) →
      ∃ reason, verify env kind receivedBytes resolver =
        .error (.verificationError ⟨.schema, reason⟩))

/-- Timestamps are instants unless they are misspelled. -/
theorem holdsInstants_iff {positions : List Position}
    (hdateTime : ∀ position ∈ positions, ∀ value ∈ document.reach position,
      ∃ t : Rfc3339.DateTime, value.asString? = some t.render) :
    HoldsInstants document positions ↔ ¬HasMisspelled document positions := by
  constructor
  · rintro h ⟨position, hposition, value, hvalue, t, ht, hmisspelled⟩
    obtain ⟨text, i, htext, hi⟩ := h position hposition value hvalue
    rw [ht, Option.some.injEq] at htext
    rw [← htext] at hi
    exact t.exists_instant_iff.mp ⟨i, hi⟩ hmisspelled
  · intro h position hposition value hvalue
    obtain ⟨t, ht⟩ := hdateTime position hposition value hvalue
    obtain ⟨i, hi⟩ := t.exists_instant_iff.mpr fun hmisspelled =>
      h ⟨position, hposition, value, hvalue, t, ht, hmisspelled⟩
    exact ⟨t.render, i, ht, hi⟩

theorem instantMember_iff {object : Json} {field : String} :
    InstantMember object field ↔
      ∃ value, object.member? field = some value ∧
        ∃ text i, value.asString? = some text ∧ parseInstant text = .ok i := by
  constructor
  · rintro ⟨text, i, ⟨value, hvalue, htext⟩, hi⟩
    exact ⟨value, hvalue, text, i, htext, hi⟩
  · rintro ⟨value, hvalue, text, i, htext, hi⟩
    exact ⟨text, i, ⟨value, hvalue, htext⟩, hi⟩

/-- The schema stage accepts a valid document whose two times are instants. -/
theorem schemaStage_eq_ok_iff (hasserts : AssertsTimestamps env) :
    schemaStage env (profile kind) document = .ok () ↔
      Validates env.validate (profile kind).schema document ∧
        HoldsInstants document (checkedPositions kind) := by
  rw [schemaStage_eq_ok]
  constructor
  · rintro ⟨hvalid, _, htime, signature, hsignature, hcreatedAt⟩
    refine ⟨hvalid, fun position hposition value hvalue => ?_⟩
    rcases List.mem_cons.mp hposition with rfl | hposition
    · obtain ⟨value', hvalue', hinstant⟩ := instantMember_iff.mp htime
      rw [Json.mem_reach_member, hvalue', Option.some.injEq] at hvalue
      rwa [← hvalue]
    · rw [List.mem_singleton] at hposition
      subst hposition
      obtain ⟨value', hvalue', hinstant⟩ := instantMember_iff.mp hcreatedAt
      obtain ⟨signature', hsignature', hvalue⟩ := Json.mem_reach_members.mp hvalue
      rw [hsignature, Option.some.injEq] at hsignature'
      rw [← hsignature', hvalue', Option.some.injEq] at hvalue
      rwa [← hvalue]
  · rintro ⟨hvalid, hinstants⟩
    have hreached (position : Position) (hposition : position ∈ checkedPositions kind) :
        ∃ value ∈ document.reach position,
          ∃ text i, value.asString? = some text ∧ parseInstant text = .ok i := by
      obtain ⟨value, hvalue⟩ :=
        List.exists_mem_of_ne_nil _ (hasserts.required kind document hvalid position hposition)
      exact ⟨value, hvalue, hinstants position hposition value hvalue⟩
    obtain ⟨time, htime, hinstant⟩ := hreached _ List.mem_cons_self
    obtain ⟨createdAt, hcreatedAt, hinstant'⟩ :=
      hreached createdAtPosition (List.mem_cons_of_mem _ List.mem_cons_self)
    obtain ⟨signature, hsignature, hcreatedAt⟩ := Json.mem_reach_members.mp hcreatedAt
    exact ⟨hvalid, hasserts.object kind document hvalid,
      instantMember_iff.mpr ⟨time, Json.mem_reach_member.mp htime, hinstant⟩, signature, hsignature,
      instantMember_iff.mpr ⟨createdAt, hcreatedAt, hinstant'⟩⟩

theorem hasMisspelled_timestampPositions :
    HasMisspelled document (timestampPositions kind) ↔
      HasMisspelled document (checkedPositions kind) ∨
        HasMisspelled document (otherPositions kind) := by
  simp only [HasMisspelled, mem_timestampPositions, or_and_right, exists_or]

/-- The schema stage accepts a valid document unless one of the two times is
misspelled. -/
theorem schemaStage_eq_ok_iff_misspelled (hasserts : AssertsTimestamps env) :
    schemaStage env (profile kind) document = .ok () ↔
      Validates env.validate (profile kind).schema document ∧
        ¬HasMisspelled document (checkedPositions kind) := by
  rw [schemaStage_eq_ok_iff hasserts]
  refine and_congr_right fun hvalid => holdsInstants_iff fun position hposition => ?_
  exact hasserts.dateTime kind document hvalid position
    (mem_timestampPositions.mpr (.inl hposition))

/-- What `verify` accepts has passed the schema stage. -/
theorem schemaStage_of_verify {resolver : KeyResolver} {verified : VerifiedSignedDocument}
    (hparsed : parseStage env receivedBytes = .ok parsed)
    (h : verify env kind receivedBytes resolver = .ok verified) :
    verified.document = parsed.document ∧
      schemaStage env (profile kind) parsed.document = .ok () := by
  obtain ⟨opened, hopened, hcompletes⟩ := Except.bind_eq_ok.mp h
  rw [openDocument, hparsed, Except.ok_bind] at hopened
  obtain ⟨⟨⟩, hstage, hopened⟩ := Except.bind_eq_ok.mp hopened
  obtain ⟨envelope, _, hopened⟩ := Except.bind_eq_ok.mp hopened
  refine ⟨?_, hstage⟩
  rw [(completeDocument_eq_ok.mp hcompletes).document, ← Except.ok.inj hopened]

end

/-- The timestamps of a received document are all treated as the protected ones
exactly if it is invalid, or one of the two times that are checked is
misspelled, or none of the others is. -/
theorem covered_iff (env : Environment) (hasserts : AssertsTimestamps env)
    (kind : SignedDocumentKind) (receivedBytes : Bytes) (parsed : ParsedDocument)
    (hparsed : parseStage env receivedBytes = .ok parsed) :
    Covered env kind receivedBytes parsed.document ↔
      ¬Validates env.validate (profile kind).schema parsed.document ∨
        HasMisspelled parsed.document (checkedPositions kind) ∨
          ¬HasMisspelled parsed.document (otherPositions kind) := by
  have hstage : schemaStage env (profile kind) parsed.document = .ok () ↔ _ :=
    schemaStage_eq_ok_iff_misspelled hasserts
  constructor
  · intro hcovered
    by_contra hcondition
    simp only [not_or, not_not] at hcondition
    obtain ⟨hvalid, hchecked, hother⟩ := hcondition
    obtain ⟨reason, h⟩ := (hcovered fun _ => .error .foreign).2
      (hasMisspelled_timestampPositions.mpr (.inr hother))
    exact verify_ne_schema_error hparsed (hstage.mpr ⟨hvalid, hchecked⟩) reason h
  · intro hcondition resolver
    -- past the schema stage no timestamp is misspelled
    have hnone (hok : schemaStage env (profile kind) parsed.document = .ok ()) :
        ¬HasMisspelled parsed.document (timestampPositions kind) := by
      obtain ⟨hvalid, hchecked⟩ := hstage.mp hok
      rw [hasMisspelled_timestampPositions, not_or]
      rcases hcondition with h | h | h
      · exact absurd hvalid h
      · exact absurd h hchecked
      · exact ⟨hchecked, h⟩
    constructor
    · intro verified hverified
      obtain ⟨hdocument, hok⟩ := schemaStage_of_verify hparsed hverified
      rw [hdocument]
      exact (holdsInstants_iff (hasserts.dateTime kind _ (hstage.mp hok).1)).mpr (hnone hok)
    · intro hmisspelled
      obtain ⟨reason, herror⟩ := schemaStage_eq_error (hasserts.answers kind parsed.document)
        fun hok => hnone hok hmisspelled
      exact ⟨reason, verify_of_schemaStage_error hparsed herror⟩

/-! ## An Agent Card that expires in a leap second -/

/-- The kinds whose schemas are looked at. -/
def kinds : List SignedDocumentKind := [
  .agentCard, .approval, .artifact, .command, .contextPackage, .event, .evidence,
  .extensionProfile, .groupSnapshot]

/-- What the schema of a kind says on timestamps. -/
def hasTimestamps (kind : SignedDocumentKind) (document : Json) : Bool :=
  document.isObject &&
    (checkedPositions kind).all (fun position => !(document.reach position).isEmpty) &&
    (timestampPositions kind).all fun position =>
      (document.reach position).all fun value => value.asString?.any Rfc3339.isDateTime

/-- A catalog that finds an instance valid if its timestamps are. -/
def timestampCatalog : Validate := fun schemaName document =>
  .ok ⟨kinds.all fun kind =>
    (profile kind).schema != schemaName || hasTimestamps kind document, none⟩

theorem hasTimestamps_of_validates {kind : SignedDocumentKind} {document : Json}
    (h : Validates timestampCatalog (profile kind).schema document) :
    hasTimestamps kind document = true := by
  obtain ⟨result, hresult, hvalid⟩ := h
  rw [← Except.ok.inj hresult] at hvalid
  have hkind : kind ∈ kinds := by cases kind <;> decide
  simpa using List.all_eq_true.mp hvalid kind hkind

/-- The Agent Card around its signature, in canonical form. -/
def leapSecondHead : Bytes := List.flatMap ascii [
  "\x7b\"agentId\":\"urn:mwp:agent:one\",\"capabilities\":[\x7b\"constraints\":\x7b\x7d,",
  "\"id\":\"tests.run\",\"inputSchema\":\"urn:mwp:schema:in\",\"inputSchemaHash\":\"sha256:",
  "0000000000000000000000000000000000000000000000000000000000000000\",",
  "\"outputSchema\":\"urn:mwp:schema:out\",\"outputSchemaHash\":\"sha256:",
  "0000000000000000000000000000000000000000000000000000000000000000\",",
  "\"verifiedEvidence\":[\"urn:mwp:evidence:one\"],\"version\":\"1.0.0\"\x7d],",
  "\"cardVersion\":1,\"displayName\":\"Agent One\",",
  "\"endpoints\":[\x7b\"transport\":\"wss\",\"uri\":\"wss://agents.example/one\"\x7d],",
  "\"issuedAt\":\"2026-07-16T01:00:00Z\",\"maxConcurrency\":1,",
  "\"organizationId\":\"urn:mwp:organization:acme\",",
  "\"owner\":\x7b\"id\":\"urn:mwp:human:one\",\"type\":\"human\"\x7d,",
  "\"protocolVersions\":[\"0.1\"],",
  "\"publicKeys\":[\x7b\"algorithm\":\"Ed25519\",\"keyId\":\"urn:mwp:key:two\",",
  "\"publicKey\":\"7D-keB5WWULuPx53Zwf9j2JVLLTq4btqsJE1ubL66Vk\",",
  "\"validFrom\":\"2026-07-16T00:00:00Z\"\x7d],"]

def leapSecondTail : Bytes := List.flatMap ascii [
  "\"status\":\"active\",\"validUntil\":\"2026-12-31T23:59:60Z\"\x7d"]

def leapSecondSignature : Ed25519Signature := [
  130, 246, 73, 11, 202, 60, 235, 129, 148, 199, 50, 84, 11, 7, 73, 158,
  245, 228, 154, 231, 188, 158, 214, 151, 217, 126, 85, 107, 162, 126, 178, 13,
  239, 49, 85, 208, 205, 219, 24, 183, 19, 197, 193, 173, 188, 234, 144, 166,
  37, 114, 202, 215, 196, 19, 160, 150, 190, 55, 223, 168, 51, 171, 82, 10]

def leapSecondCard : Bytes :=
  leapSecondHead ++
    List.flatMap ascii [
      "\"signature\":\x7b\"algorithm\":\"Ed25519\",",
      "\"createdAt\":\"2026-07-16T01:00:00Z\",\"keyId\":\"urn:mwp:key:one\",",
      "\"value\":\""] ++ base64urlEncode leapSecondSignature ++ ascii "\"\x7d," ++
    leapSecondTail

def leapSecondSigningDigest : Bytes := [
  191, 217, 97, 48, 154, 212, 1, 251, 5, 4, 176, 177, 89, 4, 205, 236,
  113, 50, 206, 112, 43, 6, 237, 93, 231, 133, 252, 30, 59, 21, 166, 173]

def leapSecondDigest : Bytes := [
  238, 154, 49, 5, 21, 47, 12, 116, 210, 243, 116, 180, 220, 33, 49, 7,
  48, 157, 92, 129, 154, 184, 139, 212, 238, 231, 253, 14, 16, 186, 210, 147]

/-- A registry with the key of the service that signed it. -/
def serviceRegistry : Bytes := List.flatMap ascii [
  "\x7b\"organizationId\":\"urn:mwp:organization:acme\",\"bindings\":[",
  "\x7b\"keyId\":\"urn:mwp:key:one\",\"algorithm\":\"Ed25519\",",
  "\"principal\":\x7b\"type\":\"service\",\"id\":\"urn:mwp:service:registry\"\x7d,",
  "\"publicKey\":\"11qYAYKxCrfVS_7TyWQHOg7hcvPapiMlrwIaaPcHURo\",",
  "\"validFrom\":\"2026-07-15T00:00:00Z\",\"validityHistory\":[]\x7d]\x7d"]

/-- What the libraries compute on the card. -/
def leapSecondEnvironment : Environment where
  jsonParse := referenceParse
  validate := timestampCatalog
  a2iIpAddress _ := none
  evpDigest bytes :=
    some (if bytes = leapSecondHead ++ leapSecondTail then leapSecondSigningDigest
      else leapSecondDigest)
  evpDigestVerify publicKey message signature :=
    .ok (if base64urlEncode publicKey = ascii "11qYAYKxCrfVS_7TyWQHOg7hcvPapiMlrwIaaPcHURo" ∧
        message = leapSecondHead ++ leapSecondTail ∧ signature = leapSecondSignature then 1 else 0)

theorem assertsTimestamps_leapSecond : AssertsTimestamps leapSecondEnvironment := by
  constructor
  · intro kind document
    exact ⟨_, rfl⟩
  · intro kind document hvalid
    have h := hasTimestamps_of_validates hvalid
    simp only [hasTimestamps, Bool.and_eq_true] at h
    exact h.1.1
  · intro kind document hvalid position hposition
    have h := hasTimestamps_of_validates hvalid
    simp only [hasTimestamps, Bool.and_eq_true, List.all_eq_true] at h
    simpa using h.1.2 position hposition
  · intro kind document hvalid position hposition value hvalue
    have h := hasTimestamps_of_validates hvalid
    simp only [hasTimestamps, Bool.and_eq_true, List.all_eq_true, Option.any_eq_true] at h
    obtain ⟨text, htext, hdateTime⟩ := h.2 position hposition value hvalue
    obtain ⟨t, rfl⟩ := (Rfc3339.isDateTime_iff text).mp hdateTime
    exact ⟨t, htext⟩

/-- The end of its validity. -/
def leapSecondText : Bytes := ascii "2026-12-31T23:59:60Z"

theorem parseInstant_leapSecondText (i : ExactInstant) :
    parseInstant leapSecondText ≠ .ok i := by
  have h : (parseInstant leapSecondText).isOk = false := by decide +kernel
  intro hi
  rw [hi] at h
  cases h

/-- The card is accepted, and its end of validity is no instant. -/
theorem timestamps_counterexample :
    ∃ verified validUntil,
      verify leapSecondEnvironment .agentCard leapSecondCard (completeResolver serviceRegistry) =
          .ok verified ∧
        [.member "validUntil"] ∈ timestampPositions .agentCard ∧
          validUntil ∈ verified.document.reach [.member "validUntil"] ∧
            validUntil.asString? = some leapSecondText ∧
              ∀ i, parseInstant leapSecondText ≠ .ok i := by
  have hok : (do
      let verified ← referenceVerify leapSecondEnvironment .agentCard leapSecondCard serviceRegistry
      .ok (decide (verified.document.reach [.member "validUntil"] =
        [.string leapSecondText]))) = Except.ok true := by
    decide +kernel
  obtain ⟨verified, hverified, hok⟩ := Except.bind_eq_ok.mp hok
  have hreach := of_decide_eq_true (Except.ok.inj hok)
  refine ⟨verified, .string leapSecondText, verify_of_referenceVerify rfl hverified,
    by decide, ?_, rfl, parseInstant_leapSecondText⟩
  rw [hreach]
  exact List.mem_singleton_self _

theorem covered_iff_sample :
    ∃ parsed, parseStage leapSecondEnvironment leapSecondCard = .ok parsed ∧
      ¬Covered leapSecondEnvironment .agentCard leapSecondCard parsed.document := by
  have hok : (do
      let document ← referenceParse leapSecondCard
      schemaStage leapSecondEnvironment (profile .agentCard) document
      .ok (decide (document.reach [.member "validUntil"] = [.string leapSecondText]))) =
        Except.ok true := by
    decide +kernel
  obtain ⟨document, hdocument, hok⟩ := Except.bind_eq_ok.mp hok
  obtain ⟨⟨⟩, hstage, hok⟩ := Except.bind_eq_ok.mp hok
  have hreach := of_decide_eq_true (Except.ok.inj hok)
  have hparsed : parseStage leapSecondEnvironment leapSecondCard = .ok ⟨document, false⟩ :=
    parseStage_of_referenceParse rfl hdocument
  obtain ⟨hvalid, hchecked⟩ :=
    (schemaStage_eq_ok_iff_misspelled assertsTimestamps_leapSecond).mp hstage
  obtain ⟨t, ht⟩ := (Rfc3339.isDateTime_iff leapSecondText).mp (by decide +kernel)
  have hmisspelled : t.Misspelled := by
    by_contra h
    obtain ⟨i, hi⟩ := t.exists_instant_iff.mpr h
    rw [ht] at hi
    exact parseInstant_leapSecondText i hi
  refine ⟨_, hparsed, fun hcovered => ?_⟩
  rcases (covered_iff leapSecondEnvironment assertsTimestamps_leapSecond .agentCard leapSecondCard
    _ hparsed).mp hcovered with h | h | h
  · exact h hvalid
  · exact hchecked h
  · refine h ⟨[.member "validUntil"], by decide, .string leapSecondText, ?_, t, ?_, hmisspelled⟩
    · rw [hreach]
      exact List.mem_singleton_self _
    · rw [ht]
      rfl

end SignedDocumentCodec

end MissionWeave
