import MissionWeave.Registry.Resolve

/-!
# What a registry declares

The declarative reading of a raw registry: which JSON values are a binding or a
validity status, and what they declare.  The functions of the source return
exactly on these values.

* `parseStatus_eq_ok`, `parseBinding_eq_ok`: the reading functions.
* `addBinding_eq_ok`: the body of the loop over the bindings reads a
  declaration and enters it into the maps.
-/

namespace MissionWeave.Registry

/-! ## Objects and members -/

/-- An object that has the required members, and no others than the allowed
ones. -/
structure ExactObject (value : Json) (required allowed : List String) : Prop where
  object : value.isObject = true
  required : ∀ field ∈ required, value.contains field = true
  allowed : ∀ m ∈ value.members, m.1 ∈ allowed.map ascii

theorem requireExactObject_eq_ok {value : Json} {required allowed : List String} {label : String} :
    requireExactObject value required allowed label = .ok () ↔
      ExactObject value required allowed := by
  rw [requireExactObject]
  by_cases hobject : value.isObject = true
  · rw [if_neg (not_not.mpr hobject)]
    cases hmissing : required.find? fun field => !value.contains field with
    | some field =>
      refine ⟨fun h => (nomatch h), fun h => ?_⟩
      have hfalse := List.find?_some hmissing
      rw [h.required field (List.mem_of_find?_eq_some hmissing)] at hfalse
      cases hfalse
    | none =>
      have hrequired : ∀ field ∈ required, value.contains field = true := fun field hfield => by
        have := List.find?_eq_none.mp hmissing field hfield
        simpa using this
      cases hunknown : value.members.find? fun m => !(allowed.map ascii).contains m.1 with
      | some m =>
        refine ⟨fun h => (nomatch h), fun h => ?_⟩
        have hfalse := List.find?_some hunknown
        rw [List.contains_iff_mem.mpr (h.allowed m (List.mem_of_find?_eq_some hunknown))] at hfalse
        cases hfalse
      | none =>
        refine ⟨fun _ => ⟨hobject, hrequired, fun m hm => ?_⟩, fun _ => rfl⟩
        have := List.find?_eq_none.mp hunknown m hm
        simpa using this
  · rw [if_pos hobject]
    exact ⟨fun h => (nomatch h), fun h => absurd h.object hobject⟩

theorem requiredText_eq_ok {object : Json} {field : String} {text : Bytes} :
    requiredText object field = .ok text ↔ TextMember object field text :=
  requiredStringField_eq_ok

theorem requiredProtocolUri_eq_ok {env : Environment} {object : Json} {field : String}
    {text : Bytes} :
    requiredProtocolUri env object field = .ok text ↔
      TextMember object field text ∧ env.isProtocolUri text = true := by
  rw [requiredProtocolUri, Except.bind_eq_ok]
  constructor
  · rintro ⟨value, hvalue, h⟩
    split_ifs at h with huri
    rw [← Except.ok.inj h]
    exact ⟨requiredText_eq_ok.mp hvalue, huri⟩
  · rintro ⟨hvalue, huri⟩
    exact ⟨text, requiredText_eq_ok.mpr hvalue, if_pos huri⟩

/-! ## Validity statuses -/

/-- An optional boundary. -/
def ReadsBoundary (status : Json) (name : String) : Option ParsedBoundary → Prop
  | none => status.contains name = false
  | some limit => TextMember status name limit.text ∧ parseInstant limit.text = .ok limit.instant

/-- The raw status reads as a status with a sequence number. -/
structure ReadsStatus (raw : Json) (entry : Nat × ValidityStatus) : Prop where
  exact : ExactObject raw statusRequiredFields statusAllowedFields
  sequence : ∃ value, raw.member? "sequence" = some value ∧ value.asUint64? = some entry.1
  range : 1 ≤ entry.1 ∧ entry.1 ≤ maximumSequence
  recordedAt : ∃ text, TextMember raw "recordedAt" text ∧
    parseInstant text = .ok entry.2.recordedAt
  validUntil : ReadsBoundary raw "validUntil" entry.2.validUntil
  revokedAt : ReadsBoundary raw "revokedAt" entry.2.revokedAt

theorem boundary_eq_ok {status : Json} {name : String} {limit : Option ParsedBoundary} :
    boundary status name = .ok limit ↔ ReadsBoundary status name limit := by
  rw [boundary]
  by_cases hcontains : status.contains name = true
  · rw [if_pos hcontains]
    constructor
    · intro h
      obtain ⟨text, htext, h⟩ := Except.bind_eq_ok.mp h
      obtain ⟨instant, hinstant, h⟩ := Except.bind_eq_ok.mp h
      rw [← Except.ok.inj h]
      exact ⟨requiredText_eq_ok.mp htext, hinstant⟩
    · intro h
      cases limit with
      | none =>
        rw [ReadsBoundary, hcontains] at h
        cases h
      | some limit =>
        rw [requiredText_eq_ok.mpr h.1, Except.ok_bind, h.2, Except.ok_bind]
  · rw [if_neg hcontains]
    cases limit with
    | none => exact ⟨fun _ => Bool.eq_false_iff.mpr hcontains, fun _ => rfl⟩
    | some limit => exact ⟨fun h => (nomatch h), fun h => absurd h.1.contains hcontains⟩

theorem parseStatus_eq_ok {raw : Json} {entry : Nat × ValidityStatus} :
    parseStatus raw = .ok entry ↔ ReadsStatus raw entry := by
  constructor
  · intro h
    obtain ⟨⟨⟩, hexact, h⟩ := Except.bind_eq_ok.mp h
    cases hsequence : (raw.member? "sequence").bind Json.asUint64? with
    | none =>
      rw [hsequence] at h
      cases h
    | some sequence =>
      rw [hsequence] at h
      dsimp only at h
      split_ifs at h with hrange
      obtain ⟨text, htext, h⟩ := Except.bind_eq_ok.mp h
      obtain ⟨recordedAt, hrecordedAt, h⟩ := Except.bind_eq_ok.mp h
      obtain ⟨validUntil, hvalidUntil, h⟩ := Except.bind_eq_ok.mp h
      obtain ⟨revokedAt, hrevokedAt, h⟩ := Except.bind_eq_ok.mp h
      rw [← Except.ok.inj h]
      exact ⟨requireExactObject_eq_ok.mp hexact, Option.bind_eq_some_iff.mp hsequence,
        ⟨by omega, by omega⟩, ⟨text, requiredText_eq_ok.mp htext, hrecordedAt⟩,
        boundary_eq_ok.mp hvalidUntil, boundary_eq_ok.mp hrevokedAt⟩
  · rintro ⟨hexact, hsequence, hrange, ⟨text, htext, hrecordedAt⟩, hvalidUntil, hrevokedAt⟩
    rw [parseStatus, requireExactObject_eq_ok.mpr hexact, Except.ok_bind,
      Option.bind_eq_some_iff.mpr hsequence]
    dsimp only
    rw [if_neg (by omega), requiredText_eq_ok.mpr htext, Except.ok_bind, hrecordedAt,
      Except.ok_bind, boundary_eq_ok.mpr hvalidUntil, Except.ok_bind,
      boundary_eq_ok.mpr hrevokedAt, Except.ok_bind]

/-! ## Bindings -/

/-- What a raw binding declares. -/
structure Declaration where
  keyId : Bytes
  principal : Principal
  algorithm : Bytes
  publicKey : Bytes
  publicKeyBytes : Ed25519PublicKey
  validFrom : Bytes
  validFromInstant : ExactInstant
  statuses : List (Nat × ValidityStatus)

/-- The binding that `try_emplace` stores for a declaration. -/
def Declaration.candidate (d : Declaration) : NormalizedBinding :=
  ⟨d.keyId, d.principal, d.algorithm, d.publicKey, d.publicKeyBytes, d.validFrom,
    d.validFromInstant, ∅, none, none⟩

/-- The raw principal reads as a principal. -/
structure ReadsPrincipal (env : Environment) (raw : Json) (principal : Principal) : Prop where
  exact : ExactObject raw principalFields principalFields
  type : TextMember raw "type" principal.type
  id : TextMember raw "id" principal.id
  uri : env.isProtocolUri principal.id = true
  supported : principal.type ∈ principalTypes

/-- The raw binding declares what does not depend on its history. -/
structure ReadsImmutable (env : Environment) (raw : Json) (d : Declaration) : Prop where
  exact : ExactObject raw bindingFields bindingFields
  keyId : TextMember raw "keyId" d.keyId
  keyIdUri : env.isProtocolUri d.keyId = true
  principal : ∃ value, raw.member? "principal" = some value ∧ ReadsPrincipal env value d.principal
  algorithm : TextMember raw "algorithm" d.algorithm
  ed25519 : d.algorithm = ascii "Ed25519"
  publicKey : TextMember raw "publicKey" d.publicKey
  publicKeyBytes : decodeStrictEd25519PublicKey d.publicKey = .ok d.publicKeyBytes
  validFrom : TextMember raw "validFrom" d.validFrom
  validFromInstant : parseInstant d.validFrom = .ok d.validFromInstant

/-- The raw binding is a declaration. -/
structure Declares (env : Environment) (raw : Json) (d : Declaration) : Prop
    extends ReadsImmutable env raw d where
  history : ∃ statuses, raw.member? "validityHistory" = some (.array statuses) ∧
    List.Forall₂ ReadsStatus statuses d.statuses

variable {env : Environment} {raw : Json}

theorem parseBinding_eq_ok {candidate : NormalizedBinding} :
    parseBinding env raw = .ok candidate ↔
      ∃ d, ReadsImmutable env raw d ∧ d.candidate = candidate := by
  constructor
  · intro h
    obtain ⟨⟨⟩, hexact, h⟩ := Except.bind_eq_ok.mp h
    obtain ⟨keyId, hkeyId, h⟩ := Except.bind_eq_ok.mp h
    obtain ⟨rawPrincipal, hprincipal, h⟩ := Except.bind_eq_ok.mp h
    obtain ⟨⟨⟩, hexactPrincipal, h⟩ := Except.bind_eq_ok.mp h
    obtain ⟨type, htype, h⟩ := Except.bind_eq_ok.mp h
    obtain ⟨id, hid, h⟩ := Except.bind_eq_ok.mp h
    split_ifs at h with hsupported
    obtain ⟨algorithm, halgorithm, h⟩ := Except.bind_eq_ok.mp h
    split_ifs at h with hed25519
    obtain ⟨publicKey, hpublicKey, h⟩ := Except.bind_eq_ok.mp h
    obtain ⟨publicKeyBytes, hpublicKeyBytes, h⟩ := Except.bind_eq_ok.mp h
    obtain ⟨validFrom, hvalidFrom, h⟩ := Except.bind_eq_ok.mp h
    obtain ⟨validFromInstant, hvalidFromInstant, h⟩ := Except.bind_eq_ok.mp h
    rw [requiredProtocolUri_eq_ok] at hkeyId hid
    refine ⟨⟨keyId, ⟨type, id⟩, algorithm, publicKey, publicKeyBytes, validFrom,
      validFromInstant, []⟩, ?_, Except.ok.inj h⟩
    exact ⟨requireExactObject_eq_ok.mp hexact, hkeyId.1, hkeyId.2,
      ⟨rawPrincipal, Json.at'_eq_ok.mp hprincipal,
        ⟨requireExactObject_eq_ok.mp hexactPrincipal, requiredText_eq_ok.mp htype, hid.1, hid.2,
          hsupported⟩⟩,
      requiredText_eq_ok.mp halgorithm, not_not.mp hed25519, requiredText_eq_ok.mp hpublicKey,
      hpublicKeyBytes, requiredText_eq_ok.mp hvalidFrom, hvalidFromInstant⟩
  · rintro ⟨d, h, rfl⟩
    obtain ⟨value, hvalue, hprincipal⟩ := h.principal
    rw [parseBinding, requireExactObject_eq_ok.mpr h.exact, Except.ok_bind,
      requiredProtocolUri_eq_ok.mpr ⟨h.keyId, h.keyIdUri⟩, Except.ok_bind,
      Json.at'_eq_ok.mpr hvalue, Except.ok_bind, requireExactObject_eq_ok.mpr hprincipal.exact,
      Except.ok_bind, requiredText_eq_ok.mpr hprincipal.type, Except.ok_bind,
      requiredProtocolUri_eq_ok.mpr ⟨hprincipal.id, hprincipal.uri⟩, Except.ok_bind,
      if_neg (not_not.mpr hprincipal.supported), requiredText_eq_ok.mpr h.algorithm,
      Except.ok_bind, if_neg (not_not.mpr h.ed25519), requiredText_eq_ok.mpr h.publicKey,
      Except.ok_bind, h.publicKeyBytes, Except.ok_bind, requiredText_eq_ok.mpr h.validFrom,
      Except.ok_bind, h.validFromInstant, Except.ok_bind]
    rfl

/-- Entering a declaration into the maps. -/
def declare (maps : Maps) (d : Declaration) : Except Thrown Maps := do
  checkCandidate maps d.candidate
  let binding := maps.bindings.getD d.keyId d.candidate
  let history ← d.statuses.foldlM enterStatus binding.history
  .ok ⟨maps.bindings.insert d.keyId { binding with history := history },
    maps.publicKeyOwners.insertIfNew d.publicKeyBytes d.candidate.owner,
    maps.tupleIds.insertIfNew d.candidate.tuple d.keyId⟩

theorem addStatus_eq_ok {history history' : History} {status : Json} :
    addStatus history status = .ok history' ↔
      ∃ entry, ReadsStatus status entry ∧ enterStatus history entry = .ok history' := by
  rw [addStatus, Except.bind_eq_ok]
  simp only [parseStatus_eq_ok]

theorem addStatuses_eq_ok {history history' : History} {statuses : List Json} :
    statuses.foldlM addStatus history = .ok history' ↔
      ∃ entries, List.Forall₂ ReadsStatus statuses entries ∧
        entries.foldlM enterStatus history = .ok history' :=
  Except.foldlM_eq_ok_of_read (f := addStatus) (g := enterStatus) fun _ _ _ => addStatus_eq_ok

theorem eq_array_of_isArray {v : Json} (h : v.isArray = true) : v = .array v.elements := by
  cases v with
  | array xs => rfl
  | _ => cases h

/-- The body of the loop over the bindings reads a declaration and enters it. -/
theorem addBinding_eq_ok {maps maps' : Maps} :
    addBinding env maps raw = .ok maps' ↔
      ∃ d, Declares env raw d ∧ declare maps d = .ok maps' := by
  constructor
  · intro h
    obtain ⟨candidate, hcandidate, h⟩ := Except.bind_eq_ok.mp h
    obtain ⟨⟨⟩, hcheck, h⟩ := Except.bind_eq_ok.mp h
    obtain ⟨validityHistory, hmember, h⟩ := Except.bind_eq_ok.mp h
    split_ifs at h with harray
    obtain ⟨history, hhistory, h⟩ := Except.bind_eq_ok.mp h
    obtain ⟨statuses, hstatuses, hrun⟩ := addStatuses_eq_ok.mp hhistory
    obtain ⟨d, hd, rfl⟩ := parseBinding_eq_ok.mp hcandidate
    have himmutable : ReadsImmutable env raw { d with statuses := statuses } :=
      ⟨hd.exact, hd.keyId, hd.keyIdUri, hd.principal, hd.algorithm, hd.ed25519, hd.publicKey,
        hd.publicKeyBytes, hd.validFrom, hd.validFromInstant⟩
    rw [eq_array_of_isArray harray, Json.at'_eq_ok] at hmember
    refine ⟨{ d with statuses := statuses }, ⟨himmutable, _, hmember, hstatuses⟩, ?_⟩
    rw [declare]
    exact Except.bind_eq_ok.mpr ⟨(), hcheck, Except.bind_eq_ok.mpr ⟨history, hrun, h⟩⟩
  · rintro ⟨d, hd, h⟩
    obtain ⟨⟨⟩, hcheck, h⟩ := Except.bind_eq_ok.mp h
    obtain ⟨history, hrun, h⟩ := Except.bind_eq_ok.mp h
    obtain ⟨statuses, hmember, hstatuses⟩ := hd.history
    have hguard : ¬¬(Json.array statuses).isArray = true := not_not.mpr rfl
    have hhistory := addStatuses_eq_ok.mpr ⟨d.statuses, hstatuses, hrun⟩
    rw [addBinding, parseBinding_eq_ok.mpr ⟨d, hd.toReadsImmutable, rfl⟩, Except.ok_bind, hcheck,
      Except.ok_bind, Json.at'_eq_ok.mpr hmember, Except.ok_bind, if_neg hguard]
    exact Except.bind_eq_ok.mpr ⟨history, hhistory, h⟩

/-! ## The whole registry -/

theorem addBindings_eq_ok {maps maps' : Maps} {raws : List Json} :
    raws.foldlM (addBinding env) maps = .ok maps' ↔
      ∃ ds, List.Forall₂ (Declares env) raws ds ∧ ds.foldlM declare maps = .ok maps' :=
  Except.foldlM_eq_ok_of_read (f := addBinding env) (g := declare) fun _ _ _ => addBinding_eq_ok

/-- The root of a registry holds the declarations. -/
structure Declared (env : Environment) (registry : Json) (organizationId : Bytes)
    (ds : List Declaration) : Prop where
  exact : ExactObject registry rootFields rootFields
  organization : TextMember registry "organizationId" organizationId
  uri : env.isProtocolUri organizationId = true
  bindings : ∃ raws, registry.member? "bindings" = some (.array raws) ∧ raws ≠ [] ∧
    List.Forall₂ (Declares env) raws ds

/-- The registry is evaluated by entering its declarations and folding the
histories. -/
theorem evaluateRegistry_eq_ok {registry : Json} {organizationId : Bytes} {folded : Bindings} :
    evaluateRegistry env registry = .ok (organizationId, folded) ↔
      ∃ ds maps, Declared env registry organizationId ds ∧ ds.foldlM declare Maps.empty = .ok maps ∧
        foldBindings maps.bindings = .ok folded := by
  constructor
  · intro h
    obtain ⟨⟨⟩, hexact, h⟩ := Except.bind_eq_ok.mp h
    obtain ⟨organization, horganization, h⟩ := Except.bind_eq_ok.mp h
    obtain ⟨bindings, hbindings, h⟩ := Except.bind_eq_ok.mp h
    split_ifs at h with harray
    obtain ⟨maps, hmaps, h⟩ := Except.bind_eq_ok.mp h
    obtain ⟨result, hfolded, h⟩ := Except.bind_eq_ok.mp h
    obtain ⟨ds, hds, hrun⟩ := addBindings_eq_ok.mp hmaps
    obtain ⟨rfl, rfl⟩ := Prod.mk.inj (Except.ok.inj h)
    rw [not_or, not_not] at harray
    rw [eq_array_of_isArray harray.1, Json.at'_eq_ok] at hbindings
    rw [requiredProtocolUri_eq_ok] at horganization
    exact ⟨ds, maps, ⟨requireExactObject_eq_ok.mp hexact, horganization.1, horganization.2,
      ⟨_, hbindings, harray.2, hds⟩⟩, hrun, hfolded⟩
  · rintro ⟨ds, maps, ⟨hexact, horganization, huri, raws, hbindings, hraws, hds⟩, hrun, hfolded⟩
    have hmaps := addBindings_eq_ok.mpr ⟨ds, hds, hrun⟩
    have hguard : ¬(¬(Json.array raws).isArray = true ∨ (Json.array raws).elements = []) :=
      not_or.mpr ⟨not_not.mpr rfl, hraws⟩
    rw [evaluateRegistry, requireExactObject_eq_ok.mpr hexact, Except.ok_bind,
      requiredProtocolUri_eq_ok.mpr ⟨horganization, huri⟩, Except.ok_bind,
      Json.at'_eq_ok.mpr hbindings, Except.ok_bind, if_neg hguard]
    exact Except.bind_eq_ok.mpr ⟨maps, hmaps, Except.bind_eq_ok.mpr ⟨folded, hfolded, rfl⟩⟩

end MissionWeave.Registry
