import MissionWeave.Registry.Extension

/-!
# The boundaries that a registry states

A boundary of a key is stated by any status of any binding of the key.  The
key is valid until the earliest of them, so an instant is within the validity
of the key when it precedes all of them.

* `Precedes`: the instant precedes every stated boundary.
* `validAt_iff`: the validity of a resolved key.
* `resolve_iff_of_extends`: when an extension resolves what the registry
  resolves.
-/

namespace MissionWeave.Registry

/-- Some status of the key states the boundary. -/
def States (registry : Json) (keyId : Bytes) (field : String) (text : Bytes) : Prop :=
  ∃ raws, registry.member? "bindings" = some (.array raws) ∧
    ∃ raw ∈ raws, TextMember raw "keyId" keyId ∧
      ∃ statuses, raw.member? "validityHistory" = some (.array statuses) ∧
        ∃ status ∈ statuses, TextMember status field text

/-- The fields of a status that state boundaries. -/
def boundaryFields : List String := ["validUntil", "revokedAt"]

/-- The instant is strictly earlier than every `validUntil` and `revokedAt` that
the registry states for the key. -/
def Precedes (registry : Json) (keyId : Bytes) (instant : ExactInstant) : Prop :=
  ∀ field ∈ boundaryFields, ∀ text, States registry keyId field text →
    ∃ limit, parseInstant text = .ok limit ∧ instant.lt limit = true

section

variable {env : Environment} {registry : Json} {organizationId keyId : Bytes}
  {ds : List Declaration}

/-! ## Stated and recorded boundaries -/

/-- A boundary of the statuses, and the field that it is read from. -/
structure ReadFrom (field : String) (limit : ValidityStatus → Option ParsedBoundary) : Prop where
  reads : ∀ raw entry, ReadsStatus raw entry → ReadsBoundary raw field (limit entry.2)

theorem readFrom_validUntil : ReadFrom "validUntil" ValidityStatus.validUntil :=
  ⟨fun _ _ h => h.validUntil⟩

theorem readFrom_revokedAt : ReadFrom "revokedAt" ValidityStatus.revokedAt :=
  ⟨fun _ _ h => h.revokedAt⟩

variable {field : String} {limit : ValidityStatus → Option ParsedBoundary}

/-- What is stated is recorded. -/
theorem States.exists_recorded {text : Bytes} (h : States registry keyId field text)
    (hfield : ReadFrom field limit) (hds : Declared env registry organizationId ds) :
    ∃ e ∈ merged ds keyId, ∃ b ∈ limit e.2, b.text = text ∧ parseInstant text = .ok b.instant := by
  obtain ⟨raws, hmember, raw, hraw, hkeyId, statuses, hhistory, status, hstatus, htext⟩ := h
  obtain ⟨raws', hmember', _, hraws⟩ := hds.bindings
  rw [hmember, Option.some.injEq, Json.array.injEq] at hmember'
  subst hmember'
  obtain ⟨d, hd, hdeclares⟩ := Except.exists_read hraws hraw
  obtain ⟨statuses', hhistory', hstatuses⟩ := hdeclares.history
  rw [hhistory, Option.some.injEq, Json.array.injEq] at hhistory'
  subst hhistory'
  obtain ⟨e, he, hreads⟩ := Except.exists_read hstatuses hstatus
  have hboundary := hfield.reads _ _ hreads
  refine ⟨e, mem_merged.mpr ⟨d, hd, hdeclares.keyId.unique hkeyId, he⟩, ?_⟩
  cases hlimit : limit e.2 with
  | none =>
    rw [hlimit, ReadsBoundary, htext.contains] at hboundary
    cases hboundary
  | some b =>
    rw [hlimit] at hboundary
    have heq : b.text = text := hboundary.1.unique htext
    refine ⟨b, rfl, heq, ?_⟩
    rw [← heq]
    exact hboundary.2

/-- What is recorded is stated. -/
theorem states_of_recorded (hfield : ReadFrom field limit)
    (hds : Declared env registry organizationId ds) {e : Entry} (he : e ∈ merged ds keyId)
    {b : ParsedBoundary} (hb : b ∈ limit e.2) :
    States registry keyId field b.text ∧ parseInstant b.text = .ok b.instant := by
  obtain ⟨d, hd, hkey, he⟩ := mem_merged.mp he
  obtain ⟨raws, hmember, _, hraws⟩ := hds.bindings
  obtain ⟨raw, hraw, hdeclares⟩ := Except.exists_of_reads hraws hd
  obtain ⟨statuses, hhistory, hstatuses⟩ := hdeclares.history
  obtain ⟨status, hstatus, hreads⟩ := Except.exists_of_reads hstatuses he
  have hboundary := hfield.reads _ _ hreads
  rw [Option.mem_def.mp hb] at hboundary
  have hkeyId := hdeclares.keyId
  rw [hkey] at hkeyId
  exact ⟨⟨raws, hmember, raw, hraw, hkeyId, statuses, hhistory, status, hstatus, hboundary.1⟩,
    hboundary.2⟩

theorem forall_states_iff (hfield : ReadFrom field limit)
    (hds : Declared env registry organizationId ds) {instant : ExactInstant} :
    (∀ text, States registry keyId field text →
      ∃ limit, parseInstant text = .ok limit ∧ instant.lt limit = true) ↔
      ∀ e ∈ merged ds keyId, ∀ b ∈ limit e.2, instant.key < b.key := by
  constructor
  · intro h e he b hb
    obtain ⟨hstates, hinstant⟩ := states_of_recorded hfield hds he hb
    obtain ⟨l, hl, hlt⟩ := h b.text hstates
    obtain rfl := Except.ok.inj (hinstant.symm.trans hl)
    exact ExactInstant.lt_iff.mp hlt
  · intro h text hstates
    obtain ⟨e, he, b, hb, _, hinstant⟩ := hstates.exists_recorded hfield hds
    exact ⟨b.instant, hinstant, ExactInstant.lt_iff.mpr (h e he b hb)⟩

/-- The instants before all stated boundaries are those before all recorded
ones. -/
theorem precedes_iff (hds : Declared env registry organizationId ds) {instant : ExactInstant} :
    Precedes registry keyId instant ↔
      (∀ e ∈ merged ds keyId, ∀ b ∈ e.2.validUntil, instant.key < b.key) ∧
        ∀ e ∈ merged ds keyId, ∀ b ∈ e.2.revokedAt, instant.key < b.key := by
  rw [Precedes, boundaryFields, List.forall_mem_cons, List.forall_mem_singleton,
    forall_states_iff readFrom_validUntil hds, forall_states_iff readFrom_revokedAt hds]

/-! ## The validity of a resolved key -/

/-- The key is valid from its start, and before all boundaries that the registry
states. -/
theorem validAt_iff (hds : Declared env registry organizationId ds) {d : Declaration}
    {resolution : RegistryKeyResolution} (h : Resolves organizationId ds d resolution)
    (time : ExactInstant) :
    resolution.resolvedKey.ValidAt time ↔
      time.lt d.validFromInstant = false ∧ Precedes registry d.keyId time := by
  rw [precedes_iff hds, ← h.validUntil.lt_iff, ← h.revokedAt.lt_iff, ← h.validFromInstant]
  exact ⟨fun hvalid => ⟨hvalid.validFrom, hvalid.validUntil, hvalid.revokedAt⟩,
    fun hvalid => ⟨hvalid.1, hvalid.2.1, hvalid.2.2⟩⟩

end

/-! ## What an extension resolves -/

section

variable {env : Environment} {registry registry' : Json} {organizationId organizationId' : Bytes}
  {ds ds' : List Declaration} {request : KeyResolutionRequest}

theorem Selects.hasBinding {d : Declaration} (h : Selects request ds d)
    (hds : Declared env registry organizationId ds) : HasBinding registry request.keyId := by
  obtain ⟨raws, hmember, _, hraws⟩ := hds.bindings
  obtain ⟨raw, hraw, hdeclares⟩ := Except.exists_of_reads hraws h.declared
  have hkeyId := hdeclares.keyId
  rw [h.keyId] at hkeyId
  exact ⟨raws, hmember, raw, hraw, hkeyId⟩

/-- What the registry selects, an extension selects unless it states a boundary
that has been reached. -/
theorem Selects.exists_of_repeats {d : Declaration} (h : Selects request ds d)
    (hrepeats : ∀ d ∈ ds, ∃ d' ∈ ds', Repeats d d')
    (hds' : Declared env registry' organizationId' ds')
    (hprecedes : Precedes registry' request.keyId request.protectedInstant) :
    ∃ d', Selects request ds' d' := by
  obtain ⟨d', hd', hrepeat⟩ := hrepeats d h.declared
  obtain ⟨hvalidUntil, hrevokedAt⟩ := (precedes_iff hds').mp hprecedes
  refine ⟨d', hd', hrepeat.keyId.trans h.keyId, ?_, ?_, hvalidUntil, hrevokedAt⟩
  · rw [hrepeat.principal]
    exact h.principal
  · rw [hrepeat.validFromInstant]
    exact h.validFrom

/-- An evaluated extension resolves the same key for the same request, as long
as no boundary that it states has been reached at the protected instant.  The
key is then valid as long as no boundary that it states has been reached. -/
theorem resolve_iff_of_extends {registryBytes registryBytes' : Bytes}
    (hparse : env.parseStrictJson registryBytes = .ok registry)
    (hparse' : env.parseStrictJson registryBytes' = .ok registry')
    (hextends : Extends registry registry')
    (hevaluated' : ∃ result, evaluateRegistry env registry' = .ok result)
    {resolution : RegistryKeyResolution}
    (h : resolveAgentRegistryKey env registryBytes request = .ok resolution) :
    ((∃ resolution', resolveAgentRegistryKey env registryBytes' request = .ok resolution') ↔
      Precedes registry' request.keyId request.protectedInstant) ∧
    ∀ resolution', resolveAgentRegistryKey env registryBytes' request = .ok resolution' →
      Narrows resolution resolution' ∧ ∀ time, resolution.resolvedKey.ValidAt time →
        (resolution'.resolvedKey.ValidAt time ↔ Precedes registry' request.keyId time) := by
  rw [resolveAgentRegistryKey, hparse, Except.ok_bind] at h
  rw [resolveAgentRegistryKey, hparse', Except.ok_bind]
  obtain ⟨⟨organizationId, folded⟩, heval, h⟩ := Except.bind_eq_ok.mp h
  obtain ⟨⟨organizationId', folded'⟩, heval'⟩ := hevaluated'
  rw [heval', Except.ok_bind]
  obtain ⟨ds, hvalid, hfolded⟩ := valid_of_evaluateRegistry heval
  obtain ⟨ds', hvalid', hfolded'⟩ := valid_of_evaluateRegistry heval'
  obtain ⟨d, hselects, hresolves⟩ := selects_of_selectKey hfolded h
  refine ⟨⟨?_, fun hprecedes => ?_⟩, fun resolution' h' => ?_⟩
  · rintro ⟨resolution', h'⟩
    obtain ⟨d', hselects', _⟩ := selects_of_selectKey hfolded' h'
    exact (precedes_iff hvalid'.declared).mpr ⟨hselects'.validUntil, hselects'.revokedAt⟩
  · obtain ⟨d', hselects'⟩ := hselects.exists_of_repeats
      (hextends.exists_repeats hvalid.declared hvalid'.declared) hvalid'.declared hprecedes
    exact exists_selectKey hvalid'.unique hfolded' hselects'
  · obtain ⟨resolution₁, h₁, hnarrows⟩ := exists_selectKey_of_extends hextends heval heval'
      (hselects.hasBinding hvalid.declared) h'
    obtain rfl := Except.ok.inj (h.symm.trans h₁)
    obtain ⟨d', hselects', hresolves'⟩ := selects_of_selectKey hfolded' h'
    refine ⟨hnarrows, fun time htime => ?_⟩
    have hstart := htime.validFrom
    have hequals := ExactInstant.equals_iff.mp hnarrows.validFromInstant
    rw [hresolves'.validFromInstant] at hequals
    rw [← Bool.not_eq_true, ExactInstant.lt_iff, ← hequals, ← ExactInstant.lt_iff,
      Bool.not_eq_true] at hstart
    rw [validAt_iff hvalid'.declared hresolves', hselects'.keyId]
    exact ⟨fun hvalidAt => hvalidAt.2, fun hprecedes => ⟨hstart, hprecedes⟩⟩

end

end MissionWeave.Registry
