import MissionWeave.Registry.Spec

/-!
# Append-only extensions of a registry

A registry is extended by adding statuses to the histories of its bindings, and
by adding bindings.  The added bindings may declare keys again that the
registry has already, with further statuses.

* `merged_subset`: an extension keeps every status of every key.
* `resolve_of_extension`: what the extension resolves, the registry did, and
  for no shorter time.
-/

namespace MissionWeave.Registry

open AppendOnly

/-! ## Extensions -/

/-- The binding is kept up to its history, which keeps all its statuses. -/
structure ExtendsBinding (raw raw' : Json) : Prop where
  immutable : ∀ field ∈ bindingFields, field ≠ "validityHistory" →
    raw'.member? field = raw.member? field
  history : ∃ statuses statuses', raw.member? "validityHistory" = some (.array statuses) ∧
    raw'.member? "validityHistory" = some (.array statuses') ∧ statuses ⊆ statuses'

/-- The registry keeps its organization, and all its bindings. -/
structure Extends (registry registry' : Json) : Prop where
  organizationId : registry'.member? "organizationId" = registry.member? "organizationId"
  bindings : ∃ raws raws', registry.member? "bindings" = some (.array raws) ∧
    registry'.member? "bindings" = some (.array raws') ∧
      ∀ raw ∈ raws, ∃ raw' ∈ raws', ExtendsBinding raw raw'

/-- Some binding of the registry has the key id. -/
def HasBinding (registry : Json) (keyId : Bytes) : Prop :=
  ∃ raws, registry.member? "bindings" = some (.array raws) ∧
    ∃ raw ∈ raws, TextMember raw "keyId" keyId

theorem ExtendsBinding.refl {raw : Json} {statuses : List Json}
    (h : raw.member? "validityHistory" = some (.array statuses)) : ExtendsBinding raw raw where
  immutable _ _ _ := rfl
  history := ⟨statuses, statuses, h, h, List.Subset.refl statuses⟩

/-! ## What an extension declares -/

/-- A raw status is read in one way. -/
theorem ReadsStatus.unique {raw : Json} {entry entry' : Entry} (h : ReadsStatus raw entry)
    (h' : ReadsStatus raw entry') : entry = entry' := by
  rw [← parseStatus_eq_ok] at h h'
  exact Except.ok.inj (h.symm.trans h')

/-- The declaration is repeated, with all its statuses. -/
structure Repeats (d d' : Declaration) : Prop where
  keyId : d'.keyId = d.keyId
  principal : d'.principal = d.principal
  publicKeyBytes : d'.publicKeyBytes = d.publicKeyBytes
  validFromInstant : d'.validFromInstant = d.validFromInstant
  statuses : d.statuses ⊆ d'.statuses

section

variable {env : Environment} {raw raw' : Json} {d d' : Declaration}

theorem ReadsPrincipal.unique {value : Json} {principal principal' : Principal}
    (h : ReadsPrincipal env value principal) (h' : ReadsPrincipal env value principal') :
    principal = principal' :=
  Principal.ext (h.type.unique h'.type) (h.id.unique h'.id)

/-- An extended binding repeats the declaration. -/
theorem ExtendsBinding.repeats (h : ExtendsBinding raw raw') (hd : Declares env raw d)
    (hd' : Declares env raw' d') : Repeats d d' := by
  have htext {field : String} {text text' : Bytes} (hfield : field ∈ bindingFields)
      (hne : field ≠ "validityHistory") (ht : TextMember raw field text)
      (ht' : TextMember raw' field text') : text' = text :=
    ht'.unique (ht.congr (h.immutable field hfield hne))
  have hpublicKey : d'.publicKey = d.publicKey :=
    htext (by decide) (by decide) hd.publicKey hd'.publicKey
  have hvalidFrom : d'.validFrom = d.validFrom :=
    htext (by decide) (by decide) hd.validFrom hd'.validFrom
  have hbytes := hd'.publicKeyBytes
  have hinstant := hd'.validFromInstant
  rw [hpublicKey, hd.publicKeyBytes] at hbytes
  rw [hvalidFrom, hd.validFromInstant] at hinstant
  refine ⟨htext (by decide) (by decide) hd.keyId hd'.keyId, ?_, (Except.ok.inj hbytes).symm,
    (Except.ok.inj hinstant).symm, fun entry hentry => ?_⟩
  · obtain ⟨value, hvalue, hprincipal⟩ := hd.principal
    obtain ⟨value', hvalue', hprincipal'⟩ := hd'.principal
    rw [h.immutable "principal" (by decide) (by decide), hvalue, Option.some.injEq] at hvalue'
    subst hvalue'
    exact hprincipal'.unique hprincipal
  · obtain ⟨statuses, hmember, hstatuses⟩ := hd.history
    obtain ⟨statuses', hmember', hstatuses'⟩ := hd'.history
    obtain ⟨olds, news, holds, hnews, hsub⟩ := h.history
    rw [hmember, Option.some.injEq, Json.array.injEq] at holds
    rw [hmember', Option.some.injEq, Json.array.injEq] at hnews
    subst holds hnews
    obtain ⟨status, hstatus, hreads⟩ := Except.exists_of_reads hstatuses hentry
    obtain ⟨entry', hentry', hreads'⟩ := Except.exists_read hstatuses' (hsub hstatus)
    rwa [hreads.unique hreads']

end

section

variable {env : Environment} {registry registry' : Json} {organizationId organizationId' : Bytes}
  {ds ds' : List Declaration}

/-- Every declaration of a registry is repeated in its extension. -/
theorem Extends.exists_repeats (h : Extends registry registry')
    (hds : Declared env registry organizationId ds)
    (hds' : Declared env registry' organizationId' ds') :
    ∀ d ∈ ds, ∃ d' ∈ ds', Repeats d d' := by
  intro d hd
  obtain ⟨raws, hmember, _, hraws⟩ := hds.bindings
  obtain ⟨raws', hmember', _, hraws'⟩ := hds'.bindings
  obtain ⟨olds, news, holds, hnews, hextends⟩ := h.bindings
  rw [hmember, Option.some.injEq, Json.array.injEq] at holds
  rw [hmember', Option.some.injEq, Json.array.injEq] at hnews
  subst holds hnews
  obtain ⟨raw, hraw, hdeclares⟩ := Except.exists_of_reads hraws hd
  obtain ⟨raw', hraw', hbinding⟩ := hextends raw hraw
  obtain ⟨d', hd', hdeclares'⟩ := Except.exists_read hraws' hraw'
  exact ⟨d', hd', hbinding.repeats hdeclares hdeclares'⟩

/-- An extension keeps every status of every key. -/
theorem merged_subset (h : ∀ d ∈ ds, ∃ d' ∈ ds', Repeats d d') (keyId : Bytes) :
    merged ds keyId ⊆ merged ds' keyId := by
  intro e he
  obtain ⟨d, hd, hkey, he⟩ := mem_merged.mp he
  obtain ⟨d', hd', hrepeats⟩ := h d hd
  exact mem_merged.mpr ⟨d', hd', hrepeats.keyId.trans hkey, hrepeats.statuses he⟩

theorem HasBinding.exists_declaration {keyId : Bytes} (h : HasBinding registry keyId)
    (hds : Declared env registry organizationId ds) : ∃ d ∈ ds, d.keyId = keyId := by
  obtain ⟨olds, holds, raw, hraw, hkeyId⟩ := h
  obtain ⟨raws, hmember, _, hraws⟩ := hds.bindings
  rw [hmember, Option.some.injEq, Json.array.injEq] at holds
  subst holds
  obtain ⟨d, hd, hdeclares⟩ := Except.exists_read hraws hraw
  exact ⟨d, hd, hdeclares.keyId.unique hkeyId⟩

end

/-! ## What an extension resolves -/

/-- What the extension selects, the registry selects. -/
theorem exists_selects {request : KeyResolutionRequest} {ds ds' : List Declaration}
    {d d' : Declaration} (hunique : Unique ds') (hrepeats : ∀ d ∈ ds, ∃ d' ∈ ds', Repeats d d')
    (hd : d ∈ ds) (hkey : d.keyId = request.keyId) (h : Selects request ds' d') :
    Selects request ds d ∧ d'.principal = d.principal ∧ d'.publicKeyBytes = d.publicKeyBytes ∧
      d'.validFromInstant.key = d.validFromInstant.key := by
  obtain ⟨c, hc, hrepeat⟩ := hrepeats d hd
  obtain ⟨hprincipal, _, hbytes, hfrom⟩ := hunique.keyIds d' h.declared c hc
    (h.keyId.trans (hrepeat.keyId.trans hkey).symm)
  rw [hrepeat.principal] at hprincipal
  rw [hrepeat.publicKeyBytes] at hbytes
  rw [hrepeat.validFromInstant] at hfrom
  have hselected := h.principal
  have hstart := h.validFrom
  rw [hprincipal] at hselected
  rw [hfrom] at hstart
  have hsub := merged_subset hrepeats request.keyId
  exact ⟨⟨hd, hkey, hselected, hstart, fun e he => h.validUntil e (hsub he),
    fun e he => h.revokedAt e (hsub he)⟩, hprincipal, hbytes, hfrom⟩

/-- A boundary that is in force stays in force, and does not become later. -/
def KeepsBoundary (text text' : Option Bytes) (instant instant' : Option ExactInstant) : Prop :=
  (text.isSome → text'.isSome) ∧ ∀ limit ∈ instant, ∃ limit' ∈ instant', limit.lt limit' = false

/-- More statuses keep the boundary in force. -/
theorem HoldsBoundary.keeps {recorded recorded' : List Entry}
    {limit : ValidityStatus → Option ParsedBoundary} {text text' : Option Bytes}
    {instant instant' : Option ExactInstant} (hsub : recorded ⊆ recorded')
    (h : HoldsBoundary recorded limit text instant)
    (h' : HoldsBoundary recorded' limit text' instant') :
    KeepsBoundary text text' instant instant' := by
  obtain ⟨inForce, rfl, rfl, hinForce⟩ := h
  obtain ⟨inForce', rfl, rfl, hinForce'⟩ := h'
  cases inForce with
  | none => exact ⟨fun h => (nomatch h), fun _ h => (nomatch h)⟩
  | some c =>
    obtain ⟨c', rfl, hle⟩ := hinForce.of_subset (fun _ he => hsub he) hinForce'
    refine ⟨fun _ => rfl, ?_⟩
    rintro _ ⟨⟩
    exact ⟨c'.instant, rfl, ExactInstant.not_lt_iff.mpr hle⟩

/-- The same key, with no boundary removed or later. -/
structure Narrows (resolution resolution' : RegistryKeyResolution) : Prop where
  organizationId : resolution'.resolvedKey.organizationId = resolution.resolvedKey.organizationId
  keyId : resolution'.resolvedKey.keyId = resolution.resolvedKey.keyId
  principal : resolution'.resolvedKey.principal = resolution.resolvedKey.principal
  publicKey : resolution'.publicKey = resolution.publicKey
  validFromInstant : resolution'.resolvedKey.validFromInstant.equals
    resolution.resolvedKey.validFromInstant = true
  validUntil : KeepsBoundary resolution.resolvedKey.validUntil resolution'.resolvedKey.validUntil
    resolution.resolvedKey.validUntilInstant resolution'.resolvedKey.validUntilInstant
  revokedAt : KeepsBoundary resolution.resolvedKey.revokedAt resolution'.resolvedKey.revokedAt
    resolution.resolvedKey.revokedAtInstant resolution'.resolvedKey.revokedAtInstant

/-- What an extension resolves, an evaluated registry that has the key resolves
as well. -/
theorem exists_selectKey_of_extends {env : Environment} {registry registry' : Json}
    {request : KeyResolutionRequest} (hextends : Extends registry registry')
    {organizationId organizationId' : Bytes} {folded folded' : Bindings}
    (heval : evaluateRegistry env registry = .ok (organizationId, folded))
    (heval' : evaluateRegistry env registry' = .ok (organizationId', folded'))
    (hkey : HasBinding registry request.keyId) {resolution' : RegistryKeyResolution}
    (h : selectKey organizationId' folded' request = .ok resolution') :
    ∃ resolution, selectKey organizationId folded request = .ok resolution ∧
      Narrows resolution resolution' := by
  obtain ⟨ds, hvalid, hfolded⟩ := valid_of_evaluateRegistry heval
  obtain ⟨ds', hvalid', hfolded'⟩ := valid_of_evaluateRegistry heval'
  have hrepeats := hextends.exists_repeats hvalid.declared hvalid'.declared
  have horganization : organizationId' = organizationId :=
    hvalid'.declared.organization.unique
      (hvalid.declared.organization.congr hextends.organizationId)
  obtain ⟨d, hd, hkeyId⟩ := hkey.exists_declaration hvalid.declared
  obtain ⟨d', hselects', hresolves'⟩ := selects_of_selectKey hfolded' h
  obtain ⟨hselected, _⟩ := exists_selects hvalid'.unique hrepeats hd hkeyId hselects'
  obtain ⟨resolution, hselect⟩ :
      ∃ resolution, selectKey organizationId folded request = .ok resolution :=
    exists_selectKey hvalid.unique hfolded hselected
  obtain ⟨c, hselects, hresolves⟩ := selects_of_selectKey hfolded hselect
  obtain ⟨_, hprincipal, hbytes, hfrom⟩ :=
    exists_selects hvalid'.unique hrepeats hselects.declared hselects.keyId hselects'
  have hsame : d'.keyId = c.keyId := hselects'.keyId.trans hselects.keyId.symm
  have hsub := merged_subset hrepeats c.keyId
  have huntil := hresolves'.validUntil
  have hrevoked := hresolves'.revokedAt
  rw [hsame] at huntil hrevoked
  refine ⟨resolution, hselect, ?_, ?_, ?_, ?_, ?_, hresolves.validUntil.keeps hsub huntil,
    hresolves.revokedAt.keeps hsub hrevoked⟩
  · rw [hresolves'.organizationId, hresolves.organizationId, horganization]
  · rw [hresolves'.keyId, hresolves.keyId, hsame]
  · rw [hresolves'.principal, hresolves.principal, hprincipal]
  · rw [hresolves'.publicKeyBytes, hresolves.publicKeyBytes, hbytes]
  · rw [hresolves'.validFromInstant, hresolves.validFromInstant]
    exact ExactInstant.equals_iff.mpr hfrom

/-- What an extension of a registry resolves, the registry resolves as well if
it has the key and passes its own checks: to the same key, and with no boundary
that the extension lacks or has later. -/
theorem resolve_of_extension (env : Environment) (registryBytes registryBytes' : Bytes)
    (registry registry' : Json) (request : KeyResolutionRequest)
    (hparse : env.parseStrictJson registryBytes = .ok registry)
    (hparse' : env.parseStrictJson registryBytes' = .ok registry')
    (hextends : Extends registry registry')
    (hevaluated : ∃ result, evaluateRegistry env registry = .ok result)
    (hkey : HasBinding registry request.keyId) (resolution' : RegistryKeyResolution)
    (h : resolveAgentRegistryKey env registryBytes' request = .ok resolution') :
    ∃ resolution, resolveAgentRegistryKey env registryBytes request = .ok resolution ∧
      Narrows resolution resolution' := by
  obtain ⟨⟨organizationId, folded⟩, heval⟩ := hevaluated
  rw [resolveAgentRegistryKey, hparse', Except.ok_bind] at h
  obtain ⟨⟨organizationId', folded'⟩, heval', h⟩ := Except.bind_eq_ok.mp h
  obtain ⟨resolution, hselect, hnarrows⟩ :=
    exists_selectKey_of_extends hextends heval heval' hkey h
  refine ⟨resolution, ?_, hnarrows⟩
  rw [resolveAgentRegistryKey, hparse, Except.ok_bind, heval, Except.ok_bind]
  exact hselect

/-- A status of the sample registry. -/
def sampleStatus (sequence : UInt64) (recordedAt : String) (boundaries : List (Bytes × Json)) :
    Json :=
  .ofMembers ((ascii "sequence", .uint64 sequence) ::
    (ascii "recordedAt", .string (ascii recordedAt)) :: boundaries)

/-- A declaration of the key of the sample registry. -/
def sampleBinding (validFrom : String) (statuses : List Json) : Json :=
  .ofMembers [(ascii "keyId", .string (ascii "urn:mwp:key:one")),
    (ascii "algorithm", .string (ascii "Ed25519")),
    (ascii "principal", .ofMembers [(ascii "type", .string (ascii "agent")),
      (ascii "id", .string (ascii "urn:mwp:agent:one"))]),
    (ascii "publicKey", .string (ascii "11qYAYKxCrfVS_7TyWQHOg7hcvPapiMlrwIaaPcHURo")),
    (ascii "validFrom", .string (ascii validFrom)),
    (ascii "validityHistory", .array statuses)]

def sampleRoot (bindings : List Json) : Json :=
  .ofMembers [(ascii "organizationId", .string (ascii "urn:mwp:organization:acme")),
    (ascii "bindings", .array bindings)]

/-- The sample registry, the key revoked in a third declaration. -/
def sampleExtension : Bytes := List.flatMap ascii [
  "\x7b\"organizationId\":\"urn:mwp:organization:acme\",\"bindings\":[",
  "\x7b\"keyId\":\"urn:mwp:key:one\",\"algorithm\":\"Ed25519\",",
  "\"principal\":\x7b\"type\":\"agent\",\"id\":\"urn:mwp:agent:one\"\x7d,",
  "\"publicKey\":\"11qYAYKxCrfVS_7TyWQHOg7hcvPapiMlrwIaaPcHURo\",",
  "\"validFrom\":\"2026-07-15T08:00:00+08:00\",\"validityHistory\":[",
  "\x7b\"sequence\":1,\"recordedAt\":\"2026-07-16T00:00:00Z\"\x7d]\x7d,",
  "\x7b\"keyId\":\"urn:mwp:key:one\",\"algorithm\":\"Ed25519\",",
  "\"principal\":\x7b\"type\":\"agent\",\"id\":\"urn:mwp:agent:one\"\x7d,",
  "\"publicKey\":\"11qYAYKxCrfVS_7TyWQHOg7hcvPapiMlrwIaaPcHURo\",",
  "\"validFrom\":\"2026-07-15T00:00:00Z\",\"validityHistory\":[",
  "\x7b\"sequence\":2,\"recordedAt\":\"2026-07-17T00:00:00Z\",",
  "\"validUntil\":\"2026-07-18T00:00:00Z\"\x7d,",
  "\x7b\"sequence\":3,\"recordedAt\":\"2026-07-17T12:00:00Z\",",
  "\"validUntil\":\"2026-07-17T18:00:00Z\"\x7d]\x7d,",
  "\x7b\"keyId\":\"urn:mwp:key:one\",\"algorithm\":\"Ed25519\",",
  "\"principal\":\x7b\"type\":\"agent\",\"id\":\"urn:mwp:agent:one\"\x7d,",
  "\"publicKey\":\"11qYAYKxCrfVS_7TyWQHOg7hcvPapiMlrwIaaPcHURo\",",
  "\"validFrom\":\"2026-07-15T00:00:00Z\",\"validityHistory\":[",
  "\x7b\"sequence\":4,\"recordedAt\":\"2026-07-17T13:00:00Z\",",
  "\"revokedAt\":\"2026-07-17T14:00:00Z\"\x7d]\x7d]\x7d"]

/-- The bindings of the sample registry. -/
def sampleFirst : Json :=
  sampleBinding "2026-07-15T08:00:00+08:00" [sampleStatus 1 "2026-07-16T00:00:00Z" []]

def sampleSecond (appended : List Json) : Json :=
  sampleBinding "2026-07-15T00:00:00Z"
    (sampleStatus 2 "2026-07-17T00:00:00Z"
      [(ascii "validUntil", .string (ascii "2026-07-18T00:00:00Z"))] :: appended)

def sampleRegistryValue : Json := sampleRoot [sampleFirst, sampleSecond []]

def sampleExtensionValue : Json := sampleRoot [
  sampleFirst,
  sampleSecond [sampleStatus 3 "2026-07-17T12:00:00Z"
    [(ascii "validUntil", .string (ascii "2026-07-17T18:00:00Z"))]],
  sampleBinding "2026-07-15T00:00:00Z" [sampleStatus 4 "2026-07-17T13:00:00Z"
    [(ascii "revokedAt", .string (ascii "2026-07-17T14:00:00Z"))]]]

theorem referenceParse_sampleRegistry :
    referenceParse sampleRegistry = .ok sampleRegistryValue := by
  decide +kernel

theorem referenceParse_sampleExtension :
    referenceParse sampleExtension = .ok sampleExtensionValue := by
  decide +kernel

theorem sampleExtension_extends : Extends sampleRegistryValue sampleExtensionValue := by
  refine ⟨rfl, _, _, rfl, rfl, ?_⟩
  intro raw hraw
  rcases List.mem_cons.mp hraw with rfl | hraw
  · exact ⟨sampleFirst, List.mem_cons_self, .refl rfl⟩
  · rw [List.mem_singleton.mp hraw]
    refine ⟨_, List.mem_cons_of_mem _ List.mem_cons_self,
      ⟨?_, _, _, rfl, rfl, List.subset_append_left [_] _⟩⟩
    decide +kernel

theorem resolve_of_extension_sample :
    ∃ resolution resolution',
      resolveAgentRegistryKey .reference sampleRegistry sampleRequest = .ok resolution ∧
        resolveAgentRegistryKey .reference sampleExtension sampleRequest = .ok resolution' ∧
          Narrows resolution resolution' := by
  have hevaluated : (evaluateRegistry .reference sampleRegistryValue).isOk = true := by
    decide +kernel
  have hresolved : (resolveValue .reference sampleExtensionValue sampleRequest).isOk = true := by
    decide +kernel
  obtain ⟨resolution', h⟩ := Except.exists_ok_of_isOk hresolved
  have hkey : HasBinding sampleRegistryValue sampleRequest.keyId :=
    ⟨_, rfl, sampleFirst, List.mem_cons_self, _, rfl, rfl⟩
  have hstrict := parseStrictJson_reference referenceParse_sampleRegistry
  have hstrict' := parseStrictJson_reference referenceParse_sampleExtension
  have hresolve' : resolveAgentRegistryKey .reference sampleExtension sampleRequest =
      .ok resolution' :=
    Except.bind_eq_ok.mpr ⟨sampleExtensionValue, hstrict', h⟩
  obtain ⟨resolution, hresolve, hnarrows⟩ := resolve_of_extension .reference _ _ _ _ _ hstrict
    hstrict' sampleExtension_extends (Except.exists_ok_of_isOk hevaluated) hkey _ hresolve'
  exact ⟨resolution, resolution', hresolve, hresolve', hnarrows⟩

end MissionWeave.Registry
