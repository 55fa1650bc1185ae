import MissionWeave.Registry.Extension
import MissionWeave.Json.Denoted
import Mathlib.Data.List.Perm.Basic

/-!
# The order of a registry does not matter

A registry is rearranged by permuting its bindings, by permuting the statuses of
a history, and by handing statuses from one declaration of a key to another.

* `Rearranges`: what can become of the bindings of a registry.
* `exists_sameDeclarations`: a rearrangement declares the same.
* `resolve_rearranged`: a rearrangement is rejected with the registry, or
  resolves a request to the same key.
-/

namespace MissionWeave.Registry

open AppendOnly

/-! ## Rearrangements -/

/-- The objects agree, except in the member of one field. -/
structure EqualUpTo (field : String) (value value' : Json) : Prop where
  object : value.isObject = true
  object' : value'.isObject = true
  erase : value'.erase field = value.erase field

/-- A binding with its history. -/
def HasHistory (raw : Json) (statuses : List Json) : Prop :=
  raw.member? "validityHistory" = some (.array statuses)

/-- The bindings are rearranged. -/
inductive Rearranges : List Json → List Json → Prop where
  | bindings {raws raws' : List Json} (hperm : raws.Perm raws') : Rearranges raws raws'
  | history {raw raw' : Json} {statuses statuses' rest : List Json}
      (h : HasHistory raw statuses) (h' : HasHistory raw' statuses')
      (hequal : EqualUpTo "validityHistory" raw raw') (hperm : statuses.Perm statuses') :
      Rearranges (raw :: rest) (raw' :: rest)
  | redistribute {keyId : Bytes} {raw₁ raw₂ raw₁' raw₂' : Json}
      {statuses₁ statuses₂ statuses₁' statuses₂' rest : List Json}
      (hkey₁ : TextMember raw₁ "keyId" keyId) (hkey₂ : TextMember raw₂ "keyId" keyId)
      (h₁ : HasHistory raw₁ statuses₁) (h₂ : HasHistory raw₂ statuses₂)
      (h₁' : HasHistory raw₁' statuses₁') (h₂' : HasHistory raw₂' statuses₂')
      (hequal₁ : EqualUpTo "validityHistory" raw₁ raw₁')
      (hequal₂ : EqualUpTo "validityHistory" raw₂ raw₂')
      (hperm : (statuses₁ ++ statuses₂).Perm (statuses₁' ++ statuses₂')) :
      Rearranges (raw₁ :: raw₂ :: rest) (raw₁' :: raw₂' :: rest)
  | trans {raws raws' raws'' : List Json} (h : Rearranges raws raws')
      (h' : Rearranges raws' raws'') : Rearranges raws raws''

/-- The registries agree up to a rearrangement of their bindings. -/
structure Rearranged (registry registry' : Json) : Prop where
  equal : EqualUpTo "bindings" registry registry'
  bindings : ∃ raws raws', registry.member? "bindings" = some (.array raws) ∧
    registry'.member? "bindings" = some (.array raws') ∧ Rearranges raws raws'

theorem EqualUpTo.symm {field : String} {value value' : Json} (h : EqualUpTo field value value') :
    EqualUpTo field value' value :=
  ⟨h.object', h.object, h.erase.symm⟩

theorem EqualUpTo.member? {field other : String} {value value' : Json}
    (h : EqualUpTo field value value') (hne : other ≠ field) :
    value'.member? other = value.member? other := by
  rw [← Json.member?_erase_of_ne value' hne, h.erase, Json.member?_erase_of_ne value hne]

/-- A rearrangement can be undone. -/
theorem Rearranges.symm {raws raws' : List Json} (h : Rearranges raws raws') :
    Rearranges raws' raws := by
  induction h with
  | bindings hperm => exact .bindings hperm.symm
  | history h h' hequal hperm => exact .history h' h hequal.symm hperm.symm
  | redistribute hkey₁ hkey₂ h₁ h₂ h₁' h₂' hequal₁ hequal₂ hperm =>
    exact .redistribute (hkey₁.congr (hequal₁.member? (by decide)))
      (hkey₂.congr (hequal₂.member? (by decide))) h₁' h₂' h₁ h₂ hequal₁.symm hequal₂.symm
      hperm.symm
  | trans _ _ ih ih' => exact ih'.trans ih

theorem Rearranged.symm {registry registry' : Json} (h : Rearranged registry registry') :
    Rearranged registry' registry := by
  obtain ⟨raws, raws', hmember, hmember', hrearranges⟩ := h.bindings
  exact ⟨h.equal.symm, raws', raws, hmember', hmember, hrearranges.symm⟩

/-! ## What a rearrangement declares -/

/-- The declarations are the same up to their order, and record the same statuses
for every key. -/
structure SameDeclarations (ds ds' : List Declaration) : Prop where
  candidates : ∀ c, c ∈ ds.map Declaration.candidate ↔ c ∈ ds'.map Declaration.candidate
  merged : ∀ keyId e, e ∈ merged ds keyId ↔ e ∈ merged ds' keyId

namespace SameDeclarations

variable {ds ds' ds'' : List Declaration}

theorem symm (h : SameDeclarations ds ds') : SameDeclarations ds' ds :=
  ⟨fun c => (h.candidates c).symm, fun keyId e => (h.merged keyId e).symm⟩

theorem trans (h : SameDeclarations ds ds') (h' : SameDeclarations ds' ds'') :
    SameDeclarations ds ds'' :=
  ⟨fun c => (h.candidates c).trans (h'.candidates c),
    fun keyId e => (h.merged keyId e).trans (h'.merged keyId e)⟩

theorem of_perm (h : ds.Perm ds') : SameDeclarations ds ds' := by
  constructor
  · intro c
    exact (h.map Declaration.candidate).mem_iff
  · intro keyId e
    simp only [mem_merged, h.mem_iff]

/-- A declaration is repeated, up to its statuses. -/
theorem exists_candidate (h : SameDeclarations ds ds') {d : Declaration} (hd : d ∈ ds) :
    ∃ d' ∈ ds', d'.candidate = d.candidate := by
  have hmem := (h.candidates d.candidate).mp (List.mem_map_of_mem hd)
  exact List.mem_map.mp hmem

end SameDeclarations

section

variable {env : Environment}

/-- What the object has to have, an object that agrees has. -/
theorem ExactObject.of_equalUpTo {field : String} {fields : List String} {value value' : Json}
    (h : ExactObject value fields fields) (hequal : EqualUpTo field value value')
    (hfield : value'.contains field = true) (hallowed : field ∈ fields) :
    ExactObject value' fields fields where
  object := hequal.object'
  required other hother := by
    by_cases hne : other = field
    · rw [hne]
      exact hfield
    · have hcontains := h.required other hother
      rw [Json.contains] at hcontains ⊢
      rw [hequal.member? hne]
      exact hcontains
  allowed m hm := by
    by_cases hname : m.1 = ascii field
    · rw [hname]
      exact List.mem_map_of_mem hallowed
    · -- the member is one of the other members of the first object
      have hobject := hequal.object
      have hobject' := hequal.object'
      have herase := hequal.erase
      cases value with
      | object ms =>
        cases value' with
        | object ms' =>
          have hfilter : ms'.filter (fun m => m.1 != ascii field) =
              ms.filter fun m => m.1 != ascii field := Json.object.inj herase
          have hkept : m ∈ ms'.filter fun m => m.1 != ascii field :=
            List.mem_filter.mpr ⟨hm, by simpa using hname⟩
          rw [hfilter] at hkept
          exact h.allowed m (List.mem_of_mem_filter hkept)
        | _ => cases hobject'
      | _ => cases hobject

theorem HasHistory.contains {raw : Json} {statuses : List Json} (h : HasHistory raw statuses) :
    raw.contains "validityHistory" = true := by
  rw [Json.contains, h]
  rfl

/-- A binding with another history declares the same with other statuses. -/
theorem Declares.of_equalUpTo {raw raw' : Json} {d : Declaration} {statuses' : List Json}
    {entries' : List Entry} (h : Declares env raw d)
    (hequal : EqualUpTo "validityHistory" raw raw') (hhistory : HasHistory raw' statuses')
    (hreads : List.Forall₂ ReadsStatus statuses' entries') :
    Declares env raw' { d with statuses := entries' } := by
  have htext {field : String} {text : Bytes} (hne : field ≠ "validityHistory")
      (ht : TextMember raw field text) : TextMember raw' field text :=
    ht.congr (hequal.member? hne)
  have hexact := h.exact.of_equalUpTo hequal hhistory.contains (by decide)
  obtain ⟨value, hvalue, hprincipal⟩ := h.principal
  have hne : "principal" ≠ "validityHistory" := by decide
  have hmember := (hequal.member? hne).trans hvalue
  exact ⟨⟨hexact, htext (by decide) h.keyId, h.keyIdUri, ⟨value, hmember, hprincipal⟩,
    htext (by decide) h.algorithm, h.ed25519, htext (by decide) h.publicKey, h.publicKeyBytes,
    htext (by decide) h.validFrom, h.validFromInstant⟩, statuses', hhistory, hreads⟩

theorem Declares.reads {raw : Json} {d : Declaration} {statuses : List Json}
    (h : Declares env raw d) (hhistory : HasHistory raw statuses) :
    List.Forall₂ ReadsStatus statuses d.statuses := by
  obtain ⟨statuses', hmember, hreads⟩ := h.history
  rw [hhistory, Option.some.injEq, Json.array.injEq] at hmember
  rwa [hmember]

/-- Statuses in another order are read in that order. -/
theorem exists_reads_of_perm {statuses statuses' : List Json} {entries : List Entry}
    (hperm : statuses.Perm statuses') (h : List.Forall₂ ReadsStatus statuses entries) :
    ∃ entries', List.Forall₂ ReadsStatus statuses' entries' ∧ entries'.Perm entries :=
  List.perm_comp_forall₂ hperm.symm h

theorem exists_reads_append {statuses₁ statuses₂ : List Json} {entries : List Entry}
    (h : List.Forall₂ ReadsStatus (statuses₁ ++ statuses₂) entries) :
    ∃ entries₁ entries₂, entries = entries₁ ++ entries₂ ∧
      List.Forall₂ ReadsStatus statuses₁ entries₁ ∧
        List.Forall₂ ReadsStatus statuses₂ entries₂ := by
  have htake := List.forall₂_take statuses₁.length h
  have hdrop := List.forall₂_drop statuses₁.length h
  rw [List.take_left] at htake
  rw [List.drop_left] at hdrop
  exact ⟨_, _, (List.take_append_drop statuses₁.length entries).symm, htake, hdrop⟩

/-- A rearrangement declares the same. -/
theorem exists_sameDeclarations {raws raws' : List Json} (h : Rearranges raws raws') :
    ∀ {ds : List Declaration}, List.Forall₂ (Declares env) raws ds →
      ∃ ds', List.Forall₂ (Declares env) raws' ds' ∧ SameDeclarations ds ds' := by
  induction h with
  | bindings hperm =>
    intro ds hds
    obtain ⟨ds', hds', hperm'⟩ := List.perm_comp_forall₂ hperm.symm hds
    exact ⟨ds', hds', .of_perm hperm'.symm⟩
  | history h h' hequal hperm =>
    intro ds hds
    cases hds with
    | @cons _ d _ ds hd hds =>
      obtain ⟨entries', hreads, hentries⟩ := exists_reads_of_perm hperm (hd.reads h)
      refine ⟨{ d with statuses := entries' } :: ds, .cons (hd.of_equalUpTo hequal h' hreads) hds,
        fun c => Iff.rfl, ?_⟩
      intro keyId e
      simp only [mem_merged, List.mem_cons, exists_eq_or_imp, hentries.mem_iff]
  | redistribute hkey₁ hkey₂ h₁ h₂ h₁' h₂' hequal₁ hequal₂ hperm =>
    intro ds hds
    cases hds with
    | @cons _ d₁ _ ds hd₁ hds =>
      cases hds with
      | @cons _ d₂ _ ds hd₂ hds =>
        obtain ⟨entries', hreads, hentries⟩ := exists_reads_of_perm hperm
          (List.rel_append (hd₁.reads h₁) (hd₂.reads h₂))
        obtain ⟨entries₁, entries₂, rfl, hreads₁, hreads₂⟩ := exists_reads_append hreads
        refine ⟨{ d₁ with statuses := entries₁ } :: { d₂ with statuses := entries₂ } :: ds,
          .cons (hd₁.of_equalUpTo hequal₁ h₁' hreads₁)
            (.cons (hd₂.of_equalUpTo hequal₂ h₂' hreads₂) hds), fun c => Iff.rfl, ?_⟩
        -- the two declarations have one key: what one of them loses, the other one gains
        have hkey : d₂.keyId = d₁.keyId :=
          (hd₂.keyId.unique hkey₂).trans (hd₁.keyId.unique hkey₁).symm
        intro keyId e
        have hmem := hentries.mem_iff (a := e)
        rw [List.mem_append, List.mem_append] at hmem
        simp only [mem_merged, List.mem_cons, exists_eq_or_imp, hkey]
        rw [← or_assoc, ← or_assoc, ← and_or_left, ← and_or_left, hmem]
  | trans _ _ ih ih' =>
    intro ds hds
    obtain ⟨ds', hds', hsame⟩ := ih hds
    obtain ⟨ds'', hds'', hsame'⟩ := ih' hds'
    exact ⟨ds'', hds'', hsame.trans hsame'⟩

end

/-! ## What the same declarations resolve -/

section

variable {ds ds' : List Declaration}

theorem Unique.of_same (h : Unique ds) (hsame : SameDeclarations ds ds') : Unique ds' := by
  constructor
  · intro d hd e he hkey
    obtain ⟨d', hd', hdc⟩ := hsame.symm.exists_candidate hd
    obtain ⟨e', he', hec⟩ := hsame.symm.exists_candidate he
    simp only [Declaration.candidate, NormalizedBinding.mk.injEq] at hdc hec
    obtain ⟨hd1, hd2, hd3, -, hd4, -, hd5, -⟩ := hdc
    obtain ⟨he1, he2, he3, -, he4, -, he5, -⟩ := hec
    have hunique := h.keyIds d' hd' e' he' (hd1.trans (hkey.trans he1.symm))
    rwa [hd2, hd3, hd4, hd5, he2, he3, he4, he5] at hunique
  · intro d hd e he hbytes
    obtain ⟨d', hd', hdc⟩ := hsame.symm.exists_candidate hd
    obtain ⟨e', he', hec⟩ := hsame.symm.exists_candidate he
    simp only [Declaration.candidate, NormalizedBinding.mk.injEq] at hdc hec
    obtain ⟨hd1, hd2, -, -, hd4, -⟩ := hdc
    obtain ⟨he1, he2, -, -, he4, -⟩ := hec
    have hunique := h.publicKeys d' hd' e' he' (hd4.trans (hbytes.trans he4.symm))
    rwa [hd1, hd2, he1, he2] at hunique

theorem InOrder.of_mem_iff {recorded recorded' : List Entry} (h : InOrder recorded)
    (hmem : ∀ e, e ∈ recorded ↔ e ∈ recorded') : InOrder recorded' := by
  obtain ⟨hagree, ⟨count, hcount⟩, hrecorded, huntil, hrevoked⟩ := h
  simp only [hmem] at hagree hcount hrecorded huntil hrevoked
  exact ⟨hagree, ⟨count, hcount⟩, hrecorded, huntil, hrevoked⟩

theorem Selects.exists_of_same {request : KeyResolutionRequest} {d : Declaration}
    (h : Selects request ds d) (hsame : SameDeclarations ds ds') :
    ∃ d', Selects request ds' d' := by
  obtain ⟨d', hd', hcandidate⟩ := hsame.exists_candidate h.declared
  simp only [Declaration.candidate, NormalizedBinding.mk.injEq] at hcandidate
  obtain ⟨h1, h2, -, -, -, -, h3, -⟩ := hcandidate
  have hprincipal := h.principal
  have hvalidFrom := h.validFrom
  rw [← h2] at hprincipal
  rw [← h3] at hvalidFrom
  exact ⟨d', hd', h1.trans h.keyId, hprincipal, hvalidFrom,
    fun e he => h.validUntil e ((hsame.merged _ e).mpr he),
    fun e he => h.revokedAt e ((hsame.merged _ e).mpr he)⟩

end

/-- The instants are equal, or there is none. -/
def SameInstant (instant instant' : Option ExactInstant) : Prop :=
  Option.Rel (fun left right => left.equals right = true) instant instant'

/-- The same key with equal instants.  The texts of its instants may differ. -/
structure SameKey (resolution resolution' : RegistryKeyResolution) : Prop where
  organizationId : resolution'.resolvedKey.organizationId = resolution.resolvedKey.organizationId
  keyId : resolution'.resolvedKey.keyId = resolution.resolvedKey.keyId
  principal : resolution'.resolvedKey.principal = resolution.resolvedKey.principal
  algorithm : resolution'.resolvedKey.algorithm = resolution.resolvedKey.algorithm
  publicKeyText : resolution'.resolvedKey.publicKey = resolution.resolvedKey.publicKey
  publicKey : resolution'.publicKey = resolution.publicKey
  validFrom : resolution.resolvedKey.validFromInstant.equals
    resolution'.resolvedKey.validFromInstant = true
  validUntil : SameInstant resolution.resolvedKey.validUntilInstant
    resolution'.resolvedKey.validUntilInstant
  revokedAt : SameInstant resolution.resolvedKey.revokedAtInstant
    resolution'.resolvedKey.revokedAtInstant

/-- The text spells the instant. -/
def Spells (text : Bytes) (instant : ExactInstant) : Prop := parseInstant text = .ok instant

/-- Each text of the key spells its instant. -/
structure SpellsInstants (key : ResolvedKey) : Prop where
  validFrom : Spells key.validFrom key.validFromInstant
  validUntil : Option.Rel Spells key.validUntil key.validUntilInstant
  revokedAt : Option.Rel Spells key.revokedAt key.revokedAtInstant

theorem HoldsBoundary.same {recorded recorded' : List Entry}
    {limit : ValidityStatus → Option ParsedBoundary} {text text' : Option Bytes}
    {instant instant' : Option ExactInstant} (hmem : ∀ e, e ∈ recorded ↔ e ∈ recorded')
    (h : HoldsBoundary recorded limit text instant)
    (h' : HoldsBoundary recorded' limit text' instant') : SameInstant instant instant' := by
  obtain ⟨inForce, -, rfl, hinForce⟩ := h
  obtain ⟨inForce', -, rfl, hinForce'⟩ := h'
  cases inForce with
  | some c =>
    obtain ⟨c', rfl, hle⟩ := hinForce.of_subset (fun e => (hmem e).mp) hinForce'
    obtain ⟨c'', hc, hle'⟩ := hinForce'.of_subset (fun e => (hmem e).mpr) hinForce
    rw [Option.some.injEq] at hc
    rw [← hc] at hle'
    exact .some (ExactInstant.equals_iff.mpr (le_antisymm hle' hle))
  | none =>
    cases inForce' with
    | none => exact .none
    | some c' =>
      obtain ⟨c'', hc, -⟩ := hinForce'.of_subset (fun e => (hmem e).mpr) hinForce
      cases hc

theorem HoldsBoundary.spells {recorded : List Entry}
    {limit : ValidityStatus → Option ParsedBoundary} {text : Option Bytes}
    {instant : Option ExactInstant} (h : HoldsBoundary recorded limit text instant)
    (hspells : ∀ e ∈ recorded, ∀ b ∈ limit e.2, Spells b.text b.instant) :
    Option.Rel Spells text instant := by
  obtain ⟨inForce, rfl, rfl, hinForce⟩ := h
  cases inForce with
  | none => exact .none
  | some c =>
    obtain ⟨⟨e, he, hc⟩, -⟩ := hinForce
    exact .some (hspells e he c hc)

section

variable {env : Environment} {registry registry' : Json} {organizationId : Bytes}
  {ds ds' : List Declaration} {request : KeyResolutionRequest}

theorem ReadsBoundary.spells {status : Json} {name : String} {limit : Option ParsedBoundary}
    (h : ReadsBoundary status name limit) : ∀ b ∈ limit, Spells b.text b.instant := by
  intro b hb
  rw [Option.mem_def] at hb
  rw [hb] at h
  exact h.2

theorem exists_readsStatus (h : Declared env registry organizationId ds) {keyId : Bytes}
    {e : Entry} (he : e ∈ merged ds keyId) : ∃ status, ReadsStatus status e := by
  obtain ⟨d, hd, -, he⟩ := mem_merged.mp he
  obtain ⟨raws, -, -, hraws⟩ := h.bindings
  obtain ⟨raw, -, hdeclares⟩ := Except.exists_of_reads hraws hd
  obtain ⟨statuses, -, hstatuses⟩ := hdeclares.history
  obtain ⟨status, -, hreads⟩ := Except.exists_of_reads hstatuses he
  exact ⟨status, hreads⟩

theorem spellsInstants_of_resolves (h : Declared env registry organizationId ds) {d : Declaration}
    (hd : d ∈ ds) {resolution : RegistryKeyResolution}
    (hresolves : Resolves organizationId ds d resolution) :
    SpellsInstants resolution.resolvedKey := by
  obtain ⟨raws, -, -, hraws⟩ := h.bindings
  obtain ⟨raw, -, hdeclares⟩ := Except.exists_of_reads hraws hd
  constructor
  · rw [hresolves.validFrom, hresolves.validFromInstant]
    exact hdeclares.validFromInstant
  · apply hresolves.validUntil.spells
    intro e he
    obtain ⟨status, hreads⟩ := exists_readsStatus h he
    exact hreads.validUntil.spells
  · apply hresolves.revokedAt.spells
    intro e he
    obtain ⟨status, hreads⟩ := exists_readsStatus h he
    exact hreads.revokedAt.spells

/-- A public key has one text. -/
theorem publicKey_unique {encoded encoded' : Bytes} {key : Ed25519PublicKey}
    (h : decodeStrictEd25519PublicKey encoded = .ok key)
    (h' : decodeStrictEd25519PublicKey encoded' = .ok key) : encoded' = encoded :=
  (decodeStrictEd25519PublicKey_eq_ok h').2.1.trans (decodeStrictEd25519PublicKey_eq_ok h).2.1.symm

theorem Rearranged.declared (h : Rearranged registry registry')
    (hds : Declared env registry organizationId ds) :
    ∃ ds', Declared env registry' organizationId ds' ∧ SameDeclarations ds ds' := by
  obtain ⟨raws, hmember, hne, hraws⟩ := hds.bindings
  obtain ⟨olds, news, holds, hnews, hrearranges⟩ := h.bindings
  rw [hmember, Option.some.injEq, Json.array.injEq] at holds
  subst holds
  obtain ⟨ds', hds', hsame⟩ := exists_sameDeclarations hrearranges hraws
  have hcontains : registry'.contains "bindings" = true := by
    rw [Json.contains, hnews]
    rfl
  have hnonempty : news ≠ [] := by
    rintro rfl
    -- a declaration of the registry is declared by one of its bindings
    obtain ⟨raw, raws, rfl⟩ := List.exists_cons_of_ne_nil hne
    cases hraws with
    | @cons _ d _ _ hd _ =>
      cases hds'
      obtain ⟨d', hd', -⟩ := hsame.exists_candidate (d := d) List.mem_cons_self
      cases hd'
  exact ⟨ds', ⟨hds.exact.of_equalUpTo h.equal hcontains (by decide),
    hds.organization.congr (h.equal.member? (by decide)), hds.uri, news, hnews, hnonempty, hds'⟩,
    hsame⟩

/-- What the registry resolves, a rearrangement resolves to the same key. -/
theorem exists_resolveValue_of_rearranged (h : Rearranged registry registry')
    {resolution : RegistryKeyResolution}
    (hresolve : resolveValue env registry request = .ok resolution) :
    ∃ resolution', resolveValue env registry' request = .ok resolution' ∧
      SameKey resolution resolution' ∧ SpellsInstants resolution.resolvedKey ∧
      SpellsInstants resolution'.resolvedKey := by
  obtain ⟨⟨organizationId, folded⟩, heval, hselect⟩ := Except.bind_eq_ok.mp hresolve
  obtain ⟨ds, hvalid, hfolded⟩ := valid_of_evaluateRegistry heval
  obtain ⟨d, hselects, hresolves⟩ := selects_of_selectKey hfolded hselect
  obtain ⟨ds', hdeclared', hsame⟩ := h.declared hvalid.declared
  have hvalid' : Valid env registry' organizationId ds' :=
    ⟨hdeclared', hvalid.unique.of_same hsame,
      fun keyId => (hvalid.inOrder keyId).of_mem_iff (hsame.merged keyId)⟩
  obtain ⟨c, hselects'⟩ := hselects.exists_of_same hsame
  obtain ⟨folded', heval', hfolded'⟩ := exists_evaluateRegistry hvalid'
  obtain ⟨resolution', hselect'⟩ := exists_selectKey hvalid'.unique hfolded' hselects'
  obtain ⟨d', hselects', hresolves'⟩ := selects_of_selectKey hfolded' hselect'
  refine ⟨resolution', Except.bind_eq_ok.mpr ⟨_, heval', hselect'⟩, ?_,
    spellsInstants_of_resolves hvalid.declared hselects.declared hresolves,
    spellsInstants_of_resolves hdeclared' hselects'.declared hresolves'⟩
  -- both select a declaration of the requested key, and there is one such key
  obtain ⟨e, he, hcandidate⟩ := hsame.symm.exists_candidate hselects'.declared
  simp only [Declaration.candidate, NormalizedBinding.mk.injEq] at hcandidate
  obtain ⟨h1, h2, h3, -, h4, -, h5, -⟩ := hcandidate
  have hkey : d'.keyId = d.keyId := hselects'.keyId.trans hselects.keyId.symm
  obtain ⟨hprincipal, halgorithm, hbytes, hfrom⟩ :=
    hvalid.unique.keyIds d hselects.declared e he (hkey.symm.trans h1.symm)
  rw [h2] at hprincipal
  rw [h3] at halgorithm
  rw [h4] at hbytes
  rw [h5] at hfrom
  have hanswer := answers_of_resolves hvalid.declared hselects hresolves
  have hanswer' := answers_of_resolves hdeclared' hselects' hresolves'
  have hpublicKey : resolution'.publicKey = resolution.publicKey := by
    rw [hresolves'.publicKeyBytes, hresolves.publicKeyBytes, hbytes]
  have huntil := hresolves'.validUntil
  have hrevoked := hresolves'.revokedAt
  rw [hkey] at huntil hrevoked
  refine ⟨?_, ?_, ?_, ?_, ?_, hpublicKey, ?_, hresolves.validUntil.same (hsame.merged _) huntil,
    hresolves.revokedAt.same (hsame.merged _) hrevoked⟩
  · rw [hresolves'.organizationId, hresolves.organizationId]
  · rw [hresolves'.keyId, hresolves.keyId, hkey]
  · rw [hresolves'.principal, hresolves.principal, hprincipal]
  · rw [hresolves'.algorithm, hresolves.algorithm, halgorithm]
  · exact publicKey_unique hanswer.publicKey (hpublicKey ▸ hanswer'.publicKey)
  · rw [hresolves'.validFromInstant, hresolves.validFromInstant]
    exact ExactInstant.equals_iff.mpr hfrom

end

/-- A registry and a rearrangement of it are both rejected, or resolve a request
to the same key: only the texts of its instants may differ, and each of them
spells its instant. -/
theorem resolve_rearranged (env : Environment) (registryBytes registryBytes' : Bytes)
    (registry registry' : Json) (request : KeyResolutionRequest)
    (hparse : env.parseStrictJson registryBytes = .ok registry)
    (hparse' : env.parseStrictJson registryBytes' = .ok registry')
    (h : Rearranged registry registry') :
    ((∃ e, resolveAgentRegistryKey env registryBytes request = .error e) ∧
      ∃ e, resolveAgentRegistryKey env registryBytes' request = .error e) ∨
    ∃ resolution resolution',
      resolveAgentRegistryKey env registryBytes request = .ok resolution ∧
      resolveAgentRegistryKey env registryBytes' request = .ok resolution' ∧
      SameKey resolution resolution' ∧ SpellsInstants resolution.resolvedKey ∧
      SpellsInstants resolution'.resolvedKey := by
  have hvalue : resolveAgentRegistryKey env registryBytes request =
      resolveValue env registry request := by
    rw [resolveAgentRegistryKey, hparse, Except.ok_bind]
    rfl
  have hvalue' : resolveAgentRegistryKey env registryBytes' request =
      resolveValue env registry' request := by
    rw [resolveAgentRegistryKey, hparse', Except.ok_bind]
    rfl
  rw [hvalue, hvalue']
  cases hresolve : resolveValue env registry request with
  | ok resolution =>
    obtain ⟨resolution', hresolve', hrest⟩ := exists_resolveValue_of_rearranged h hresolve
    exact Or.inr ⟨resolution, resolution', rfl, hresolve', hrest⟩
  | error e =>
    cases hresolve' : resolveValue env registry' request with
    | error e' => exact Or.inl ⟨⟨e, rfl⟩, e', rfl⟩
    | ok resolution' =>
      obtain ⟨resolution, hresolved, -⟩ := exists_resolveValue_of_rearranged h.symm hresolve'
      rw [hresolve] at hresolved
      cases hresolved

/-- The sample registry with its declarations swapped, and both statuses in one of
them. -/
def sampleRearrangement : Bytes := List.flatMap ascii [
  "\x7b\"organizationId\":\"urn:mwp:organization:acme\",\"bindings\":[",
  "\x7b\"keyId\":\"urn:mwp:key:one\",\"algorithm\":\"Ed25519\",",
  "\"principal\":\x7b\"type\":\"agent\",\"id\":\"urn:mwp:agent:one\"\x7d,",
  "\"publicKey\":\"11qYAYKxCrfVS_7TyWQHOg7hcvPapiMlrwIaaPcHURo\",",
  "\"validFrom\":\"2026-07-15T00:00:00Z\",\"validityHistory\":[",
  "\x7b\"sequence\":2,\"recordedAt\":\"2026-07-17T00:00:00Z\",",
  "\"validUntil\":\"2026-07-18T00:00:00Z\"\x7d,",
  "\x7b\"sequence\":1,\"recordedAt\":\"2026-07-16T00:00:00Z\"\x7d]\x7d,",
  "\x7b\"keyId\":\"urn:mwp:key:one\",\"algorithm\":\"Ed25519\",",
  "\"principal\":\x7b\"type\":\"agent\",\"id\":\"urn:mwp:agent:one\"\x7d,",
  "\"publicKey\":\"11qYAYKxCrfVS_7TyWQHOg7hcvPapiMlrwIaaPcHURo\",",
  "\"validFrom\":\"2026-07-15T08:00:00+08:00\",\"validityHistory\":[]\x7d]\x7d"]

theorem resolve_rearranged_sample :
    ∃ resolution resolution',
      resolveAgentRegistryKey .reference sampleRegistry sampleRequest = .ok resolution ∧
      resolveAgentRegistryKey .reference sampleRearrangement sampleRequest = .ok resolution' ∧
      SameKey resolution resolution' := by
  let status₁ := sampleStatus 1 "2026-07-16T00:00:00Z" []
  let status₂ := sampleStatus 2 "2026-07-17T00:00:00Z"
    [(ascii "validUntil", .string (ascii "2026-07-18T00:00:00Z"))]
  let first := sampleBinding "2026-07-15T08:00:00+08:00" [status₁]
  let second := sampleBinding "2026-07-15T00:00:00Z" [status₂]
  let first' := sampleBinding "2026-07-15T08:00:00+08:00" []
  let second' := sampleBinding "2026-07-15T00:00:00Z" [status₂, status₁]
  let registry := sampleRoot [first, second]
  let registry' := sampleRoot [second', first']
  have hparse : referenceParse sampleRegistry = .ok registry := by decide +kernel
  have hparse' : referenceParse sampleRearrangement = .ok registry' := by decide +kernel
  have hresolved : (resolveValue .reference registry sampleRequest).isOk = true := by
    decide +kernel
  obtain ⟨resolution, hresolve⟩ := Except.exists_ok_of_isOk hresolved
  have hequal₁ : EqualUpTo "validityHistory" first first' := ⟨rfl, rfl, by decide +kernel⟩
  have hequal₂ : EqualUpTo "validityHistory" second second' := ⟨rfl, rfl, by decide +kernel⟩
  have hkey₁ : TextMember first "keyId" (ascii "urn:mwp:key:one") := ⟨_, rfl, rfl⟩
  have hkey₂ : TextMember second "keyId" (ascii "urn:mwp:key:one") := ⟨_, rfl, rfl⟩
  have h₁ : HasHistory first [status₁] := rfl
  have h₂ : HasHistory second [status₂] := rfl
  have h₁' : HasHistory first' [] := rfl
  have h₂' : HasHistory second' [status₂, status₁] := rfl
  have hmoved : Rearranges [first, second] [first', second'] :=
    .redistribute hkey₁ hkey₂ h₁ h₂ h₁' h₂' hequal₁ hequal₂ (List.Perm.swap _ _ _)
  have hswapped : Rearranges [first', second'] [second', first'] :=
    .bindings (List.Perm.swap _ _ _)
  have hrearranged : Rearranged registry registry' :=
    ⟨⟨rfl, rfl, by decide +kernel⟩, _, _, rfl, rfl, hmoved.trans hswapped⟩
  have hstrict := parseStrictJson_reference hparse
  have hstrict' := parseStrictJson_reference hparse'
  have hbytes : resolveAgentRegistryKey .reference sampleRegistry sampleRequest = .ok resolution :=
    Except.bind_eq_ok.mpr ⟨registry, hstrict, hresolve⟩
  rcases resolve_rearranged .reference _ _ registry registry' sampleRequest hstrict hstrict'
      hrearranged with ⟨⟨e, herror⟩, -⟩ | ⟨resolution, resolution', h, h', hsame, -⟩
  · rw [hbytes] at herror
    cases herror
  · exact ⟨resolution, resolution', h, h', hsame⟩

end MissionWeave.Registry
