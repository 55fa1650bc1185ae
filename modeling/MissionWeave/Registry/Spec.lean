import MissionWeave.Registry.Reading
import MissionWeave.Registry.History

/-!
# Which registries resolve a request

The registry-wide checks of `resolve_agent_registry_key`, stated on the
declarations of a registry and without reference to the order in which they
are written.

* `Unique`: key ids and public keys determine each other and the rest.
* `merged`: all statuses that the declarations of a key id record.
* `valid_of_evaluateRegistry`, `exists_evaluateRegistry`: the checks are `Unique`
  and `InOrder`.
* `resolveAgentRegistryKey_eq_ok_iff`: the whole function.
-/

namespace MissionWeave.Registry

open AppendOnly
open StrictScanner (maximumDepth)

/-! ## Registry-wide conditions -/

/-- A key id is declared with one principal, algorithm, public key and start,
and a public key is declared for one key id and principal. -/
structure Unique (ds : List Declaration) : Prop where
  keyIds : ∀ d ∈ ds, ∀ e ∈ ds, d.keyId = e.keyId →
    d.principal = e.principal ∧ d.algorithm = e.algorithm ∧
      d.publicKeyBytes = e.publicKeyBytes ∧ d.validFromInstant.key = e.validFromInstant.key
  publicKeys : ∀ d ∈ ds, ∀ e ∈ ds, d.publicKeyBytes = e.publicKeyBytes →
    d.keyId = e.keyId ∧ d.principal = e.principal

/-- The statuses of a key id, merged from all its declarations. -/
def merged (ds : List Declaration) (keyId : Bytes) : List Entry :=
  (ds.filter fun d => d.keyId == keyId).flatMap (·.statuses)

theorem merged_concat (ds : List Declaration) (d : Declaration) (keyId : Bytes) :
    merged (ds ++ [d]) keyId =
      merged ds keyId ++ if d.keyId = keyId then d.statuses else [] := by
  rw [merged, merged, List.filter_append, List.flatMap_append, List.filter_singleton]
  by_cases h : d.keyId = keyId
  · rw [if_pos h, beq_iff_eq.mpr h]
    simp
  · rw [if_neg h, beq_eq_false_iff_ne.mpr h]
    simp

theorem mem_merged {ds : List Declaration} {keyId : Bytes} {e : Entry} :
    e ∈ merged ds keyId ↔ ∃ d ∈ ds, d.keyId = keyId ∧ e ∈ d.statuses := by
  simp only [merged, List.mem_flatMap, List.mem_filter, beq_iff_eq, and_assoc]

/-! ## The loop over a history -/

/-- `try_emplace` accepts the statuses that agree with those before them. -/
theorem enterStatus_step :
    Except.LoopStep enterStatus (fun entries history => MapLoop.Holds history entries)
      (MapLoop.Agree ValidityStatus.equals) where
  shorter done a h e he e' he' :=
    h e (List.mem_append_left _ he) e' (List.mem_append_left _ he')
  accepts done history a hholds hagree := by
    have hdone : MapLoop.Agree ValidityStatus.equals done := fun e he e' he' =>
      hagree e (List.mem_append_left _ he) e' (List.mem_append_left _ he')
    refine ⟨_, if_pos ?_⟩
    rw [hholds a.1]
    exact (MapLoop.agree_concat equivalence_equals hdone a.1 a.2).mp hagree
  keeps done history a history' hholds hagree h := by
    rw [enterStatus] at h
    split_ifs at h with hall
    rw [hholds a.1] at hall
    rw [← Except.ok.inj h]
    exact ⟨(MapLoop.agree_concat equivalence_equals hagree a.1 a.2).mpr hall,
      hholds.insertIfNew a.1 a.2⟩

/-! ## The loop over the declarations -/

/-- The declarations as the entries of the three maps. -/
def bindingEntry (d : Declaration) : Bytes × NormalizedBinding := (d.keyId, d.candidate)

def ownerEntry (d : Declaration) : Ed25519PublicKey × Bytes :=
  (d.publicKeyBytes, d.candidate.owner)

def tupleEntry (d : Declaration) : List Bytes × Bytes := (d.candidate.tuple, d.keyId)

/-- What the comparisons of the loop establish. -/
structure Coherent (ds : List Declaration) : Prop where
  bindings : MapLoop.Agree NormalizedBinding.sameImmutable (ds.map bindingEntry)
  tuples : MapLoop.Agree (· == ·) (ds.map tupleEntry)
  owners : MapLoop.Agree (· == ·) (ds.map ownerEntry)
  histories : ∀ keyId, MapLoop.Agree ValidityStatus.equals (merged ds keyId)

/-- The maps after some declarations. -/
structure MapsInv (ds : List Declaration) (maps : Maps) : Prop where
  absent : ∀ keyId, MapLoop.first (ds.map bindingEntry) keyId = none →
    maps.bindings[keyId]? = none
  stored : ∀ keyId candidate, MapLoop.first (ds.map bindingEntry) keyId = some candidate →
    ∃ history, maps.bindings[keyId]? = some { candidate with history := history } ∧
      MapLoop.Holds history (merged ds keyId)
  owners : MapLoop.Holds maps.publicKeyOwners (ds.map ownerEntry)
  tuples : MapLoop.Holds maps.tupleIds (ds.map tupleEntry)

theorem sameImmutable_iff {left right : NormalizedBinding} :
    left.sameImmutable right = true ↔
      left.principal = right.principal ∧ left.algorithm = right.algorithm ∧
        left.publicKeyBytes = right.publicKeyBytes ∧
          left.validFromInstant.key = right.validFromInstant.key := by
  simp only [NormalizedBinding.sameImmutable, Bool.and_eq_true, beq_iff_eq,
    ExactInstant.equals_iff, and_assoc]

theorem equivalence_sameImmutable :
    Equivalence fun left right : NormalizedBinding => left.sameImmutable right = true := by
  simp only [sameImmutable_iff]
  exact ⟨fun _ => ⟨rfl, rfl, rfl, rfl⟩, fun h => ⟨h.1.symm, h.2.1.symm, h.2.2.1.symm, h.2.2.2.symm⟩,
    fun h h' => ⟨h.1.trans h'.1, h.2.1.trans h'.2.1, h.2.2.1.trans h'.2.2.1,
      h.2.2.2.trans h'.2.2.2⟩⟩

theorem equivalence_beq : Equivalence fun left right : Bytes => (left == right) = true := by
  simp only [beq_iff_eq]
  exact ⟨fun _ => rfl, Eq.symm, Eq.trans⟩

theorem Coherent.shorter {ds : List Declaration} {d : Declaration} (h : Coherent (ds ++ [d])) :
    Coherent ds := by
  obtain ⟨hbindings, htuples, howners, hhistories⟩ := h
  rw [List.map_append] at hbindings htuples howners
  refine ⟨fun e he e' he' =>
      hbindings e (List.mem_append_left _ he) e' (List.mem_append_left _ he'),
    fun e he e' he' => htuples e (List.mem_append_left _ he) e' (List.mem_append_left _ he'),
    fun e he e' he' => howners e (List.mem_append_left _ he) e' (List.mem_append_left _ he'),
    fun keyId e he e' he' => ?_⟩
  have hagree := hhistories keyId
  rw [merged_concat] at hagree
  exact hagree e (List.mem_append_left _ he) e' (List.mem_append_left _ he')

section

variable {ds : List Declaration} {maps : Maps} {d : Declaration}

/-- The comparison with a stored binding is one with the first candidate. -/
theorem all_bindings (hinv : MapsInv ds maps) (candidate : NormalizedBinding) (keyId : Bytes) :
    (maps.bindings[keyId]?.all (·.sameImmutable candidate)) =
      (MapLoop.first (ds.map bindingEntry) keyId).all (·.sameImmutable candidate) := by
  cases hfirst : MapLoop.first (ds.map bindingEntry) keyId with
  | none => rw [hinv.absent keyId hfirst]
  | some existing =>
    obtain ⟨history, hstored, _⟩ := hinv.stored keyId existing hfirst
    rw [hstored]
    rfl

/-- The three comparisons, against the declarations so far. -/
theorem checkCandidate_eq_ok (hinv : MapsInv ds maps) :
    checkCandidate maps d.candidate = .ok () ↔
      (MapLoop.first (ds.map bindingEntry) d.keyId).all (·.sameImmutable d.candidate) = true ∧
      (MapLoop.first (ds.map tupleEntry) d.candidate.tuple).all (· == d.keyId) = true ∧
      (MapLoop.first (ds.map ownerEntry) d.publicKeyBytes).all (· == d.candidate.owner) = true := by
  rw [← all_bindings hinv, ← hinv.tuples, ← hinv.owners, checkCandidate]
  split_ifs with h1 h2 h3
  · exact ⟨fun _ => ⟨h1, h2, h3⟩, fun _ => rfl⟩
  · exact ⟨fun h => (nomatch h), fun h => absurd h.2.2 h3⟩
  · exact ⟨fun h => (nomatch h), fun h => absurd h.2.1 h2⟩
  · exact ⟨fun h => (nomatch h), fun h => absurd h.1 h1⟩

/-- The history that a declaration is entered into. -/
theorem holds_history (hinv : MapsInv ds maps) :
    MapLoop.Holds (maps.bindings.getD d.keyId d.candidate).history (merged ds d.keyId) := by
  rw [Std.TreeMap.getD_eq_getD_getElem?]
  cases hfirst : MapLoop.first (ds.map bindingEntry) d.keyId with
  | none =>
    have hmerged : merged ds d.keyId = [] := by
      rw [List.eq_nil_iff_forall_not_mem]
      intro e he
      obtain ⟨d', hd', hkey, _⟩ := mem_merged.mp he
      exact MapLoop.first_eq_none.mp hfirst _ (List.mem_map.mpr ⟨d', hd', rfl⟩) hkey
    rw [hinv.absent _ hfirst, hmerged]
    exact MapLoop.holds_empty
  | some candidate =>
    obtain ⟨history, hstored, hholds⟩ := hinv.stored _ _ hfirst
    rw [hstored]
    exact hholds

/-- A declaration keeps the list coherent when it passes the comparisons and
its statuses agree with those recorded before. -/
theorem coherent_concat (hcoherent : Coherent ds) :
    Coherent (ds ++ [d]) ↔
      ((MapLoop.first (ds.map bindingEntry) d.keyId).all (·.sameImmutable d.candidate) = true ∧
      (MapLoop.first (ds.map tupleEntry) d.candidate.tuple).all (· == d.keyId) = true ∧
      (MapLoop.first (ds.map ownerEntry) d.publicKeyBytes).all (· == d.candidate.owner) = true) ∧
      MapLoop.Agree ValidityStatus.equals (merged ds d.keyId ++ d.statuses) := by
  have hbindings := MapLoop.agree_concat equivalence_sameImmutable hcoherent.bindings d.keyId
    d.candidate
  have htuples := MapLoop.agree_concat equivalence_beq hcoherent.tuples d.candidate.tuple d.keyId
  have howners := MapLoop.agree_concat equivalence_beq hcoherent.owners d.publicKeyBytes
    d.candidate.owner
  constructor
  · rintro ⟨h1, h2, h3, h4⟩
    rw [List.map_append] at h1 h2 h3
    have hhistory := h4 d.keyId
    rw [merged_concat, if_pos rfl] at hhistory
    exact ⟨⟨hbindings.mp h1, htuples.mp h2, howners.mp h3⟩, hhistory⟩
  · rintro ⟨⟨h1, h2, h3⟩, h4⟩
    refine ⟨?_, ?_, ?_, fun keyId => ?_⟩
    · rw [List.map_append]
      exact hbindings.mpr h1
    · rw [List.map_append]
      exact htuples.mpr h2
    · rw [List.map_append]
      exact howners.mpr h3
    · rw [merged_concat]
      by_cases hkey : d.keyId = keyId
      · rw [if_pos hkey, ← hkey]
        exact h4
      · rw [if_neg hkey, List.append_nil]
        exact hcoherent.histories keyId

/-- The maps after a further declaration. -/
theorem MapsInv.concat (hinv : MapsInv ds maps) {history : History}
    (hholds : MapLoop.Holds history (merged ds d.keyId ++ d.statuses)) :
    MapsInv (ds ++ [d])
      ⟨maps.bindings.insert d.keyId
          { maps.bindings.getD d.keyId d.candidate with history := history },
        maps.publicKeyOwners.insertIfNew d.publicKeyBytes d.candidate.owner,
        maps.tupleIds.insertIfNew d.candidate.tuple d.keyId⟩ := by
  have hfirst (keyId : Bytes) : MapLoop.first ((ds ++ [d]).map bindingEntry) keyId =
      (MapLoop.first (ds.map bindingEntry) keyId).or
        (if d.keyId = keyId then some d.candidate else none) := by
    rw [List.map_append, MapLoop.first_append, List.map_singleton, bindingEntry,
      MapLoop.first_singleton]
  refine ⟨fun keyId hnone => ?_, fun keyId candidate hsome => ?_, ?_, ?_⟩
  · rw [hfirst, Option.or_eq_none_iff] at hnone
    have hkey : d.keyId ≠ keyId := fun heq => by
      rw [if_pos heq] at hnone
      cases hnone.2
    rw [Std.TreeMap.getElem?_insert,
      if_neg fun heq => hkey (Std.LawfulEqOrd.eq_of_compare heq)]
    exact hinv.absent keyId hnone.1
  · rw [hfirst] at hsome
    rw [merged_concat]
    by_cases hkey : d.keyId = keyId
    · subst hkey
      rw [if_pos rfl] at hsome
      rw [if_pos rfl, Std.TreeMap.getElem?_insert_self]
      refine ⟨history, ?_, hholds⟩
      rw [Std.TreeMap.getD_eq_getD_getElem?]
      cases hold : MapLoop.first (ds.map bindingEntry) d.keyId with
      | none =>
        rw [hold, Option.none_or, Option.some.injEq] at hsome
        rw [hinv.absent _ hold, ← hsome]
        rfl
      | some existing =>
        obtain ⟨stored, hstored, _⟩ := hinv.stored _ _ hold
        rw [hold, Option.some_or, Option.some.injEq] at hsome
        rw [hstored, ← hsome]
        rfl
    · rw [if_neg hkey, Option.or_none] at hsome
      rw [if_neg hkey, List.append_nil, Std.TreeMap.getElem?_insert,
        if_neg fun heq => hkey (Std.LawfulEqOrd.eq_of_compare heq)]
      exact hinv.stored keyId candidate hsome
  · rw [List.map_append]
    exact hinv.owners.insertIfNew _ _
  · rw [List.map_append]
    exact hinv.tuples.insertIfNew _ _

end

/-- The loop accepts the declarations that keep the list coherent. -/
theorem declare_step : Except.LoopStep declare MapsInv Coherent where
  shorter _ _ h := h.shorter
  accepts ds maps d hinv h := by
    obtain ⟨hcheck, hagree⟩ := (coherent_concat h.shorter).mp h
    obtain ⟨history, hrun⟩ := enterStatus_step.exists_run (holds_history hinv) hagree
    rw [declare, (checkCandidate_eq_ok hinv).mpr hcheck, Except.ok_bind]
    exact ⟨_, Except.bind_eq_ok.mpr ⟨history, hrun, rfl⟩⟩
  keeps ds maps d maps' hinv hcoherent h := by
    obtain ⟨⟨⟩, hcheck, h⟩ := Except.bind_eq_ok.mp h
    obtain ⟨history, hrun, h⟩ := Except.bind_eq_ok.mp h
    obtain ⟨hagree, hholds⟩ :=
      enterStatus_step.run (holds_history hinv) (hcoherent.histories d.keyId) hrun
    rw [← Except.ok.inj h]
    exact ⟨(coherent_concat hcoherent).mpr ⟨(checkCandidate_eq_ok hinv).mp hcheck, hagree⟩,
      hinv.concat hholds⟩

theorem mapsInv_nil : MapsInv [] Maps.empty where
  absent _ _ := Std.TreeMap.getElem?_emptyc
  stored _ _ h := nomatch h
  owners := MapLoop.holds_empty
  tuples := MapLoop.holds_empty

theorem coherent_nil : Coherent [] where
  bindings _ he := absurd he List.not_mem_nil
  tuples _ he := absurd he List.not_mem_nil
  owners _ he := absurd he List.not_mem_nil
  histories _ _ he := absurd he List.not_mem_nil

/-! ## The comparisons as conditions on the declarations -/

/-- The texts that the owner key joins hold no NUL. -/
structure NoNul (d : Declaration) : Prop where
  keyId : 0 ∉ d.keyId
  type : 0 ∉ d.principal.type

theorem NoNul.of_declares {env : Environment} {raw : Json} {d : Declaration}
    (h : Declares env raw d) : NoNul d where
  keyId hmem := by
    have hvisible := Uri.visible_of_isProtocolUri h.keyIdUri 0 hmem
    exact absurd hvisible.1 (by decide)
  type hmem := by
    obtain ⟨value, _, hprincipal⟩ := h.principal
    have htypes : ∀ type ∈ principalTypes, (0 : UInt8) ∉ type := by decide
    exact htypes _ hprincipal.supported hmem

/-- The owner key determines the key id and the principal. -/
theorem owner_eq_iff {d e : Declaration} (hd : NoNul d) (he : NoNul e) :
    d.candidate.owner = e.candidate.owner ↔ d.keyId = e.keyId ∧ d.principal = e.principal := by
  have hcons {x x' z z' : Bytes} (hx : 0 ∉ x) (hx' : 0 ∉ x') (h : x ++ 0 :: z = x' ++ 0 :: z') :
      x = x' ∧ z = z' := by
    have htake := congrArg (List.takeWhile (· != 0)) h
    have hall {y : Bytes} (hy : 0 ∉ y) (rest : Bytes) :
        (y ++ 0 :: rest).takeWhile (· != 0) = y := by
      rw [List.takeWhile_append_of_pos]
      · simp
      · intro b hb
        simp only [bne_iff_ne, ne_eq]
        rintro rfl
        exact hy hb
    rw [hall hx, hall hx'] at htake
    rw [htake] at h
    exact ⟨htake, (List.cons.inj (List.append_cancel_left h)).2⟩
  constructor
  · intro h
    obtain ⟨hkeyId, h⟩ := hcons hd.keyId he.keyId h
    obtain ⟨htype, hid⟩ := hcons hd.type he.type h
    exact ⟨hkeyId, Principal.ext htype hid⟩
  · rintro ⟨hkeyId, hprincipal⟩
    change d.keyId ++ 0 :: (d.principal.type ++ 0 :: d.principal.id) = _
    rw [hkeyId, hprincipal]
    rfl

/-- The comparisons of the loop are the conditions on any two declarations. -/
theorem coherent_iff {ds : List Declaration} (hds : ∀ d ∈ ds, NoNul d) :
    Coherent ds ↔
      Unique ds ∧ ∀ keyId, MapLoop.Agree ValidityStatus.equals (merged ds keyId) := by
  constructor
  · rintro ⟨hbindings, _, howners, hhistories⟩
    refine ⟨⟨fun d hd e he hkey => ?_, fun d hd e he hkey => ?_⟩, hhistories⟩
    · exact sameImmutable_iff.mp (hbindings (bindingEntry d) (List.mem_map_of_mem hd)
        (bindingEntry e) (List.mem_map_of_mem he) hkey)
    · have howner := howners (ownerEntry d) (List.mem_map_of_mem hd) (ownerEntry e)
        (List.mem_map_of_mem he) hkey
      exact (owner_eq_iff (hds d hd) (hds e he)).mp (beq_iff_eq.mp howner)
  · rintro ⟨⟨hkeyIds, hpublicKeys⟩, hhistories⟩
    refine ⟨?_, ?_, ?_, hhistories⟩
    · rintro _ hentry _ hentry' hkey
      obtain ⟨d, hd, rfl⟩ := List.mem_map.mp hentry
      obtain ⟨e, he, rfl⟩ := List.mem_map.mp hentry'
      exact sameImmutable_iff.mpr (hkeyIds d hd e he hkey)
    · rintro _ hentry _ hentry' hkey
      obtain ⟨d, hd, rfl⟩ := List.mem_map.mp hentry
      obtain ⟨e, he, rfl⟩ := List.mem_map.mp hentry'
      have hpublicKey : d.publicKeyBytes = e.publicKeyBytes :=
        congrArg (fun tuple => tuple.getD 3 []) hkey
      exact beq_iff_eq.mpr (hpublicKeys d hd e he hpublicKey).1
    · rintro _ hentry _ hentry' hkey
      obtain ⟨d, hd, rfl⟩ := List.mem_map.mp hentry
      obtain ⟨e, he, rfl⟩ := List.mem_map.mp hentry'
      exact beq_iff_eq.mpr
        ((owner_eq_iff (hds d hd) (hds e he)).mpr (hpublicKeys d hd e he hkey))

/-! ## The folded histories -/

/-- What the map holds after every history was folded. -/
structure Folded (ds : List Declaration) (folded : Bindings) : Prop where
  absent : ∀ keyId, (∀ d ∈ ds, d.keyId ≠ keyId) → folded[keyId]? = none
  present : ∀ keyId, (∃ d ∈ ds, d.keyId = keyId) → ∃ d ∈ ds, d.keyId = keyId ∧
    ∃ history validUntil revokedAt,
      folded[keyId]? = some { d.candidate with
        history := history
        effectiveValidUntil := validUntil
        effectiveRevokedAt := revokedAt } ∧
      Earliest ParsedBoundary.key (fun e : Entry => e.2.validUntil) (· ∈ merged ds keyId)
        validUntil ∧
      Earliest ParsedBoundary.key (fun e : Entry => e.2.revokedAt) (· ∈ merged ds keyId) revokedAt

theorem inOrder_nil : InOrder [] where
  agree _ he := absurd he List.not_mem_nil
  contiguous := ⟨0, fun n => ⟨fun ⟨_, h⟩ => absurd h List.not_mem_nil, fun h => by omega⟩⟩
  recordedAt _ he := absurd he List.not_mem_nil
  validUntil _ he := absurd he List.not_mem_nil
  revokedAt _ he := absurd he List.not_mem_nil

section

variable {ds : List Declaration} {maps : Maps}

theorem first_eq_none_iff {keyId : Bytes} :
    MapLoop.first (ds.map bindingEntry) keyId = none ↔ ∀ d ∈ ds, d.keyId ≠ keyId := by
  rw [MapLoop.first_eq_none, List.forall_mem_map]
  rfl

theorem exists_of_first {keyId : Bytes} {candidate : NormalizedBinding}
    (h : MapLoop.first (ds.map bindingEntry) keyId = some candidate) :
    ∃ d ∈ ds, d.keyId = keyId ∧ d.candidate = candidate := by
  obtain ⟨d, hd, heq⟩ := List.mem_map.mp (MapLoop.mem_of_first h)
  exact ⟨d, hd, congrArg Prod.fst heq, congrArg Prod.snd heq⟩

theorem merged_eq_nil {keyId : Bytes} (h : ∀ d ∈ ds, d.keyId ≠ keyId) :
    merged ds keyId = [] := by
  rw [List.eq_nil_iff_forall_not_mem]
  intro e he
  obtain ⟨d, hd, hkey, _⟩ := mem_merged.mp he
  exact h d hd hkey

/-- The loop that folds the histories. -/
theorem foldBindings_spec (hinv : MapsInv ds maps) (hcoherent : Coherent ds) {folded : Bindings}
    (h : foldBindings maps.bindings = .ok folded) :
    (∀ keyId, InOrder (merged ds keyId)) ∧ Folded ds folded := by
  obtain ⟨hstored, hother⟩ := MapLoop.rewrite_spec h
  have hkey (keyId : Bytes) (candidate : NormalizedBinding)
      (hfirst : MapLoop.first (ds.map bindingEntry) keyId = some candidate) :
      InOrder (merged ds keyId) ∧ ∃ d ∈ ds, d.keyId = keyId ∧
        ∃ history validUntil revokedAt,
          folded[keyId]? = some { d.candidate with
            history := history
            effectiveValidUntil := validUntil
            effectiveRevokedAt := revokedAt } ∧
          Earliest ParsedBoundary.key (fun e : Entry => e.2.validUntil) (· ∈ merged ds keyId)
            validUntil ∧
          Earliest ParsedBoundary.key (fun e : Entry => e.2.revokedAt) (· ∈ merged ds keyId)
            revokedAt := by
    obtain ⟨history, hbinding, hholds⟩ := hinv.stored keyId candidate hfirst
    obtain ⟨d, hd, hd', rfl⟩ := exists_of_first hfirst
    obtain ⟨binding, hfold, hlookup⟩ := hstored keyId _ hbinding
    obtain ⟨hgood, validUntil, revokedAt, rfl, hvalidUntil, hrevokedAt⟩ :=
      foldHistory_eq_ok rfl rfl hfold
    have hagree := hcoherent.histories keyId
    exact ⟨(foldGood_iff_inOrder hholds hagree).mp hgood, d, hd, hd', history, validUntil,
      revokedAt, hlookup, earliest_recorded hholds hagree validUntil_key hvalidUntil,
      earliest_recorded hholds hagree revokedAt_key hrevokedAt⟩
  refine ⟨fun keyId => ?_, ⟨fun keyId habsent => ?_, fun keyId hpresent => ?_⟩⟩
  · cases hfirst : MapLoop.first (ds.map bindingEntry) keyId with
    | none =>
      rw [merged_eq_nil (first_eq_none_iff.mp hfirst)]
      exact inOrder_nil
    | some candidate => exact (hkey keyId candidate hfirst).1
  · exact hother keyId (hinv.absent keyId (first_eq_none_iff.mpr habsent))
  · cases hfirst : MapLoop.first (ds.map bindingEntry) keyId with
    | none =>
      obtain ⟨d, hd, hd'⟩ := hpresent
      exact absurd hd' (first_eq_none_iff.mp hfirst d hd)
    | some candidate => exact (hkey keyId candidate hfirst).2

theorem exists_foldBindings (hinv : MapsInv ds maps) (hcoherent : Coherent ds)
    (h : ∀ keyId, InOrder (merged ds keyId)) :
    ∃ folded, foldBindings maps.bindings = .ok folded := by
  refine MapLoop.exists_rewrite fun e he => ?_
  rw [Std.TreeMap.mem_toList_iff_getElem?_eq_some] at he
  cases hfirst : MapLoop.first (ds.map bindingEntry) e.1 with
  | none =>
    rw [hinv.absent _ hfirst] at he
    cases he
  | some candidate =>
    obtain ⟨history, hbinding, hholds⟩ := hinv.stored _ candidate hfirst
    obtain ⟨d, _, _, rfl⟩ := exists_of_first hfirst
    rw [hbinding, Option.some.injEq] at he
    rw [← he]
    exact exists_foldHistory rfl rfl
      ((foldGood_iff_inOrder hholds (hcoherent.histories e.1)).mpr (h e.1))

end

/-! ## The whole registry -/

/-- The registry-wide checks on the declarations of a registry. -/
structure Valid (env : Environment) (registry : Json) (organizationId : Bytes)
    (ds : List Declaration) : Prop where
  declared : Declared env registry organizationId ds
  unique : Unique ds
  inOrder : ∀ keyId, InOrder (merged ds keyId)

section

variable {env : Environment} {registry : Json} {organizationId : Bytes} {ds : List Declaration}

theorem Declared.noNul (h : Declared env registry organizationId ds) : ∀ d ∈ ds, NoNul d := by
  obtain ⟨raws, _, _, hraws⟩ := h.bindings
  intro d hd
  obtain ⟨raw, _, hdeclares⟩ := Except.exists_of_reads hraws hd
  exact .of_declares hdeclares

/-- A registry that is evaluated passes the checks. -/
theorem valid_of_evaluateRegistry {folded : Bindings}
    (h : evaluateRegistry env registry = .ok (organizationId, folded)) :
    ∃ ds, Valid env registry organizationId ds ∧ Folded ds folded := by
  obtain ⟨ds, maps, hdeclared, hrun, hfolded⟩ := evaluateRegistry_eq_ok.mp h
  obtain ⟨hcoherent, hinv⟩ := declare_step.run mapsInv_nil coherent_nil hrun
  rw [List.nil_append] at hcoherent hinv
  obtain ⟨hinOrder, hfolded⟩ := foldBindings_spec hinv hcoherent hfolded
  exact ⟨ds, ⟨hdeclared, ((coherent_iff hdeclared.noNul).mp hcoherent).1, hinOrder⟩, hfolded⟩

/-- A registry that passes the checks is evaluated. -/
theorem exists_evaluateRegistry (h : Valid env registry organizationId ds) :
    ∃ folded, evaluateRegistry env registry = .ok (organizationId, folded) ∧ Folded ds folded := by
  obtain ⟨hdeclared, hunique, hinOrder⟩ := h
  have hcoherent : Coherent ds :=
    (coherent_iff hdeclared.noNul).mpr ⟨hunique, fun keyId => (hinOrder keyId).agree⟩
  obtain ⟨maps, hrun⟩ := declare_step.exists_run mapsInv_nil (by rwa [List.nil_append])
  obtain ⟨_, hinv⟩ := declare_step.run mapsInv_nil coherent_nil hrun
  rw [List.nil_append] at hinv
  obtain ⟨folded, hfolded⟩ := exists_foldBindings hinv hcoherent hinOrder
  exact ⟨folded, evaluateRegistry_eq_ok.mpr ⟨ds, maps, hdeclared, hrun, hfolded⟩,
    (foldBindings_spec hinv hcoherent hfolded).2⟩

end

/-! ## The selected key -/

/-- The principal is the one that the request asks for. -/
def RequestedPrincipal (request : KeyResolutionRequest) (principal : Principal) : Prop :=
  if request.servicePrincipalRequired then principal.type = ascii "service"
  else request.expectedPrincipal = some principal

/-- The declaration of the requested key, for the right principal, and valid at
the protected instant. -/
structure Selects (request : KeyResolutionRequest) (ds : List Declaration) (d : Declaration) :
    Prop where
  declared : d ∈ ds
  keyId : d.keyId = request.keyId
  principal : RequestedPrincipal request d.principal
  validFrom : d.validFromInstant.key ≤ request.protectedInstant.key
  validUntil : ∀ e ∈ merged ds request.keyId, ∀ b ∈ e.2.validUntil,
    request.protectedInstant.key < b.key
  revokedAt : ∀ e ∈ merged ds request.keyId, ∀ b ∈ e.2.revokedAt,
    request.protectedInstant.key < b.key

/-- A field pair of the resolved key holds the boundary in force. -/
def HoldsBoundary (recorded : List Entry) (limit : ValidityStatus → Option ParsedBoundary)
    (text : Option Bytes) (instant : Option ExactInstant) : Prop :=
  ∃ inForce : Option ParsedBoundary, text = inForce.map (·.text) ∧
    instant = inForce.map (·.instant) ∧
    Earliest ParsedBoundary.key (fun e : Entry => limit e.2) (· ∈ recorded) inForce

/-- The result names the organization, the fields of the declaration and the
boundaries in force. -/
structure Resolves (organizationId : Bytes) (ds : List Declaration) (d : Declaration)
    (resolution : RegistryKeyResolution) : Prop where
  organizationId : resolution.resolvedKey.organizationId = organizationId
  keyId : resolution.resolvedKey.keyId = d.keyId
  principal : resolution.resolvedKey.principal = d.principal
  algorithm : resolution.resolvedKey.algorithm = d.algorithm
  publicKey : resolution.resolvedKey.publicKey = d.publicKey
  publicKeyBytes : resolution.publicKey = d.publicKeyBytes
  validFrom : resolution.resolvedKey.validFrom = d.validFrom
  validFromInstant : resolution.resolvedKey.validFromInstant = d.validFromInstant
  validUntil : HoldsBoundary (merged ds d.keyId) ValidityStatus.validUntil
    resolution.resolvedKey.validUntil resolution.resolvedKey.validUntilInstant
  revokedAt : HoldsBoundary (merged ds d.keyId) ValidityStatus.revokedAt
    resolution.resolvedKey.revokedAt resolution.resolvedKey.revokedAtInstant

section

variable {request : KeyResolutionRequest} {binding : NormalizedBinding}

theorem checkPrincipal_eq_ok :
    checkPrincipal binding request = .ok () ↔ RequestedPrincipal request binding.principal := by
  rw [checkPrincipal, RequestedPrincipal]
  split_ifs with hservice h h
  · simp [h]
  · simp [not_not.mp h]
  · simp [h]
  · simp [not_not.mp h]

theorem reaches_eq_false {instant : ExactInstant} {limit : Option ParsedBoundary} :
    reaches instant limit = false ↔ ∀ b ∈ limit, instant.key < b.key := by
  cases limit with
  | none => simp [reaches]
  | some b => simp [reaches, ExactInstant.lt_iff, ParsedBoundary.key]

theorem checkInterval_eq_ok :
    checkInterval binding request = .ok () ↔
      binding.validFromInstant.key ≤ request.protectedInstant.key ∧
      (∀ b ∈ binding.effectiveValidUntil, request.protectedInstant.key < b.key) ∧
        ∀ b ∈ binding.effectiveRevokedAt, request.protectedInstant.key < b.key := by
  rw [← reaches_eq_false, ← reaches_eq_false, ← ExactInstant.not_lt_iff, checkInterval]
  cases request.protectedInstant.lt binding.validFromInstant <;>
    cases reaches request.protectedInstant binding.effectiveValidUntil <;>
      cases reaches request.protectedInstant binding.effectiveRevokedAt <;> simp

end

section

variable {ds : List Declaration} {folded : Bindings} {organizationId : Bytes}
  {request : KeyResolutionRequest}

/-- A key that is selected resolves as one of its declarations states. -/
theorem selects_of_selectKey (hfolded : Folded ds folded) {resolution : RegistryKeyResolution}
    (h : selectKey organizationId folded request = .ok resolution) :
    ∃ d, Selects request ds d ∧ Resolves organizationId ds d resolution := by
  rw [selectKey] at h
  cases hlookup : folded[request.keyId]? with
  | none =>
    rw [hlookup] at h
    cases h
  | some binding =>
    rw [hlookup] at h
    obtain ⟨⟨⟩, hprincipal, h⟩ := Except.bind_eq_ok.mp h
    obtain ⟨⟨⟩, hinterval, h⟩ := Except.bind_eq_ok.mp h
    have hpresent : ∃ d ∈ ds, d.keyId = request.keyId := by
      by_contra hnone
      have habsent := hfolded.absent request.keyId fun d hd heq => hnone ⟨d, hd, heq⟩
      rw [hlookup] at habsent
      cases habsent
    obtain ⟨d, hd, hkey, history, validUntil, revokedAt, hbinding, hvalidUntil, hrevokedAt⟩ :=
      hfolded.present _ hpresent
    rw [hlookup, Option.some.injEq] at hbinding
    subst hbinding
    rw [checkPrincipal_eq_ok] at hprincipal
    rw [checkInterval_eq_ok] at hinterval
    obtain ⟨hfrom, huntil, hrevoked⟩ := hinterval
    rw [← Except.ok.inj h]
    refine ⟨d, ⟨hd, hkey, hprincipal, hfrom, (hvalidUntil.forall_lt_iff _).mp huntil,
      (hrevokedAt.forall_lt_iff _).mp hrevoked⟩, ?_⟩
    rw [← hkey] at hvalidUntil hrevokedAt
    exact ⟨rfl, rfl, rfl, rfl, rfl, rfl, rfl, rfl, ⟨validUntil, rfl, rfl, hvalidUntil⟩,
      ⟨revokedAt, rfl, rfl, hrevokedAt⟩⟩

/-- A key that may be selected is selected. -/
theorem exists_selectKey (hunique : Unique ds) (hfolded : Folded ds folded) {d : Declaration}
    (h : Selects request ds d) :
    ∃ resolution, selectKey organizationId folded request = .ok resolution := by
  obtain ⟨e, he, hkey, history, validUntil, revokedAt, hbinding, hvalidUntil, hrevokedAt⟩ :=
    hfolded.present _ ⟨d, h.declared, h.keyId⟩
  obtain ⟨hprincipal, _, _, hfrom⟩ :=
    hunique.keyIds d h.declared e he (h.keyId.trans hkey.symm)
  have hcheck := h.principal
  have hstart := h.validFrom
  rw [hprincipal] at hcheck
  rw [hfrom] at hstart
  rw [selectKey, hbinding]
  refine ⟨_, Except.bind_eq_ok.mpr ⟨(), checkPrincipal_eq_ok.mpr hcheck,
    Except.bind_eq_ok.mpr ⟨(), checkInterval_eq_ok.mpr ⟨hstart, ?_, ?_⟩, rfl⟩⟩⟩
  · exact (hvalidUntil.forall_lt_iff _).mpr h.validUntil
  · exact (hrevokedAt.forall_lt_iff _).mpr h.revokedAt

end

/-! ## The resolved key -/

/-- What the registry resolves is the requested key of the requested principal,
valid at the protected instant. -/
structure Answers (env : Environment) (request : KeyResolutionRequest)
    (resolution : RegistryKeyResolution) : Prop where
  keyId : resolution.resolvedKey.keyId = request.keyId
  keyIdUri : env.isProtocolUri resolution.resolvedKey.keyId = true
  principal : RequestedPrincipal request resolution.resolvedKey.principal
  principalUri : env.isProtocolUri resolution.resolvedKey.principal.id = true
  validAt : resolution.resolvedKey.ValidAt request.protectedInstant
  publicKey : decodeStrictEd25519PublicKey resolution.resolvedKey.publicKey =
    .ok resolution.publicKey

/-- What precedes the boundary in force precedes the merged boundaries. -/
theorem HoldsBoundary.lt_iff {recorded : List Entry}
    {limit : ValidityStatus → Option ParsedBoundary} {text : Option Bytes}
    {instant : Option ExactInstant} (h : HoldsBoundary recorded limit text instant)
    (time : ExactInstant) :
    (∀ limit ∈ instant, time.lt limit = true) ↔
      ∀ e ∈ recorded, ∀ b ∈ limit e.2, time.key < b.key := by
  obtain ⟨inForce, _, rfl, hinForce⟩ := h
  rw [← hinForce.forall_lt_iff]
  constructor
  · intro hlt b hb
    exact ExactInstant.lt_iff.mp (hlt b.instant (Option.mem_map_of_mem (·.instant) hb))
  · intro hlt l hl
    obtain ⟨b, hb, rfl⟩ := Option.map_eq_some_iff.mp hl
    exact ExactInstant.lt_iff.mpr (hlt b hb)

/-! ## The whole function -/

theorem answers_of_resolves {env : Environment} {registry : Json} {organizationId : Bytes}
    {ds : List Declaration} {request : KeyResolutionRequest} {d : Declaration}
    {resolution : RegistryKeyResolution} (hdeclared : Declared env registry organizationId ds)
    (hselects : Selects request ds d) (hresolves : Resolves organizationId ds d resolution) :
    Answers env request resolution := by
  obtain ⟨raws, _, _, hraws⟩ := hdeclared.bindings
  obtain ⟨raw, _, hdeclares⟩ := Except.exists_of_reads hraws hselects.declared
  have hvalidUntil := hselects.validUntil
  have hrevokedAt := hselects.revokedAt
  rw [← hselects.keyId] at hvalidUntil hrevokedAt
  refine ⟨hresolves.keyId.trans hselects.keyId, ?_, ?_, ?_, ⟨?_,
    (hresolves.validUntil.lt_iff _).mpr hvalidUntil,
    (hresolves.revokedAt.lt_iff _).mpr hrevokedAt⟩, ?_⟩
  · rw [hresolves.keyId]
    exact hdeclares.keyIdUri
  · rw [hresolves.principal]
    exact hselects.principal
  · obtain ⟨_, _, hprincipal⟩ := hdeclares.principal
    rw [hresolves.principal]
    exact hprincipal.uri
  · rw [hresolves.validFromInstant]
    exact ExactInstant.not_lt_iff.mpr hselects.validFrom
  · rw [hresolves.publicKey, hresolves.publicKeyBytes]
    exact hdeclares.publicKeyBytes

/-- What the function returns answers the request. -/
theorem answers_of_resolve {env : Environment} {registryBytes : Bytes}
    {request : KeyResolutionRequest} {resolution : RegistryKeyResolution}
    (h : resolveAgentRegistryKey env registryBytes request = .ok resolution) :
    Answers env request resolution := by
  obtain ⟨registry, _, h⟩ := Except.bind_eq_ok.mp h
  obtain ⟨⟨organizationId, folded⟩, heval, h⟩ := Except.bind_eq_ok.mp h
  obtain ⟨ds, hvalid, hfolded⟩ := valid_of_evaluateRegistry heval
  obtain ⟨d, hselects, hresolves⟩ := selects_of_selectKey hfolded h
  exact answers_of_resolves hvalid.declared hselects hresolves

/-- The resolved key is of an organization with a protocol URI and of a
principal of a known type. -/
theorem organization_of_resolve {env : Environment} {registryBytes : Bytes}
    {request : KeyResolutionRequest} {resolution : RegistryKeyResolution}
    (h : resolveAgentRegistryKey env registryBytes request = .ok resolution) :
    env.isProtocolUri resolution.resolvedKey.organizationId = true ∧
      resolution.resolvedKey.principal.type ∈ principalTypes := by
  obtain ⟨registry, _, h⟩ := Except.bind_eq_ok.mp h
  obtain ⟨⟨organizationId, folded⟩, heval, h⟩ := Except.bind_eq_ok.mp h
  obtain ⟨ds, hvalid, hfolded⟩ := valid_of_evaluateRegistry heval
  obtain ⟨d, hselects, hresolves⟩ := selects_of_selectKey hfolded h
  obtain ⟨raws, _, _, hraws⟩ := hvalid.declared.bindings
  obtain ⟨raw, _, hdeclares⟩ := Except.exists_of_reads hraws hselects.declared
  obtain ⟨_, _, hprincipal⟩ := hdeclares.principal
  rw [hresolves.organizationId, hresolves.principal]
  exact ⟨hvalid.declared.uri, hprincipal.supported⟩

theorem asUint64?_integerJson (negative : Bool) (magnitude : Nat) {k : Nat} (hpos : 1 ≤ k)
    (hmax : k ≤ maximumSequence) :
    (integerJson negative magnitude).asUint64? = some k ↔ negative = false ∧ magnitude = k := by
  have hmax : k < 2 ^ 64 := Nat.lt_of_le_of_lt hmax (by decide)
  cases negative with
  | true =>
    rw [integerJson, if_pos rfl]
    split_ifs with hle
    · have hint : (Int64.ofInt (-(magnitude : Int))).toInt = -(magnitude : Int) :=
        Int64.toInt_ofInt_of_le (by omega) (by omega)
      rw [Json.asUint64?, hint]
      split_ifs with hnonneg
      · rw [Option.some.injEq]
        exact ⟨fun h => by omega, fun h => absurd h.1 (by decide)⟩
      · simp
    · simp [Json.asUint64?]
  | false =>
    rw [integerJson, if_neg Bool.false_ne_true]
    split_ifs with hlt
    · rw [Json.asUint64?, UInt64.toNat_ofNat', Nat.mod_eq_of_lt hlt, Option.some.injEq]
      exact ⟨fun h => ⟨rfl, h⟩, fun h => h.2⟩
    · constructor
      · intro h
        cases h
      · intro h
        omega

/-- The number literals that are read as a sequence number: plain integers. -/
theorem asUint64?_toJson (n : NumberText) {k : Nat} (hpos : 1 ≤ k) (hmax : k ≤ maximumSequence) :
    n.toJson.asUint64? = some k ↔
      n.negative = false ∧ n.fraction = none ∧ n.exponent = none ∧
        digitsValue n.integer = k := by
  rw [NumberText.toJson]
  split_ifs with hplain
  · rw [asUint64?_integerJson _ _ hpos hmax]
    exact ⟨fun h => ⟨h.1, hplain.1, hplain.2, h.2⟩, fun h => ⟨h.1, h.2.2.2⟩⟩
  · constructor
    · intro h
      cases h
    · intro h
      exact absurd ⟨h.2.1, h.2.2.1⟩ hplain

/-- A registry resolves a request exactly when its bytes are a strict JSON text
of declarations that pass the registry-wide checks and select the key of the
request, and the result is then what a declaration of the key and the merged
history state.  A sequence number is a plain integer literal. -/
theorem resolveAgentRegistryKey_eq_ok_iff (env : Environment)
    (hparse : DecodesJson env.jsonParse) :
    (∀ registryBytes request,
      (∃ resolution, resolveAgentRegistryKey env registryBytes request = .ok resolution) ↔
        ∃ registry organizationId ds d, JsonText registryBytes registry ∧
          registry.nesting ≤ maximumDepth ∧ Valid env registry organizationId ds ∧
            Selects request ds d) ∧
    (∀ registryBytes request resolution,
      resolveAgentRegistryKey env registryBytes request = .ok resolution →
        ∃ registry organizationId ds d, JsonText registryBytes registry ∧
          registry.nesting ≤ maximumDepth ∧ Valid env registry organizationId ds ∧
            Selects request ds d ∧ Resolves organizationId ds d resolution) ∧
    ∀ (n : NumberText) (k : Nat), 1 ≤ k → k ≤ maximumSequence →
      (n.toJson.asUint64? = some k ↔ n.negative = false ∧ n.fraction = none ∧
        n.exponent = none ∧ digitsValue n.integer = k) := by
  have hresult : ∀ registryBytes request resolution,
      resolveAgentRegistryKey env registryBytes request = .ok resolution →
        ∃ registry organizationId ds d, JsonText registryBytes registry ∧
          registry.nesting ≤ maximumDepth ∧ Valid env registry organizationId ds ∧
            Selects request ds d ∧ Resolves organizationId ds d resolution := by
    intro registryBytes request resolution h
    obtain ⟨registry, hregistry, h⟩ := Except.bind_eq_ok.mp h
    obtain ⟨⟨organizationId, folded⟩, hfolded, h⟩ := Except.bind_eq_ok.mp h
    obtain ⟨htext, hdepth⟩ := (parseStrictJson_eq_ok hparse).mp hregistry
    obtain ⟨ds, hvalid, hfolded⟩ := valid_of_evaluateRegistry hfolded
    obtain ⟨d, hselects, hresolves⟩ := selects_of_selectKey hfolded h
    exact ⟨registry, organizationId, ds, d, htext, hdepth, hvalid, hselects, hresolves⟩
  refine ⟨fun registryBytes request => ⟨?_, ?_⟩, hresult,
    fun n k hpos hmax => asUint64?_toJson n hpos hmax⟩
  · rintro ⟨resolution, h⟩
    obtain ⟨registry, organizationId, ds, d, htext, hdepth, hvalid, hselects, _⟩ :=
      hresult _ _ _ h
    exact ⟨registry, organizationId, ds, d, htext, hdepth, hvalid, hselects⟩
  · rintro ⟨registry, organizationId, ds, d, htext, hdepth, hvalid, hselects⟩
    obtain ⟨folded, hevaluate, hfolded⟩ := exists_evaluateRegistry hvalid
    obtain ⟨resolution, hselect⟩ := exists_selectKey hvalid.unique hfolded hselects
    refine ⟨resolution, ?_⟩
    rw [resolveAgentRegistryKey, Environment.parseStrictJson,
      (parseStrictJson_eq_ok hparse).mpr ⟨htext, hdepth⟩, Except.ok_bind, hevaluate,
      Except.ok_bind]
    exact hselect

/-- A registry with one key, declared twice. -/
def sampleRegistry : Bytes := List.flatMap ascii [
  "\x7b\"organizationId\":\"urn:mwp:organization:acme\",\"bindings\":[",
  "\x7b\"keyId\":\"urn:mwp:key:one\",\"algorithm\":\"Ed25519\",",
  "\"principal\":\x7b\"type\":\"agent\",\"id\":\"urn:mwp:agent:one\"\x7d,",
  "\"publicKey\":\"11qYAYKxCrfVS_7TyWQHOg7hcvPapiMlrwIaaPcHURo\",",
  "\"validFrom\":\"2026-07-15T08:00:00+08:00\",\"validityHistory\":[",
  "\x7b\"sequence\":1,\"recordedAt\":\"2026-07-16T00:00:00Z\"\x7d]\x7d,",
  "\x7b\"keyId\":\"urn:mwp:key:one\",\"algorithm\":\"Ed25519\",",
  "\"principal\":\x7b\"type\":\"agent\",\"id\":\"urn:mwp:agent:one\"\x7d,",
  "\"publicKey\":\"11qYAYKxCrfVS_7TyWQHOg7hcvPapiMlrwIaaPcHURo\",",
  "\"validFrom\":\"2026-07-15T00:00:00Z\",\"validityHistory\":[",
  "\x7b\"sequence\":2,\"recordedAt\":\"2026-07-17T00:00:00Z\",",
  "\"validUntil\":\"2026-07-18T00:00:00Z\"\x7d]\x7d]\x7d"]

/-- A request for that key. -/
def sampleRequest : KeyResolutionRequest :=
  ⟨.evidence, ascii "urn:mwp:key:one", some ⟨ascii "agent", ascii "urn:mwp:agent:one"⟩, false,
    ascii "2026-07-16T01:00:00Z", ⟨1784163600, []⟩⟩

/-- The resolution in a parsed registry. -/
def resolveValue (env : Environment) (registry : Json) (request : KeyResolutionRequest) :
    Except Thrown RegistryKeyResolution := do
  let (organizationId, bindings) ← evaluateRegistry env registry
  selectKey organizationId bindings request

theorem resolveAgentRegistryKey_sample :
    ∃ registry organizationId ds d, JsonText sampleRegistry registry ∧
      registry.nesting ≤ maximumDepth ∧
        Valid Environment.reference registry organizationId ds ∧ Selects sampleRequest ds d := by
  have hok : (do
      let registry ← referenceParse sampleRegistry
      resolveValue .reference registry sampleRequest).isOk = true := by decide +kernel
  obtain ⟨resolution, h⟩ := Except.exists_ok_of_isOk hok
  obtain ⟨registry, hregistry, h⟩ := Except.bind_eq_ok.mp h
  exact ((resolveAgentRegistryKey_eq_ok_iff .reference decodesJson_referenceParse).1 _ _).mp
    ⟨resolution, Except.bind_eq_ok.mpr ⟨registry, parseStrictJson_reference hregistry, h⟩⟩

end MissionWeave.Registry
