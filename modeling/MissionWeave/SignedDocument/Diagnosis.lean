import Mathlib.Order.Bounds.Basic
import MissionWeave.Canonical.RoundTrip
import MissionWeave.Json.Denoted
import MissionWeave.SignedDocument.Timestamps

/-!
# What a verification error says

An error of `verify` names a stage, and its wire code is that of the stage.
Here the stages are told from the received bytes, the registry and the
signature, and the error is compared with them.

* `StagePasses`: what each stage demands, with all that comes before it.
* `verify_reports`: `verify` reports the first stage that does not pass.
-/

namespace MissionWeave

namespace VerificationStage

/-- The place of a stage in `verify`. -/
def position : VerificationStage → Nat
  | .parse => 0
  | .schema => 1
  | .signatureEnvelope => 2
  | .keyResolution => 3
  | .canonicalization => 4
  | .signature => 5
  | .complete => 6

theorem position_injective : Function.Injective position := by
  intro stage stage' h
  cases stage <;> cases stage' <;> first | rfl | cases h

/-- The stages in the order in which `verify` runs them. -/
instance : LinearOrder VerificationStage := LinearOrder.lift' position position_injective

/-- The stage at a place. -/
def at' : Nat → VerificationStage
  | 0 => .parse
  | 1 => .schema
  | 2 => .signatureEnvelope
  | 3 => .keyResolution
  | 4 => .canonicalization
  | 5 => .signature
  | _ => .complete

theorem at'_position (stage : VerificationStage) : at' stage.position = stage := by
  cases stage <;> rfl

end VerificationStage

namespace SignedDocumentCodec

open Canonical (serialize_spec wellFormed_of_serialize ordered_of_wellFormed)
open Sanitizer (sanitizeUnpairedSurrogates)
open StrictScanner (maximumDepth)

/-! ## The stages -/

/-- The document in the received bytes, with U+E000 for unpaired surrogates. -/
def ReceivedAs (receivedBytes : Bytes) (document : Json) : Prop :=
  JsonText (sanitizeUnpairedSurrogates receivedBytes).text document ∧
    document.nesting ≤ maximumDepth

/-- What the schema stage demands of a document. -/
structure Conforms (env : Environment) (selected : Profile) (document : Json) : Prop where
  valid : Validates env.validate selected.schema document
  object : document.isObject = true
  protectedTime : InstantMember document selected.protectedTime
  createdAt : ∃ signature, document.member? "signature" = some signature ∧
    InstantMember signature "createdAt"

/-- The answer of the resolver has a key for the request. -/
def Resolves (env : Environment) (resolver : KeyResolver) (request : KeyResolutionRequest)
    (resolution : RegistryKeyResolution) : Prop :=
  ∃ snapshot, resolver request = .ok snapshot ∧ snapshot.completeness = .organizationWide ∧
    Registry.resolveAgentRegistryKey env snapshot.registryBytes request = .ok resolution

/-- The document can be written canonically. -/
def Canonicalizes (parsed : ParsedDocument) : Prop :=
  parsed.unpairedSurrogate = false ∧ parsed.document.FiniteNumbers

/-- The signature of the opened document verifies with a key. -/
def Verifies (env : Environment) (opened : OpenedDocument) (publicKey : Ed25519PublicKey) : Prop :=
  ∃ signingBytes, Canonical.canonicalJson (opened.parsed.document.erase "signature") =
      .ok signingBytes ∧
    env.ed25519Verify publicKey signingBytes opened.envelope.signature.bytes = .ok true

section

variable (env : Environment) (kind : SignedDocumentKind) (receivedBytes : Bytes)
  (resolver : KeyResolver)

/-- A stage passes, and so do those before it.  `complete` is no stage that
could fail: it stands for the end. -/
def StagePasses : VerificationStage → Prop
  | .parse => ∃ document, ReceivedAs receivedBytes document
  | .schema => ∃ document, ReceivedAs receivedBytes document ∧
      Conforms env (profile kind) document
  | .signatureEnvelope => ∃ opened, Opens env kind receivedBytes opened
  | .keyResolution => ∃ opened resolution, Opens env kind receivedBytes opened ∧
      Resolves env resolver opened.request resolution
  | .canonicalization => ∃ opened resolution, Opens env kind receivedBytes opened ∧
      Resolves env resolver opened.request resolution ∧ Canonicalizes opened.parsed
  | .signature => ∃ opened resolution, Opens env kind receivedBytes opened ∧
      Resolves env resolver opened.request resolution ∧ Canonicalizes opened.parsed ∧
        Verifies env opened resolution.publicKey
  | .complete => False

end

/-- What `verify` returns or throws, if `stage` is the first one that does not
pass.  Only a thrown value that is no `std::exception` is passed on as it is, and
only the two hashes are computed outside the stages. -/
def Reports (result : Except Thrown VerifiedSignedDocument) (stage : VerificationStage) : Prop :=
  match result with
  | .ok _ => stage = .complete
  | .error (.verificationError diagnostic) =>
      stage ≠ .complete ∧ diagnostic.stage = stage ∧ diagnostic.reason ≠ ""
  | .error .foreign => stage ≠ .complete
  | .error thrown =>
      stage = .complete ∧ thrown = .otherException "unable to calculate SHA-256"

section

variable {env : Environment} {kind : SignedDocumentKind} {receivedBytes : Bytes}
  {resolver : KeyResolver} {stage other : VerificationStage}

/-! ## The order of the stages -/

theorem conforms_iff {selected : Profile} {document : Json} :
    schemaStage env selected document = .ok () ↔ Conforms env selected document := by
  rw [schemaStage_eq_ok]
  constructor
  · rintro ⟨hvalid, hobject, hprotectedTime, hcreatedAt⟩
    exact ⟨hvalid, hobject, hprotectedTime, hcreatedAt⟩
  · rintro ⟨hvalid, hobject, hprotectedTime, hcreatedAt⟩
    exact ⟨hvalid, hobject, hprotectedTime, hcreatedAt⟩

theorem Opens.receivedAs (hparse : DecodesJson env.jsonParse) {opened : OpenedDocument}
    (h : Opens env kind receivedBytes opened) : ReceivedAs receivedBytes opened.parsed.document :=
  (parseStrictJson_eq_ok hparse).mp h.parsed

theorem Opens.conforms {opened : OpenedDocument} (h : Opens env kind receivedBytes opened) :
    Conforms env (profile kind) opened.parsed.document :=
  conforms_iff.mp ((schemaStage_of_readsEnvelope h.envelope).mpr ⟨h.schema, h.object⟩)

/-- A stage passes only after the one before. -/
theorem stagePasses_of_succ (hparse : DecodesJson env.jsonParse) (n : Nat)
    (h : StagePasses env kind receivedBytes resolver (.at' (n + 1))) :
    StagePasses env kind receivedBytes resolver (.at' n) := by
  match n, h with
  | 0, ⟨document, hreceived, _⟩ => exact ⟨document, hreceived⟩
  | 1, ⟨opened, hopens⟩ =>
    exact ⟨opened.parsed.document, hopens.receivedAs hparse, hopens.conforms⟩
  | 2, ⟨opened, _, hopens, _⟩ => exact ⟨opened, hopens⟩
  | 3, ⟨opened, resolution, hopens, hresolves, _⟩ => exact ⟨opened, resolution, hopens, hresolves⟩
  | 4, ⟨opened, resolution, hopens, hresolves, hcanonicalizes, _⟩ =>
    exact ⟨opened, resolution, hopens, hresolves, hcanonicalizes⟩
  | _ + 5, h => exact h.elim

theorem stagePasses_of_le (hparse : DecodesJson env.jsonParse)
    (h : StagePasses env kind receivedBytes resolver stage) (hle : other ≤ stage) :
    StagePasses env kind receivedBytes resolver other := by
  rw [← stage.at'_position] at h
  rw [← other.at'_position]
  exact antitone_nat_of_succ_le
    (f := fun n => StagePasses env kind receivedBytes resolver (.at' n))
    (fun n => stagePasses_of_succ hparse n) hle h

/-- The stage behind one that passes is the first that does not pass. -/
theorem isLeast_of_passes (hparse : DecodesJson env.jsonParse)
    (hnext : other.position = stage.position + 1)
    (h : StagePasses env kind receivedBytes resolver stage)
    (hfails : ¬StagePasses env kind receivedBytes resolver other) :
    IsLeast {stage | ¬StagePasses env kind receivedBytes resolver stage} other := by
  refine ⟨hfails, fun earlier hearlier => ?_⟩
  by_contra hlt
  have hposition : earlier.position < other.position := not_le.mp hlt
  rw [hnext] at hposition
  exact hearlier (stagePasses_of_le hparse h (Nat.le_of_lt_succ hposition))

/-! ## The error of a stage -/

/-- What a stage throws. -/
def NamesStage (stage : VerificationStage) (thrown : Thrown) : Prop :=
  thrown = .foreign ∨ ∃ reason, reason ≠ "" ∧ thrown = .verificationError ⟨stage, reason⟩

theorem exceptionReason_ne_empty (what : String) : exceptionReason what ≠ "" := by
  unfold exceptionReason
  split_ifs with h
  · decide
  · exact h

theorem namesStage_of_inStage {α : Type} {block : Except Thrown α} {thrown : Thrown}
    (h : inStage stage block = .error thrown) : NamesStage stage thrown := by
  cases block with
  | ok value => cases h
  | error inner =>
    cases inner with
    | foreign => exact Or.inl (Except.error.inj h).symm
    | _ => exact Or.inr ⟨_, exceptionReason_ne_empty _, (Except.error.inj h).symm⟩

theorem NamesStage.reports {thrown : Thrown} (h : NamesStage stage thrown)
    (hstage : stage ≠ .complete) : Reports (.error thrown) stage := by
  rcases h with rfl | ⟨reason, hreason, rfl⟩
  · exact hstage
  · exact ⟨hstage, rfl, hreason⟩

/-! ## Up to the resolver -/

theorem parseStage_of_receivedAs (hparse : DecodesJson env.jsonParse) {document : Json}
    (h : ReceivedAs receivedBytes document) : parseStage env receivedBytes = .ok
      ⟨document, (sanitizeUnpairedSurrogates receivedBytes).unpairedSurrogate⟩ :=
  parseStage_eq_ok.mpr ⟨(parseStrictJson_eq_ok hparse).mpr h, rfl⟩

/-- A document that is not opened fails at the first of its stages that does not
pass, before the resolver is asked. -/
theorem openDocument_eq_error (hparse : DecodesJson env.jsonParse)
    (h : ¬∃ opened, Opens env kind receivedBytes opened) :
    ∃ stage thrown, stage < .keyResolution ∧ NamesStage stage thrown ∧
      openDocument env kind receivedBytes = .error thrown ∧
        ∀ resolver,
          IsLeast {stage | ¬StagePasses env kind receivedBytes resolver stage} stage := by
  rw [openDocument]
  cases hparsed : parseStage env receivedBytes with
  | error thrown =>
    refine ⟨.parse, thrown, by decide, namesStage_of_inStage hparsed, rfl,
      fun resolver => ⟨?_, fun _ _ => Nat.zero_le _⟩⟩
    rintro ⟨document, hdocument⟩
    rw [parseStage_of_receivedAs hparse hdocument] at hparsed
    cases hparsed
  | ok parsed =>
    have hreceived : ReceivedAs receivedBytes parsed.document :=
      (parseStrictJson_eq_ok hparse).mp (parseStage_eq_ok.mp hparsed).1
    rw [Except.ok_bind]
    cases hschema : schemaStage env (profile kind) parsed.document with
    | error thrown =>
      have hpasses (resolver : KeyResolver) : StagePasses env kind receivedBytes resolver .parse :=
        ⟨parsed.document, hreceived⟩
      refine ⟨.schema, thrown, by decide, namesStage_of_inStage hschema, rfl,
        fun resolver => isLeast_of_passes hparse rfl (hpasses resolver) ?_⟩
      rintro ⟨document, hdocument, hconforms⟩
      rw [parseStage_of_receivedAs hparse hdocument, Except.ok.injEq] at hparsed
      rw [← hparsed, conforms_iff.mpr hconforms] at hschema
      cases hschema
    | ok _ =>
      have hconforms := conforms_iff.mp hschema
      rw [Except.ok_bind]
      cases henvelope : envelopeStage (profile kind) parsed.document with
      | error thrown =>
        have hpasses (resolver : KeyResolver) :
            StagePasses env kind receivedBytes resolver .schema :=
          ⟨parsed.document, hreceived, hconforms⟩
        exact ⟨.signatureEnvelope, thrown, by decide, namesStage_of_inStage henvelope, rfl,
          fun resolver => isLeast_of_passes hparse rfl (hpasses resolver) h⟩
      | ok envelope =>
        obtain ⟨hdocument, hflag⟩ := parseStage_eq_ok.mp hparsed
        exact absurd ⟨⟨kind, receivedBytes, parsed, envelope⟩, hdocument, hflag, hconforms.valid,
          hconforms.object, envelopeStage_eq_ok.mp henvelope, rfl, rfl⟩ h

/-! ## From the answer of the resolver on -/

theorem canonicalizes_iff (hparse : DecodesJson env.jsonParse) {opened : OpenedDocument}
    (hopens : Opens env kind receivedBytes opened) :
    (∃ bytes, canonicalizationStage opened.parsed = .ok bytes) ↔ Canonicalizes opened.parsed := by
  have hwf := wellFormed_of_jsonText (hopens.receivedAs hparse).1
  constructor
  · rintro ⟨bytes, hbytes⟩
    obtain ⟨hpaired, _, hcanonical⟩ := canonicalizationStage_eq_ok.mp hbytes
    exact ⟨hpaired,
      (wellFormed_of_serialize (ordered_of_wellFormed hwf) hcanonical).2⟩
  · rintro ⟨hpaired, hfinite⟩
    obtain ⟨signingBytes, _, hsigning, _⟩ :=
      serialize_spec (hwf.erase "signature") (hfinite.erase "signature")
    obtain ⟨canonicalBytes, _, hcanonical, _⟩ := serialize_spec hwf hfinite
    exact ⟨⟨signingBytes, canonicalBytes⟩,
      canonicalizationStage_eq_ok.mpr ⟨hpaired, hsigning, hcanonical⟩⟩

/-- The hash of a document that passed every stage is returned, or its
calculation fails. -/
theorem sha256_cases (env : Environment) (bytes : Bytes) :
    (∃ hash, env.sha256 bytes = .ok hash) ∨
      env.sha256 bytes = .error (.otherException "unable to calculate SHA-256") := by
  unfold Environment.sha256
  cases env.evpDigest bytes with
  | none => exact Or.inr rfl
  | some digest => exact Or.inl ⟨_, rfl⟩

/-- What comes behind the stages is the end. -/
theorem reports_complete (signingBytes canonicalBytes : Bytes)
    (verified : Bytes → Bytes → VerifiedSignedDocument) :
    Reports (do
      let signingHash ← env.sha256 signingBytes
      let canonicalHash ← env.sha256 canonicalBytes
      .ok (verified signingHash canonicalHash)) .complete := by
  rcases sha256_cases env signingBytes with ⟨signingHash, hsigning⟩ | hsigning
  · rw [hsigning, Except.ok_bind]
    rcases sha256_cases env canonicalBytes with ⟨canonicalHash, hcanonical⟩ | hcanonical
    · rw [hcanonical, Except.ok_bind]
      exact rfl
    · rw [hcanonical]
      exact ⟨rfl, rfl⟩
  · rw [hsigning]
    exact ⟨rfl, rfl⟩

/-- What an opened document is answered with. -/
theorem completeDocument_reports (resolver : KeyResolver) (hparse : DecodesJson env.jsonParse)
    {opened : OpenedDocument}
    (hopens : Opens env kind receivedBytes opened) :
    ∃ stage, IsLeast {stage | ¬StagePasses env kind receivedBytes resolver stage} stage ∧
      Reports (completeDocument env opened (resolver opened.request)) stage := by
  -- what passes is told of some opened document, and there is only this one
  have hunique {other : OpenedDocument} (hother : Opens env kind receivedBytes other) :
      other = opened :=
    Except.ok.inj ((openDocument_eq_ok.mpr hother).symm.trans (openDocument_eq_ok.mpr hopens))
  rw [completeDocument]
  cases hresolution : resolutionStage env opened.request (resolver opened.request) with
  | error thrown =>
    have hpasses : StagePasses env kind receivedBytes resolver .signatureEnvelope :=
      ⟨opened, hopens⟩
    refine ⟨.keyResolution, isLeast_of_passes hparse rfl hpasses ?_,
      (namesStage_of_inStage hresolution).reports (by decide)⟩
    rintro ⟨other, resolution, hother, hresolves⟩
    rw [hunique hother] at hresolves
    rw [resolutionStage_eq_ok.mpr hresolves] at hresolution
    cases hresolution
  | ok resolution =>
    have hresolves : Resolves env resolver opened.request resolution :=
      resolutionStage_eq_ok.mp hresolution
    rw [Except.ok_bind, finishDocument]
    cases hcanonicalization : canonicalizationStage opened.parsed with
    | error thrown =>
      have hpasses : StagePasses env kind receivedBytes resolver .keyResolution :=
        ⟨opened, resolution, hopens, hresolves⟩
      refine ⟨.canonicalization, isLeast_of_passes hparse rfl hpasses ?_,
        (namesStage_of_inStage hcanonicalization).reports (by decide)⟩
      rintro ⟨other, _, hother, _, hcanonicalizes⟩
      rw [hunique hother, ← canonicalizes_iff hparse hopens] at hcanonicalizes
      obtain ⟨bytes, hbytes⟩ := hcanonicalizes
      rw [hbytes] at hcanonicalization
      cases hcanonicalization
    | ok bytes =>
      have hcanonicalizes := (canonicalizes_iff hparse hopens).mp ⟨bytes, hcanonicalization⟩
      have hsigning := (canonicalizationStage_eq_ok.mp hcanonicalization).2.1
      rw [Except.ok_bind]
      cases hsignature : signatureStage env resolution.publicKey bytes.signingBytes
          opened.envelope.signature.bytes with
      | error thrown =>
        have hpasses : StagePasses env kind receivedBytes resolver .canonicalization :=
          ⟨opened, resolution, hopens, hresolves, hcanonicalizes⟩
        refine ⟨.signature, isLeast_of_passes hparse rfl hpasses ?_,
          (namesStage_of_inStage hsignature).reports (by decide)⟩
        rintro ⟨other, resolution', hother, hresolves', _, signingBytes, hbytes, hverifies⟩
        rw [hunique hother] at hresolves' hbytes hverifies
        rw [hsigning, Except.ok.injEq] at hbytes
        have hresolution' := resolutionStage_eq_ok.mpr hresolves'
        rw [hresolution, Except.ok.injEq] at hresolution'
        rw [← hbytes, ← hresolution'] at hverifies
        rw [signatureStage_eq_ok.mpr hverifies] at hsignature
        cases hsignature
      | ok _ =>
        have hpasses : StagePasses env kind receivedBytes resolver .signature :=
          ⟨opened, resolution, hopens, hresolves, hcanonicalizes, bytes.signingBytes, hsigning,
            signatureStage_eq_ok.mp hsignature⟩
        refine ⟨.complete, isLeast_of_passes hparse rfl hpasses id, ?_⟩
        rw [Except.ok_bind]
        exact reports_complete _ _ _

end

/-- `verify` reports the first stage that does not pass: its error names that
stage and gives a reason, and a document that passes them all is returned if its
hashes can be calculated.  A stage before the key resolution is reported without
asking the resolver. -/
theorem verify_reports (env : Environment) (hparse : DecodesJson env.jsonParse)
    (kind : SignedDocumentKind) (receivedBytes : Bytes) (resolver : KeyResolver) :
    ∃ stage, IsLeast {stage | ¬StagePasses env kind receivedBytes resolver stage} stage ∧
      Reports (verify env kind receivedBytes resolver) stage ∧
      (stage < .keyResolution → ∀ resolver', verify env kind receivedBytes resolver' =
        verify env kind receivedBytes resolver) := by
  by_cases hopens : ∃ opened, Opens env kind receivedBytes opened
  · obtain ⟨opened, hopens⟩ := hopens
    obtain ⟨stage, hleast, hreports⟩ := completeDocument_reports resolver hparse hopens
    refine ⟨stage, hleast, ?_, fun hlt => ?_⟩
    · rwa [verify, openDocument_eq_ok.mpr hopens, Except.ok_bind]
    · have hpasses : StagePasses env kind receivedBytes resolver .signatureEnvelope :=
        ⟨opened, hopens⟩
      exact absurd (stagePasses_of_le hparse hpasses (Nat.le_of_lt_succ hlt)) hleast.1
  · obtain ⟨stage, thrown, hlt, hnames, hthrown, hleast⟩ := openDocument_eq_error hparse hopens
    have hverify (resolver : KeyResolver) :
        verify env kind receivedBytes resolver = .error thrown := by
      rw [verify, hthrown]
      rfl
    refine ⟨stage, hleast resolver, ?_, fun _ resolver' => ?_⟩
    · rw [hverify]
      exact hnames.reports (ne_of_lt (lt_trans hlt (by decide)))
    · rw [hverify, hverify]

/-- What is no JSON text is reported at the parse stage. -/
theorem verify_reports_sample :
    IsLeast {stage | ¬StagePasses .reference .evidence (ascii "\x7b")
        (completeResolver []) stage} .parse ∧
      Reports (verify .reference .evidence (ascii "\x7b") (completeResolver [])) .parse := by
  obtain ⟨stage, hleast, hreports, _⟩ := verify_reports .reference decodesJson_referenceParse
    .evidence (ascii "\x7b") (completeResolver [])
  have hparse : ¬StagePasses .reference .evidence (ascii "\x7b") (completeResolver []) .parse := by
    rintro ⟨document, hdocument⟩
    have hdecode := Decoder.decode_eq_some.mpr hdocument
    have hnone : Decoder.decode (sanitizeUnpairedSurrogates (ascii "\x7b")).text = none := by
      decide +kernel
    rw [hnone] at hdecode
    cases hdecode
  have hstage : stage = .parse := by
    have hle := hleast.2 hparse
    cases stage <;> first | rfl | exact absurd hle (by decide)
  rw [hstage] at hleast hreports
  exact ⟨hleast, hreports⟩

end SignedDocumentCodec

end MissionWeave
