import MissionWeave.Json.Denoted
import MissionWeave.SignedDocument.SignVerify

/-!
# One document in several texts

What `verify` says of a document does not depend on the text that it is received
in, and who holds the key of the signer signs it again to the same document.

* `acceptsSignature`: the schema of a signature, as far as the results need it.
* `verify_reformatted`: another text of the same data is accepted alike.
* `sign_of_verify`: `sign` returns what `verify` has accepted.
-/

namespace MissionWeave

open StrictScanner (maximumDepth)
open Sanitizer (sanitize_of_jsonText)

/-- The document as it was verified from another text. -/
def VerifiedSignedDocument.inText (verified : VerifiedSignedDocument) (document : Json)
    (receivedBytes : Bytes) : VerifiedSignedDocument :=
  { verified with document := document, receivedBytes := receivedBytes }

namespace SignedDocumentCodec

/-! ## The schema of a signature -/

/-- The members that `common.schema.json` requires of a signature. -/
def signatureFields : List String := ["algorithm", "keyId", "createdAt", "value"]

/-- `"type": "object"`, `required` and `"additionalProperties": false`, the
`const` of the algorithm, and the type of the other members, which a wide integer
passes as well. -/
def acceptsSignature (signature : Json) : Bool :=
  signature.isObject && signature.member? "algorithm" == some (.string (ascii "Ed25519")) &&
    (signatureFields.all fun field => ((signature.member? field).bind Json.asString?).isSome) &&
    signature.members.all fun m => signatureFields.any fun field => m.1 == ascii field

/-- The catalog asserts that schema of every Signed Document. -/
def AssertsSignatures (validate : Validate) : Prop :=
  ∀ kind document, Validates validate (profile kind).schema document →
    ∃ signature, document.member? "signature" = some signature ∧ acceptsSignature signature = true

/-- A text of 64 bytes is no numeral: its last character has only two bits of the
last byte. -/
theorem notNumeral_base64urlEncode {bytes : Bytes} (h : bytes.length % 3 = 1) :
    NotNumeral (base64urlEncode bytes) := by
  obtain ⟨value, hvalue, hmem⟩ := exists_mem_base64urlEncode h
  have hletters : ∀ value < 4, Ascii.isDigit (toUrl (base64Char (value * 16))) = false ∧
      toUrl (base64Char (value * 16)) ≠ Ascii.minus := by
    decide
  exact ⟨_, hmem, hletters value hvalue⟩

section

variable {signature : Json} {material : SignatureMaterial}

theorem acceptsSignature_iff :
    acceptsSignature signature = true ↔ signature.isObject = true ∧
      StringMember signature "algorithm" (ascii "Ed25519") ∧
      (∀ field ∈ signatureFields, ∃ text, TextMember signature field text) ∧
      ∀ name ∈ signature.members.map Prod.fst, name ∈ signatureFields.map ascii := by
  simp only [acceptsSignature, Bool.and_eq_true, List.all_eq_true, List.any_eq_true, beq_iff_eq,
    Option.isSome_iff_exists, Option.bind_eq_some_iff, and_assoc, List.mem_map,
    forall_exists_index, and_imp, forall_apply_eq_imp_iff₂, @eq_comm Bytes _ (ascii _)]
  rfl

/-- The members that are read from a signature are strings. -/
structure ReadsStrings (signature : Json) (material : SignatureMaterial) : Prop where
  algorithm : StringMember signature "algorithm" material.algorithm
  keyId : StringMember signature "keyId" material.keyId
  createdAt : StringMember signature "createdAt" material.createdAt
  value : StringMember signature "value" material.value

/-- No wide integer is the URI of a key, a time that ends in `Z` or the text of 64
bytes. -/
theorem ReadsSignature.strings {env : Environment} (h : ReadsSignature signature material)
    (haccepts : acceptsSignature signature = true)
    (hkeyId : env.isProtocolUri material.keyId = true)
    (hcreatedAt : endsWithZ material.createdAt = true) : ReadsStrings signature material where
  algorithm := by
    obtain ⟨_, halgorithm, _, _⟩ := acceptsSignature_iff.mp haccepts
    rwa [h.algorithm.unique halgorithm.textMember]
  keyId := (notNumeral_of_isProtocolUri hkeyId).stringMember h.keyId
  createdAt := (notNumeral_of_endsWithZ hcreatedAt).stringMember h.createdAt
  value := by
    have hvalue : NotNumeral material.value := by
      rw [h.encoded]
      apply notNumeral_base64urlEncode
      rw [h.length]
    exact hvalue.stringMember h.value

/-- The strings of a signature are a matter of the data. -/
theorem ReadsSignature.of_data {signature' : Json} (h : ReadsSignature signature material)
    (hstrings : ReadsStrings signature material) (hdata : signature'.data = signature.data) :
    ReadsSignature signature' material where
  algorithm := (hstrings.algorithm.of_data hdata).textMember
  keyId := (hstrings.keyId.of_data hdata).textMember
  createdAt := (hstrings.createdAt.of_data hdata).textMember
  value := (hstrings.value.of_data hdata).textMember
  encoded := h.encoded
  length := h.length
  encoding := h.encoding

/-- A signature is the envelope that `sign` sets. -/
theorem eq_signatureEnvelope (hordered : signature.Ordered)
    (h : acceptsSignature signature = true) (hstrings : ReadsStrings signature material) :
    signature = signatureEnvelope material.keyId material.createdAt material.value := by
  obtain ⟨hobject, halgorithm, _, hnames⟩ := acceptsSignature_iff.mp h
  have hvalues : ∀ n ∈ [(ascii "value", Json.string material.value),
      (ascii "createdAt", .string material.createdAt), (ascii "keyId", .string material.keyId),
      (ascii "algorithm", .string (ascii "Ed25519"))],
        Json.lookup n.1 signature.members = some n.2 := by
    simp only [List.forall_mem_cons, List.not_mem_nil, false_implies, implies_true, and_true,
      ← Json.member?_eq_lookup]
    exact ⟨hstrings.value, hstrings.createdAt, hstrings.keyId, halgorithm⟩
  have hnodup : ([(ascii "value", Json.string material.value),
      (ascii "createdAt", .string material.createdAt), (ascii "keyId", .string material.keyId),
      (ascii "algorithm", .string (ascii "Ed25519"))].map Prod.fst).Nodup := by
    change (["value", "createdAt", "keyId", "algorithm"].map ascii).Nodup
    decide
  refine Json.eq_ofMembers hordered hobject hnodup (fun name => ⟨fun hname => ?_,
    fun hname => ?_⟩) hvalues
  · have hmem := hnames name hname
    simp only [signatureFields, List.map_cons, List.map_nil, List.mem_cons] at hmem ⊢
    tauto
  · obtain ⟨n, hn, rfl⟩ := List.mem_map.mp hname
    rw [Json.mem_names_iff, hvalues n hn]
    exact Option.some_ne_none _

end

/-! ## Other texts of a document -/

section

variable {env : Environment} {kind : SignedDocumentKind} {document document' : Json}

/-- An envelope is a matter of the data, if the signature conforms to its schema
and the signer and the key are named by URIs. -/
theorem ReadsEnvelope.of_data {selected : Profile} {envelope : Envelope}
    (h : ReadsEnvelope selected document envelope) (hdata : document'.data = document.data)
    (hsignature : ∃ signature, document.member? "signature" = some signature ∧
      acceptsSignature signature = true)
    (hkeyId : env.isProtocolUri envelope.signature.keyId = true)
    (huri : ∀ principal, envelope.expected = some principal →
      env.isProtocolUri principal.id = true) : ReadsEnvelope selected document' envelope := by
  obtain ⟨signature, hmember, haccepts⟩ := hsignature
  obtain ⟨value, hvalue, hreads⟩ := h.signature
  obtain rfl : signature = value := Option.some.inj (hmember.symm.trans hvalue)
  obtain ⟨signature', hmember', hsame⟩ := Json.exists_member?_of_data hdata hmember
  have htime := (notNumeral_of_endsWithZ h.zulu).stringMember h.protectedTime
  have hstrings := hreads.strings haccepts hkeyId (h.createdAt ▸ h.zulu)
  exact ⟨(htime.of_data hdata).textMember, h.instant, h.zulu, h.createdAt,
    h.expected.of_data huri fun value hvalue => Json.exists_member?_of_data hdata hvalue,
    signature', hmember', hreads.of_data hstrings hsame⟩

/-- The document as it was opened from another text. -/
def OpenedDocument.inText (opened : OpenedDocument) (document : Json) (receivedBytes : Bytes) :
    OpenedDocument :=
  { opened with receivedBytes := receivedBytes, parsed := ⟨document, false⟩ }

/-- Another text of the data of an accepted document is opened alike, and asks
the resolver for the same key. -/
theorem Opens.inText (hparse : DecodesJson env.jsonParse)
    (hdata : DependsOnNarrowData env.validate) (hasserts : AssertsSignatures env.validate)
    {receivedBytes receivedBytes' : Bytes} {opened : OpenedDocument}
    {response : Except Thrown KeyRegistrySnapshot} {verified : VerifiedSignedDocument}
    (hopens : Opens env kind receivedBytes opened)
    (hcompletes : Completes env opened response verified)
    (hdocument : env.parseStrictJson receivedBytes' = .ok document)
    (hsame : Json.SameNarrowData document verified.document) :
    Opens env kind receivedBytes' (opened.inText document receivedBytes') := by
  obtain ⟨_, _, _, _, hresolve, _⟩ := hcompletes.resolvedKey
  have htext := ((parseStrictJson_eq_ok hparse).mp hdocument).1
  rw [hcompletes.document] at hsame
  have hopened : document.data = opened.parsed.document.data := hsame.sameData
  have hanswers := Registry.answers_of_resolve hresolve
  have hkeyId : env.isProtocolUri opened.envelope.signature.keyId = true := by
    have huri := hanswers.keyIdUri
    rwa [hanswers.keyId] at huri
  have huri : ∀ principal, opened.envelope.expected = some principal →
      env.isProtocolUri principal.id = true := by
    rw [OpenedDocument.request, hopens.kind] at hanswers
    exact uri_of_answers hopens.envelope.expected hanswers
  refine ⟨?_, ?_, hdata _ _ _ hsame.symm hopens.schema,
    Json.isObject_of_data hopened hopens.object, hopens.envelope.of_data hopened
      (hasserts _ _ hopens.schema) hkeyId huri, hopens.kind, rfl⟩
  · rw [sanitize_of_jsonText htext]
    exact hdocument
  · rw [sanitize_of_jsonText htext]
    rfl

theorem Completes.inText {receivedBytes : Bytes} {opened : OpenedDocument}
    {response : Except Thrown KeyRegistrySnapshot} {verified : VerifiedSignedDocument}
    (h : Completes env opened response verified)
    (hsame : Json.SameData document verified.document) :
    Completes env (opened.inText document receivedBytes) response
      (verified.inText document receivedBytes) where
  kind := h.kind
  document := rfl
  receivedBytes := rfl
  protectedTime := h.protectedTime
  protectedInstant := h.protectedInstant
  signature := h.signature
  paired := rfl
  signingBytes := (Canonical.serialize_congr (Json.data_erase hsame "signature")).trans
    h.signingBytes
  signingHash := h.signingHash
  canonicalBytes := (Canonical.serialize_congr hsame).trans h.canonicalBytes
  canonicalHash := h.canonicalHash
  resolvedKey := h.resolvedKey

/-- Another text of the data of an accepted document is accepted, with the same
signature, hashes and key. -/
theorem verify_of_sameData (hparse : DecodesJson env.jsonParse)
    (hdata : DependsOnNarrowData env.validate) (hasserts : AssertsSignatures env.validate)
    {receivedBytes receivedBytes' : Bytes} {resolver : KeyResolver}
    {verified : VerifiedSignedDocument} (h : verify env kind receivedBytes resolver = .ok verified)
    (hdocument : env.parseStrictJson receivedBytes' = .ok document)
    (hsame : Json.SameNarrowData document verified.document) :
    verify env kind receivedBytes' resolver = .ok (verified.inText document receivedBytes') := by
  obtain ⟨opened, hopens, hcompletes⟩ := verify_eq_ok.mp h
  exact verify_eq_ok.mpr ⟨_, hopens.inText hparse hdata hasserts hcompletes hdocument hsame,
    hcompletes.inText hsame.sameData⟩

end

/-- Whoever signs an accepted document again, under the same key and with the
same signature, gets the accepted document. -/
theorem sign_of_verify (env : Environment) (hparse : DecodesJson env.jsonParse)
    (hasserts : AssertsSignatures env.validate) (hignores : IgnoresSignatureValue env.validate)
    (kind : SignedDocumentKind) (receivedBytes : Bytes) (resolver : KeyResolver)
    (verified : VerifiedSignedDocument) (signingKey : SigningKey)
    (h : verify env kind receivedBytes resolver = .ok verified)
    (hkeyId : signingKey.keyId = .ok verified.signature.keyId)
    (hsign : signingKey.sign verified.signingBytes = .ok verified.signature.bytes) :
    sign env kind (verified.document.erase "signature") signingKey = .ok verified.document := by
  obtain ⟨_, hopens, hcompletes⟩ := verify_eq_ok.mp h
  have hauthentic := authentic_of_opens hopens hcompletes
  have htext := ((parseStrictJson_eq_ok hparse).mp hauthentic.parsed).1
  have hdenoted := Json.Denoted.of_jsonText htext
  have hordered := Canonical.ordered_of_wellFormed hdenoted.wellFormed
  obtain ⟨signature, hmember, haccepts⟩ := hasserts _ _ hauthentic.schema
  obtain ⟨value, hvalue, hreads⟩ := hauthentic.signature
  obtain rfl : signature = value := Option.some.inj (hmember.symm.trans hvalue)
  have hkeyUri : env.isProtocolUri verified.signature.keyId = true := by
    obtain ⟨_, _, _, _, hresolve, _⟩ := hcompletes.resolvedKey
    rw [← hauthentic.keyId]
    exact (Registry.answers_of_resolve hresolve).keyIdUri
  -- the signature is the envelope that `sign` sets, so setting it restores the document
  have hstrings := hreads.strings haccepts hkeyUri (hauthentic.createdAt ▸ hauthentic.zulu)
  have henvelope := eq_signatureEnvelope
    (Canonical.ordered_of_wellFormed (hdenoted.member hmember).wellFormed) haccepts hstrings
  rw [hauthentic.createdAt] at henvelope
  have hdocument := Json.set_erase hordered hmember
  rw [henvelope, hreads.encoded] at hdocument
  have hschema : Validates env.validate (profile kind).schema
      ((verified.document.erase "signature").set "signature" (signatureEnvelope
        verified.signature.keyId verified.protectedTime (base64urlEncode placeholder))) := by
    refine hignores _ _ _ _ _ _ (sameShape_of_length ?_) (hdocument ▸ hauthentic.schema)
    rw [hreads.length, placeholder, List.length_replicate]
  have hobject : (verified.document.erase "signature").isObject = true := by
    cases hcases : verified.document with
    | object ms => rfl
    | _ =>
      rw [hcases] at hmember
      cases hmember
  have hunsigned : (verified.document.erase "signature").contains "signature" = false := by
    rw [Json.contains, Json.member?_erase_self]
    rfl
  have htime : TextMember (verified.document.erase "signature") (profile kind).protectedTime
      verified.protectedTime :=
    hauthentic.protectedTime.congr
      (Json.member?_erase_of_ne _ (Ne.symm (protectedTime_ne_signature kind)))
  rw [sign, if_neg (not_not.mpr hobject), if_neg (by simp [hunsigned]),
    requiredString_eq_ok.mpr htime, Except.ok_bind, hauthentic.instant, Except.ok_bind,
    if_neg (not_not.mpr hauthentic.zulu), hkeyId, Except.ok_bind]
  dsimp only
  rw [requireSchema_eq_ok.mpr hschema, Except.ok_bind, hauthentic.signingBytes, Except.ok_bind,
    hsign, Except.ok_bind, hreads.encoding, Except.ok_bind, hdocument]

/-! ## A sample -/

/-- The schemas of what has no signature. -/
def unsignedSchemas : List String :=
  ["websocket-frame.schema.json", "first-admission-record.schema.json"]

/-- A catalog that asserts the schema of the signature, and no more. -/
def signatureCatalog : Validate := fun schemaName document =>
  .ok ⟨unsignedSchemas.contains schemaName ||
    ((document.member? "signature").map acceptsSignature).getD false, none⟩

theorem validates_signatureCatalog {schemaName : String} {document : Json} :
    Validates signatureCatalog schemaName document ↔
      schemaName ∈ unsignedSchemas ∨
        ∃ signature, document.member? "signature" = some signature ∧
          acceptsSignature signature = true := by
  unfold Validates signatureCatalog
  cases hmember : document.member? "signature" with
  | none => simp
  | some signature => simp

theorem assertsSignatures_signatureCatalog : AssertsSignatures signatureCatalog := by
  intro kind document h
  refine (validates_signatureCatalog.mp h).resolve_left ?_
  cases kind <;> decide

/-- A text member of a value without wide integers is a string. -/
theorem stringMember_of_narrow {v : Json} {field : String} {text : Bytes} (hv : v.Narrow)
    (h : TextMember v field text) : StringMember v field text := by
  obtain ⟨value, hvalue, htext⟩ := h
  have hnarrow := hv.member hvalue
  cases hnarrow with
  | string s => rw [StringMember, hvalue, Option.some.inj htext]
  | _ => cases htext

theorem acceptsSignature_of_data {signature signature' : Json}
    (hsame : Json.SameNarrowData signature signature') (h : acceptsSignature signature = true) :
    acceptsSignature signature' = true := by
  have hdata := hsame.sameData.symm
  obtain ⟨hobject, halgorithm, htexts, hnames⟩ := acceptsSignature_iff.mp h
  have hmembers := congrArg (List.map Prod.fst) (Json.members_of_data hdata)
  rw [List.map_map, List.map_map] at hmembers
  refine acceptsSignature_iff.mpr ⟨Json.isObject_of_data hdata hobject, halgorithm.of_data hdata,
    fun field hfield => ?_, fun name hname => hnames name (hmembers ▸ hname)⟩
  obtain ⟨text, htext⟩ := htexts field hfield
  exact ⟨text, ((stringMember_of_narrow hsame.left htext).of_data hdata).textMember⟩

theorem dependsOnNarrowData_signatureCatalog : DependsOnNarrowData signatureCatalog := by
  intro schemaName v w hsame h
  rcases validates_signatureCatalog.mp h with hunsigned | ⟨signature, hmember, haccepts⟩
  · exact validates_signatureCatalog.mpr (Or.inl hunsigned)
  · obtain ⟨signature', hmember', hdata⟩ := Json.exists_member?_of_data hsame.sameData.symm hmember
    exact validates_signatureCatalog.mpr (Or.inr ⟨signature', hmember', acceptsSignature_of_data
      ⟨hdata.symm, hsame.left.member hmember, hsame.right.member hmember'⟩ haccepts⟩)

theorem acceptsSignature_signatureEnvelope (keyId createdAt value : Bytes) :
    acceptsSignature (signatureEnvelope keyId createdAt value) = true := rfl

theorem ignoresSignatureValue_signatureCatalog : IgnoresSignatureValue signatureCatalog :=
  fun _ _ _ _ _ _ _ _ => validates_signatureCatalog.mpr
    (Or.inr ⟨_, Json.member?_set_self _ _, acceptsSignature_signatureEnvelope _ _ _⟩)

def signatureEnvironment : Environment := { sampleEnvironment with validate := signatureCatalog }

/-- The sample is accepted, and another text has its data. -/
theorem exists_reformattedSample :
    ∃ verified document,
      verify signatureEnvironment .evidence (sampleEvidence "9007199254740993")
        (completeResolver Registry.sampleRegistry) = .ok verified ∧
      signatureEnvironment.parseStrictJson (sampleEvidence "9007199254740992") = .ok document ∧
      Json.SameNarrowData document verified.document ∧ verified.document.SmallNumbers ∧
      sampleSigningKey.keyId = .ok verified.signature.keyId ∧
      sampleSigningKey.sign verified.signingBytes = .ok verified.signature.bytes := by
  have hok : (do
      let verified ← referenceVerify signatureEnvironment .evidence
        (sampleEvidence "9007199254740993") Registry.sampleRegistry
      let document ← referenceParse (sampleEvidence "9007199254740992")
      let canonicalBytes ← Canonical.canonicalJson document
      let keyId ← sampleSigningKey.keyId
      let signature ← sampleSigningKey.sign verified.signingBytes
      .ok (canonicalBytes == verified.canonicalBytes, keyId == verified.signature.keyId,
        signature == verified.signature.bytes, Json.hasSmallNumbers verified.document)) =
          Except.ok (true, true, true, true) := by
    decide +kernel
  obtain ⟨verified, hverified, hok⟩ := Except.bind_eq_ok.mp hok
  obtain ⟨document, hparsed, hok⟩ := Except.bind_eq_ok.mp hok
  obtain ⟨canonicalBytes, hcanonical, hok⟩ := Except.bind_eq_ok.mp hok
  obtain ⟨keyId, hkeyId, hok⟩ := Except.bind_eq_ok.mp hok
  obtain ⟨signature, hsignature, hok⟩ := Except.bind_eq_ok.mp hok
  simp only [Except.ok.injEq, Prod.mk.injEq, beq_iff_eq] at hok
  obtain ⟨rfl, rfl, rfl, hsmall⟩ := hok
  have hverify := verify_of_referenceVerify rfl hverified
  obtain ⟨_, hopens, hcompletes⟩ := verify_eq_ok.mp hverify
  have hauthentic := authentic_of_opens hopens hcompletes
  have hdocument : signatureEnvironment.parseStrictJson (sampleEvidence "9007199254740992") =
      .ok document := parseStrictJson_of_referenceParse rfl hparsed
  obtain ⟨htext, hdepth⟩ := (parseStrictJson_eq_ok decodesJson_referenceParse).mp hdocument
  obtain ⟨htext', hdepth'⟩ :=
    (parseStrictJson_eq_ok decodesJson_referenceParse).mp hauthentic.parsed
  have hsmall := Json.SmallNumbers.of_hasSmallNumbers hsmall
  have hsame : Json.SameData document verified.document := Canonical.sameData_of_canonicalJson
    (Canonical.ordered_of_wellFormed (wellFormed_of_jsonText htext))
    (Canonical.ordered_of_wellFormed (wellFormed_of_jsonText htext')) hdepth hdepth' hcanonical
    hauthentic.canonicalBytes
  exact ⟨verified, document, hverify, hdocument,
    .of_small (.of_jsonText htext) (.of_jsonText htext') hsame hsmall, hsmall, hkeyId, hsignature⟩

theorem sign_of_verify_sample :
    ∃ verified,
      verify signatureEnvironment .evidence (sampleEvidence "9007199254740993")
        (completeResolver Registry.sampleRegistry) = .ok verified ∧
      sign signatureEnvironment .evidence (verified.document.erase "signature") sampleSigningKey =
        .ok verified.document := by
  obtain ⟨verified, _, hverify, _, _, _, hkeyId, hsignature⟩ := exists_reformattedSample
  exact ⟨verified, hverify, sign_of_verify signatureEnvironment decodesJson_referenceParse
    assertsSignatures_signatureCatalog ignoresSignatureValue_signatureCatalog .evidence _ _
    verified sampleSigningKey hverify hkeyId hsignature⟩

end SignedDocumentCodec

end MissionWeave
