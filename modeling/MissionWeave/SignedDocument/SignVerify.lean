import MissionWeave.SignedDocument.Verify
import MissionWeave.Canonical.RoundTrip
import MissionWeave.Json.Fields

/-!
# What is signed is accepted

`verify` accepts the canonical text of what `sign` returns, if the registry
resolves the key of the signer and the signature verifies.  The two functions
meet in the data of the document: `sign` works on a value, `verify` on what the
canonical text of that value is parsed to.

* `StringMember` is the text of a member that is no wide integer.  It is a
  matter of the data, and all texts that `verify` reads are of this kind.
* `sign_eq_ok`: what `sign` returns.
* `verify_sign`: the round trip.
-/

namespace MissionWeave.SignedDocumentCodec

open StrictScanner (maximumDepth)
open Sanitizer (sanitize_of_jsonText)

/-! ## Members that are strings -/

/-- The member is a string. -/
def StringMember (object : Json) (field : String) (text : Bytes) : Prop :=
  object.member? field = some (.string text)

section

variable {object object' : Json} {field : String} {text : Bytes}

theorem StringMember.textMember (h : StringMember object field text) :
    TextMember object field text :=
  ⟨_, h, rfl⟩

/-- A string is a matter of the data. -/
theorem StringMember.of_data (hdata : object'.data = object.data)
    (h : StringMember object field text) : StringMember object' field text := by
  obtain ⟨value, hvalue, hstring⟩ := Json.exists_member?_of_data hdata h
  rw [StringMember, hvalue, Json.eq_string_of_data hstring]

/-- The text is not that of an integer. -/
def NotNumeral (text : Bytes) : Prop :=
  ∃ b ∈ text, Ascii.isDigit b = false ∧ b ≠ Ascii.minus

theorem NotNumeral.ne_intText (h : NotNumeral text) (n : Int) : intText n ≠ text := by
  rintro rfl
  obtain ⟨b, hb, hdigit, hminus⟩ := h
  have hdigits : b ∉ natText n.natAbs := fun hmem => by
    rw [isDigit_of_mem_natText hmem] at hdigit
    cases hdigit
  rw [intText] at hb
  split_ifs at hb
  · rcases List.mem_cons.mp hb with hb | hb
    · exact hminus hb
    · exact hdigits hb
  · exact hdigits hb

/-- A text that is no numeral is that of a string. -/
theorem NotNumeral.stringMember (hnumeral : NotNumeral text) (h : TextMember object field text) :
    StringMember object field text := by
  obtain ⟨value, hvalue, htext⟩ := h
  cases value with
  | string s =>
    rw [StringMember, hvalue, Option.some.inj htext]
  | bigint n => exact absurd (Option.some.inj htext) (hnumeral.ne_intText n)
  | _ => cases htext

theorem notNumeral_of_endsWithZ (h : endsWithZ text = true) : NotNumeral text := by
  rw [endsWithZ, beq_iff_eq] at h
  exact ⟨0x5A, List.mem_of_getLast? h, by decide, by decide⟩

theorem notNumeral_of_isProtocolUri {env : Environment} (h : env.isProtocolUri text = true) :
    NotNumeral text := by
  obtain ⟨b, rest, rfl, halpha⟩ := Uri.front_of_isProtocolUri h
  refine ⟨b, List.mem_cons_self, ?_, ?_⟩
  · simp only [Ascii.isAlpha, Bool.or_eq_true, Bool.and_eq_true, decide_eq_true_eq,
      UInt8.le_iff_toNat_le] at halpha
    rw [Bool.eq_false_iff, ne_eq, isDigit_iff]
    rintro ⟨_, hle⟩
    rcases halpha with ⟨hge, _⟩ | ⟨hge, _⟩
    · exact absurd (hge.trans hle) (by decide)
    · exact absurd (hge.trans hle) (by decide)
  · rintro rfl
    exact absurd halpha (by decide)

theorem notNumeral_of_mem_principalTypes (h : text ∈ Registry.principalTypes) :
    NotNumeral text := by
  have hall : ∀ type ∈ Registry.principalTypes,
      ∃ b ∈ type, Ascii.isDigit b = false ∧ b ≠ Ascii.minus := by
    decide
  exact hall text h

end

/-! ## The signer -/

/-- The signer that a registry resolves is a matter of the data. -/
theorem Expects.of_data {env : Environment} {selected : Profile} {document document' : Json}
    {expected : Option Principal} (h : Expects selected document expected)
    (huri : ∀ principal, expected = some principal → env.isProtocolUri principal.id = true)
    (hsigner : ∀ value, document.member? selected.signer = some value →
      ∃ value', document'.member? selected.signer = some value' ∧ value'.data = value.data) :
    Expects selected document' expected := by
  rw [Expects] at h ⊢
  split_ifs at h ⊢ with hservice
  · exact h
  · obtain ⟨principal, rfl, hsigns⟩ := h
    refine ⟨principal, rfl, ?_⟩
    have hid := notNumeral_of_isProtocolUri (huri principal rfl)
    rw [Signs] at hsigns ⊢
    cases hrule : selected.signerRule with
    | service => exact absurd hrule hservice
    | agentId =>
      rw [hrule] at hsigns
      obtain ⟨htype, producer, hproducer, hagentId⟩ := hsigns
      obtain ⟨producer', hproducer', hdata⟩ := hsigner producer hproducer
      exact ⟨htype, producer', hproducer',
        ((hid.stringMember hagentId).of_data hdata).textMember⟩
    | principal =>
      rw [hrule] at hsigns
      obtain ⟨hsupported, signer, hmember, htype, hprincipalId⟩ := hsigns
      obtain ⟨signer', hmember', hdata⟩ := hsigner signer hmember
      have htypeString := (notNumeral_of_mem_principalTypes hsupported).stringMember htype
      exact ⟨hsupported, signer', hmember', (htypeString.of_data hdata).textMember,
        ((hid.stringMember hprincipalId).of_data hdata).textMember⟩

/-! ## The envelope that is signed -/

section

variable (keyId createdAt value : Bytes)

theorem algorithm_signatureEnvelope :
    StringMember (signatureEnvelope keyId createdAt value) "algorithm" (ascii "Ed25519") := by
  rw [StringMember, signatureEnvelope, Json.member?_set_of_ne _ _ (by decide),
    Json.member?_set_of_ne _ _ (by decide), Json.member?_set_of_ne _ _ (by decide),
    Json.member?_set_self]

theorem keyId_signatureEnvelope :
    StringMember (signatureEnvelope keyId createdAt value) "keyId" keyId := by
  rw [StringMember, signatureEnvelope, Json.member?_set_of_ne _ _ (by decide),
    Json.member?_set_of_ne _ _ (by decide), Json.member?_set_self]

theorem createdAt_signatureEnvelope :
    StringMember (signatureEnvelope keyId createdAt value) "createdAt" createdAt := by
  rw [StringMember, signatureEnvelope, Json.member?_set_of_ne _ _ (by decide),
    Json.member?_set_self]

theorem value_signatureEnvelope :
    StringMember (signatureEnvelope keyId createdAt value) "value" value := by
  rw [StringMember, signatureEnvelope, Json.member?_set_self]

variable {keyId createdAt value}

theorem wellFormed_signatureEnvelope (hkeyId : Utf8.WellFormed keyId)
    (hcreatedAt : Utf8.WellFormed createdAt) (hvalue : Utf8.WellFormed value) :
    (signatureEnvelope keyId createdAt value).WellFormed := by
  have hempty : (Json.object []).WellFormed := .object List.Pairwise.nil (by simp) (by simp)
  have hname {name : String} (h : (ascii name).all (fun b => decide (b < 0x80)) = true) :
      Utf8.WellFormed (ascii name) :=
    .ascii (forall_mem_of_all h)
  exact (((hempty.set rfl (hname (by decide)) (.string (hname (by decide)))).set rfl
    (hname (by decide)) (.string hkeyId)).set rfl (hname (by decide)) (.string hcreatedAt)).set rfl
      (hname (by decide)) (.string hvalue)

theorem finiteNumbers_signatureEnvelope :
    (signatureEnvelope keyId createdAt value).FiniteNumbers := by
  have hempty : (Json.object []).FiniteNumbers := .object (by simp)
  exact (((hempty.set rfl (.string _)).set rfl (.string _)).set rfl (.string _)).set rfl
    (.string _)

end

/-- The texts have the base64url pattern, and one length. -/
structure SameShape (value value' : Bytes) : Prop where
  length : value.length = value'.length
  pattern : ∀ b ∈ value, isBase64url b = true
  pattern' : ∀ b ∈ value', isBase64url b = true

theorem sameShape_of_length {bytes bytes' : Bytes} (h : bytes.length = bytes'.length) :
    SameShape (base64urlEncode bytes) (base64urlEncode bytes') where
  length := by rw [length_base64urlEncode, length_base64urlEncode, h]
  pattern _ hb := isBase64url_of_mem_encode hb
  pattern' _ hb := isBase64url_of_mem_encode hb

/-- The verdict depends on `signature.value` only through its base64url pattern
and its length. -/
def IgnoresSignatureValue (validate : Validate) : Prop :=
  ∀ schemaName (document : Json) keyId createdAt value value', SameShape value value' →
    Validates validate schemaName
      (document.set "signature" (signatureEnvelope keyId createdAt value)) →
    Validates validate schemaName
      (document.set "signature" (signatureEnvelope keyId createdAt value'))

/-! ## `sign` -/

section

variable {env : Environment} {kind : SignedDocumentKind} {unsignedDocument signedDocument : Json}
  {signingKey : SigningKey}

/-- What `sign` has read, and what it returns. -/
structure SignsAs (env : Environment) (kind : SignedDocumentKind) (unsignedDocument : Json)
    (signingKey : SigningKey) (signedDocument : Json) (id time message : Bytes)
    (signature : Ed25519Signature) : Prop where
  object : unsignedDocument.isObject = true
  unsigned : unsignedDocument.contains "signature" = false
  protectedTime : StringMember unsignedDocument (profile kind).protectedTime time
  zulu : endsWithZ time = true
  keyId : signingKey.keyId = .ok id
  schema : Validates env.validate (profile kind).schema (unsignedDocument.set "signature"
    (signatureEnvelope id time (base64urlEncode placeholder)))
  signingBytes : Canonical.canonicalJson unsignedDocument = .ok message
  signed : signingKey.sign message = .ok signature
  encoding : validateSignatureEncoding signature = .ok ()
  result : signedDocument = unsignedDocument.set "signature"
    (signatureEnvelope id time (base64urlEncode signature))

theorem sign_eq_ok (h : sign env kind unsignedDocument signingKey = .ok signedDocument) :
    ∃ id time message signature,
      SignsAs env kind unsignedDocument signingKey signedDocument id time message signature := by
  rw [sign] at h
  split_ifs at h with hobject hcontains
  obtain ⟨time, htime, h⟩ := Except.bind_eq_ok.mp h
  obtain ⟨_, _, h⟩ := Except.bind_eq_ok.mp h
  split_ifs at h with hzulu
  obtain ⟨id, hid, h⟩ := Except.bind_eq_ok.mp h
  obtain ⟨⟨⟩, hschema, h⟩ := Except.bind_eq_ok.mp h
  obtain ⟨message, hmessage, h⟩ := Except.bind_eq_ok.mp h
  obtain ⟨signature, hsignature, h⟩ := Except.bind_eq_ok.mp h
  obtain ⟨⟨⟩, hencoding, h⟩ := Except.bind_eq_ok.mp h
  exact ⟨id, time, message, signature, hobject, Bool.eq_false_iff.mpr hcontains,
    (notNumeral_of_endsWithZ hzulu).stringMember (requiredString_eq_ok.mp htime), hzulu, hid,
    requireSchema_eq_ok.mp hschema, hmessage, hsignature, hencoding, (Except.ok.inj h).symm⟩

/-- The request that `verify` builds for a signed document. -/
def signedRequest (kind : SignedDocumentKind) (unsignedDocument : Json) (signingKey : SigningKey) :
    Except Thrown KeyResolutionRequest := do
  let keyId ← signingKey.keyId
  let protectedTime ← requiredString unsignedDocument (profile kind).protectedTime
  let protectedInstant ← parseInstant protectedTime
  let expected ← expectedPrincipal (profile kind) unsignedDocument
  .ok ⟨kind, keyId, expected, (profile kind).signerRule = .service, protectedTime,
    protectedInstant⟩

/-! ## The received document -/

variable {id time message : Bytes} {signature : Ed25519Signature} {document : Json}

theorem protectedTime_ne_signature (kind : SignedDocumentKind) :
    "signature" ≠ (profile kind).protectedTime := by
  cases kind <;> decide

theorem signer_ne_signature (kind : SignedDocumentKind) : "signature" ≠ (profile kind).signer := by
  cases kind <;> decide

/-- The canonical text of what `sign` returns, and what it is parsed to. -/
theorem SignsAs.exists_received (hparse : DecodesJson env.jsonParse)
    (h : SignsAs env kind unsignedDocument signingKey signedDocument id time message signature)
    (hordered : unsignedDocument.Ordered) (hdepth : signedDocument.nesting ≤ maximumDepth)
    (hid : env.isProtocolUri id = true) :
    ∃ receivedBytes document, Canonical.canonicalJson signedDocument = .ok receivedBytes ∧
      env.parseStrictJson receivedBytes = .ok document ∧
        Sanitizer.sanitizeUnpairedSurrogates receivedBytes = ⟨receivedBytes, false⟩ ∧
          document.data = signedDocument.data := by
  obtain ⟨hwellFormed, hfinite⟩ := Canonical.wellFormed_of_serialize hordered h.signingBytes
  have hkeyId : Utf8.WellFormed id := .ascii fun b hb => by
    have hle := (Uri.visible_of_isProtocolUri hid b hb).2
    rw [UInt8.lt_iff_toNat_lt]
    exact Nat.lt_of_le_of_lt (UInt8.le_iff_toNat_le.mp hle) (by decide)
  have htime : Utf8.WellFormed time := by
    have hmem := Json.mem_of_lookup (h.protectedTime)
    cases hwellFormed with
    | object sorted names values =>
      cases values _ hmem with
      | string utf8 => exact utf8
    | _ => cases h.object
  have hencoded : Utf8.WellFormed (base64urlEncode signature) := .ascii fun b hb =>
    lt_of_isBase64url (isBase64url_of_mem_encode hb)
  have henvelope := wellFormed_signatureEnvelope hkeyId htime hencoded
  have hname : Utf8.WellFormed (ascii "signature") := .ascii (forall_mem_of_all (by decide))
  have hsigned : signedDocument.WellFormed ∧ signedDocument.FiniteNumbers := by
    rw [h.result]
    exact ⟨hwellFormed.set h.object hname henvelope,
      hfinite.set h.object finiteNumbers_signatureEnvelope⟩
  obtain ⟨receivedBytes, _, hreceived, _⟩ := Canonical.serialize_spec hsigned.1 hsigned.2
  obtain ⟨document, hdocument, hdata⟩ := Canonical.parse_canonicalJson hparse
    (Canonical.ordered_of_wellFormed hsigned.1) hdepth hreceived
  obtain ⟨htext, _⟩ := (parseStrictJson_eq_ok hparse).mp hdocument
  exact ⟨receivedBytes, document, hreceived, hdocument, sanitize_of_jsonText htext, hdata⟩

/-- What is left of the received document without its signature has the data of
the unsigned document. -/
theorem SignsAs.data_erase
    (h : SignsAs env kind unsignedDocument signingKey signedDocument id time message signature)
    (hdata : document.data = signedDocument.data) :
    (document.erase "signature").data = unsignedDocument.data := by
  rw [Json.data_erase hdata, h.result, Json.erase_set _ h.object h.unsigned]

/-- The envelope of the received document is the one that was signed. -/
theorem SignsAs.readsEnvelope
    (h : SignsAs env kind unsignedDocument signingKey signedDocument id time message signature)
    (hdata : document.data = signedDocument.data) {instant : ExactInstant}
    (hinstant : parseInstant time = .ok instant) {expected : Option Principal}
    (hexpected : Expects (profile kind) unsignedDocument expected)
    (huri : ∀ principal, expected = some principal → env.isProtocolUri principal.id = true) :
    ReadsEnvelope (profile kind) document
      ⟨time, instant, expected,
        ⟨ascii "Ed25519", id, time, base64urlEncode signature, signature⟩⟩ := by
  have hresult := h.result
  have htime : StringMember signedDocument (profile kind).protectedTime time := by
    rw [StringMember, hresult, Json.member?_set_of_ne _ _ (protectedTime_ne_signature kind)]
    exact h.protectedTime
  have hmember : signedDocument.member? "signature" =
      some (signatureEnvelope id time (base64urlEncode signature)) := by
    rw [hresult, Json.member?_set_self]
  have hsigner (value : Json)
      (hvalue : unsignedDocument.member? (profile kind).signer = some value) :
      ∃ value', document.member? (profile kind).signer = some value' ∧
        value'.data = value.data := by
    refine Json.exists_member?_of_data hdata ?_
    rw [hresult, Json.member?_set_of_ne _ _ (signer_ne_signature kind), hvalue]
  obtain ⟨envelope, henvelope, hsame⟩ := Json.exists_member?_of_data hdata hmember
  exact ⟨(htime.of_data hdata).textMember, hinstant, h.zulu, rfl,
    hexpected.of_data huri hsigner, envelope, henvelope,
    ⟨((algorithm_signatureEnvelope _ _ _).of_data hsame).textMember,
      ((keyId_signatureEnvelope _ _ _).of_data hsame).textMember,
      ((createdAt_signatureEnvelope _ _ _).of_data hsame).textMember,
      ((value_signatureEnvelope _ _ _).of_data hsame).textMember, rfl,
      signingKey.length_sign _ _ h.signed, h.encoding⟩⟩

/-- The schema accepts the received document. -/
theorem SignsAs.validates (hdepends : DependsOnData env.validate)
    (hignores : IgnoresSignatureValue env.validate)
    (h : SignsAs env kind unsignedDocument signingKey signedDocument id time message signature)
    (hdata : document.data = signedDocument.data) :
    Validates env.validate (profile kind).schema document := by
  refine hdepends _ signedDocument document hdata.symm ?_
  rw [h.result]
  refine hignores _ _ _ _ _ _ (sameShape_of_length ?_) h.schema
  rw [placeholder, List.length_replicate, signingKey.length_sign _ _ h.signed]

/-- The request is the one that the envelope leads to. -/
theorem SignsAs.exists_request
    (h : SignsAs env kind unsignedDocument signingKey signedDocument id time message signature)
    {request : KeyResolutionRequest}
    (hrequest : signedRequest kind unsignedDocument signingKey = .ok request) :
    ∃ instant expected, parseInstant time = .ok instant ∧
      Expects (profile kind) unsignedDocument expected ∧
        request = ⟨kind, id, expected, (profile kind).signerRule = .service, time, instant⟩ := by
  rw [signedRequest, h.keyId, Except.ok_bind, requiredString_eq_ok.mpr h.protectedTime.textMember,
    Except.ok_bind] at hrequest
  obtain ⟨instant, hinstant, hrequest⟩ := Except.bind_eq_ok.mp hrequest
  obtain ⟨expected, hexpected, hrequest⟩ := Except.bind_eq_ok.mp hrequest
  exact ⟨instant, expected, hinstant, expectedPrincipal_eq_ok.mp hexpected,
    (Except.ok.inj hrequest).symm⟩

/-- A signer that the registry resolves is named by a URI. -/
theorem uri_of_answers {expected : Option Principal} {instant : ExactInstant}
    {resolution : RegistryKeyResolution}
    (hexpected : Expects (profile kind) unsignedDocument expected)
    (hanswers : Registry.Answers env
      ⟨kind, id, expected, (profile kind).signerRule = .service, time, instant⟩ resolution) :
    ∀ principal, expected = some principal → env.isProtocolUri principal.id = true := by
  intro principal hprincipal
  have hrequested := hanswers.principal
  rw [Registry.RequestedPrincipal] at hrequested
  by_cases hservice : (profile kind).signerRule = .service
  · rw [Expects, if_pos hservice, hprincipal] at hexpected
    cases hexpected
  · rw [if_neg (by simpa using hservice)] at hrequested
    rw [hprincipal, Option.some.injEq] at hrequested
    rw [hrequested]
    exact hanswers.principalUri

/-- The received document is opened as the one that was signed. -/
theorem SignsAs.opens (hdepends : DependsOnData env.validate)
    (hignores : IgnoresSignatureValue env.validate)
    (h : SignsAs env kind unsignedDocument signingKey signedDocument id time message signature)
    {receivedBytes : Bytes} (hdocument : env.parseStrictJson receivedBytes = .ok document)
    (hsanitized : Sanitizer.sanitizeUnpairedSurrogates receivedBytes = ⟨receivedBytes, false⟩)
    (hdata : document.data = signedDocument.data) {instant : ExactInstant}
    {expected : Option Principal}
    (henvelope : ReadsEnvelope (profile kind) document ⟨time, instant, expected,
      ⟨ascii "Ed25519", id, time, base64urlEncode signature, signature⟩⟩) :
    Opens env kind receivedBytes ⟨kind, receivedBytes, ⟨document, false⟩, ⟨time, instant, expected,
      ⟨ascii "Ed25519", id, time, base64urlEncode signature, signature⟩⟩⟩ := by
  have hobject : document.isObject = true :=
    Json.isObject_of_data hdata (by rw [h.result]; rfl)
  refine ⟨?_, ?_, h.validates hdepends hignores hdata, hobject, henvelope, rfl, rfl⟩
  · rw [hsanitized]
    exact hdocument
  · rw [hsanitized]

end

theorem exists_sha256 {env : Environment}
    (hdigest : ∀ bytes, ∃ digest, env.evpDigest bytes = some digest) (bytes : Bytes) :
    ∃ hash, env.sha256 bytes = .ok hash := by
  obtain ⟨digest, h⟩ := hdigest bytes
  exact ⟨_, by rw [Environment.sha256, h]⟩

/-- What `sign` returns is accepted by `verify`, as the same data and with the
signature that was produced, if the registry resolves the key and the signature
verifies. -/
theorem verify_sign (env : Environment) (hparse : DecodesJson env.jsonParse)
    (hdepends : DependsOnData env.validate) (hignores : IgnoresSignatureValue env.validate)
    (hdigest : ∀ bytes, ∃ digest, env.evpDigest bytes = some digest)
    (kind : SignedDocumentKind) (unsignedDocument signedDocument : Json)
    (signingKey : SigningKey) (resolver : KeyResolver) (request : KeyResolutionRequest)
    (snapshot : KeyRegistrySnapshot) (resolution : RegistryKeyResolution) (signingBytes : Bytes)
    (signature : Ed25519Signature) (hordered : unsignedDocument.Ordered)
    (hsign : sign env kind unsignedDocument signingKey = .ok signedDocument)
    (hdepth : signedDocument.nesting ≤ maximumDepth)
    (hrequest : signedRequest kind unsignedDocument signingKey = .ok request)
    (hresponse : resolver request = .ok snapshot)
    (hcomplete : snapshot.completeness = .organizationWide)
    (hresolve : Registry.resolveAgentRegistryKey env snapshot.registryBytes request =
      .ok resolution)
    (hsigningBytes : Canonical.canonicalJson unsignedDocument = .ok signingBytes)
    (hsignature : signingKey.sign signingBytes = .ok signature)
    (hverifies : env.ed25519Verify resolution.publicKey signingBytes signature = .ok true) :
    ∃ receivedBytes verified, Canonical.canonicalJson signedDocument = .ok receivedBytes ∧
      verify env kind receivedBytes resolver = .ok verified ∧
        Json.SameData verified.document signedDocument ∧
          verified.signingBytes = signingBytes ∧ verified.signature.bytes = signature := by
  obtain ⟨id, time, message, produced, hsigns⟩ := sign_eq_ok hsign
  obtain rfl : message = signingBytes :=
    Except.ok.inj (hsigns.signingBytes.symm.trans hsigningBytes)
  obtain rfl : produced = signature := Except.ok.inj (hsigns.signed.symm.trans hsignature)
  obtain ⟨instant, expected, hinstant, hexpected, rfl⟩ := hsigns.exists_request hrequest
  have hanswers := Registry.answers_of_resolve hresolve
  have hid : env.isProtocolUri id = true := by
    have hkeyId := hanswers.keyIdUri
    rwa [hanswers.keyId] at hkeyId
  obtain ⟨receivedBytes, document, hreceived, hdocument, hsanitized, hdata⟩ :=
    hsigns.exists_received hparse hordered hdepth hid
  have henvelope := hsigns.readsEnvelope hdata hinstant hexpected
    (uri_of_answers hexpected hanswers)
  have hcanonical : Canonical.canonicalJson document = .ok receivedBytes :=
    (Canonical.serialize_congr hdata).trans hreceived
  have hsigning : Canonical.canonicalJson (document.erase "signature") = .ok message :=
    (Canonical.serialize_congr (hsigns.data_erase hdata)).trans hsigningBytes
  obtain ⟨signingHash, hsigningHash⟩ := exists_sha256 hdigest message
  obtain ⟨canonicalHash, hcanonicalHash⟩ := exists_sha256 hdigest receivedBytes
  have hverify : verify env kind receivedBytes resolver =
      .ok ⟨kind, document, receivedBytes, message, signingHash, receivedBytes, canonicalHash, time,
        instant, ⟨ascii "Ed25519", id, time, base64urlEncode produced, produced⟩,
        resolution.resolvedKey⟩ :=
    verify_eq_ok.mpr ⟨_, hsigns.opens hdepends hignores hdocument hsanitized hdata henvelope,
      rfl, rfl, rfl, rfl, rfl, rfl, rfl, hsigning, hsigningHash, hcanonical, hcanonicalHash,
      snapshot, resolution.publicKey, hresponse, hcomplete, hresolve, hverifies⟩
  exact ⟨receivedBytes, _, hreceived, hverify, hdata, rfl, rfl⟩

/-- The key that signed the sample. -/
def sampleSigningKey : SigningKey where
  keyId := .ok (ascii "urn:mwp:key:one")
  sign message :=
    if message = sampleSigningBytes then .ok sampleSignature
    else .error (.cryptoError "unable to sign with Ed25519")
  length_sign message signature h := by
    split_ifs at h
    rw [← Except.ok.inj h]
    rfl

theorem ignoresSignatureValue_acceptAll : IgnoresSignatureValue acceptAll :=
  fun _ _ _ _ _ _ _ _ => ⟨_, rfl, rfl⟩

theorem verify_sign_sample :
    ∃ unsignedDocument signedDocument receivedBytes verified,
      referenceParse sampleSigningBytes = .ok unsignedDocument ∧
      sign sampleEnvironment .evidence unsignedDocument sampleSigningKey = .ok signedDocument ∧
      Canonical.canonicalJson signedDocument = .ok receivedBytes ∧
      verify sampleEnvironment .evidence receivedBytes
        (completeResolver Registry.sampleRegistry) = .ok verified ∧
      Json.SameData verified.document signedDocument := by
  have hok : (do
      let unsignedDocument ← referenceParse sampleSigningBytes
      let registry ← referenceParse Registry.sampleRegistry
      let signedDocument ← sign sampleEnvironment .evidence unsignedDocument sampleSigningKey
      let request ← signedRequest .evidence unsignedDocument sampleSigningKey
      let resolution ← Registry.resolveValue sampleEnvironment registry request
      let signingBytes ← Canonical.canonicalJson unsignedDocument
      let signature ← sampleSigningKey.sign signingBytes
      let verifies ← sampleEnvironment.ed25519Verify resolution.publicKey signingBytes signature
      .ok (verifies, decide (signedDocument.nesting ≤ maximumDepth))) = Except.ok (true, true) := by
    decide +kernel
  obtain ⟨unsignedDocument, hunsigned, hok⟩ := Except.bind_eq_ok.mp hok
  obtain ⟨registry, hregistry, hok⟩ := Except.bind_eq_ok.mp hok
  obtain ⟨signedDocument, hsign, hok⟩ := Except.bind_eq_ok.mp hok
  obtain ⟨request, hrequest, hok⟩ := Except.bind_eq_ok.mp hok
  obtain ⟨resolution, hselect, hok⟩ := Except.bind_eq_ok.mp hok
  obtain ⟨signingBytes, hsigningBytes, hok⟩ := Except.bind_eq_ok.mp hok
  obtain ⟨signature, hsignature, hok⟩ := Except.bind_eq_ok.mp hok
  obtain ⟨verifies, hverifies, hok⟩ := Except.bind_eq_ok.mp hok
  obtain ⟨rfl, hdepth⟩ := Prod.mk.inj (Except.ok.inj hok)
  have hordered : unsignedDocument.Ordered :=
    Canonical.ordered_of_wellFormed (wellFormed_of_jsonText ((parseStrictJson_eq_ok
      decodesJson_referenceParse).mp (parseStrictJson_reference hunsigned)).1)
  have hresolve : Registry.resolveAgentRegistryKey sampleEnvironment Registry.sampleRegistry
      request = .ok resolution :=
    Except.bind_eq_ok.mpr ⟨registry, parseStrictJson_reference hregistry, hselect⟩
  obtain ⟨receivedBytes, verified, hreceived, hverify, hdata, _⟩ :=
    verify_sign sampleEnvironment decodesJson_referenceParse dependsOnData_acceptAll
      ignoresSignatureValue_acceptAll (fun bytes => ⟨_, rfl⟩) .evidence unsignedDocument
      signedDocument sampleSigningKey (completeResolver Registry.sampleRegistry) request _
      resolution signingBytes signature hordered hsign (of_decide_eq_true hdepth)
      hrequest rfl rfl hresolve hsigningBytes hsignature hverifies
  exact ⟨unsignedDocument, signedDocument, receivedBytes, verified, hunsigned, hsign, hreceived,
    hverify, hdata⟩

end MissionWeave.SignedDocumentCodec
