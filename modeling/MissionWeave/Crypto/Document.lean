import MissionWeave.Crypto
import MissionWeave.SignedDocument.SignVerify
import MissionWeave.SignedDocument.TamperEvidence

/-!
# Signatures of whole documents

The rest of `crypto.cpp`: the functions that sign with a seed, and
`document_signing_payload`, `sign_document` and `verify_document`, which leave
out the top-level `signature` member of a document.

* `verifyDocument_signDocument`: the signature of a document verifies for all
  documents with the same data, and for others only as a signature of another
  payload.
* `signDocument_of_sign` and `verifyDocument_of_verify`: the Signed Document
  codec signs and verifies the same payloads.
-/

namespace MissionWeave.Crypto

open Json (SameData)
open SignedDocumentCodec (SignsAs StringMember)
open StrictScanner (maximumDepth)

abbrev Ed25519Seed := Bytes

/-- The functions of OpenSSL that take a private key, `none` and `false` for a
failure. -/
structure PrivateKeyCalls where
  Key : Type
  /-- `EVP_PKEY_new_raw_private_key`. -/
  newRawPrivateKey : Ed25519Seed → Option Key
  /-- `EVP_PKEY_get_raw_public_key`. -/
  getRawPublicKey : Key → Option Bytes
  /-- `EVP_MD_CTX_new`. -/
  newContext : Bool
  /-- `EVP_DigestSignInit`. -/
  digestSignInit : Key → Bool
  /-- `EVP_DigestSign`. -/
  digestSign : Key → Bytes → Option Bytes

def cryptoError {α : Type} (what : String) : Except Thrown α := .error (.cryptoError what)

section

variable (calls : PrivateKeyCalls)

def privateKey (seed : Ed25519Seed) : Except Thrown calls.Key :=
  match calls.newRawPrivateKey seed with
  | none => cryptoError "unable to create Ed25519 private key"
  | some key => .ok key

/-- `Ed25519::public_key_from_seed`. -/
def publicKeyFromSeed (seed : Ed25519Seed) : Except Thrown Ed25519PublicKey := do
  let key ← privateKey calls seed
  match calls.getRawPublicKey key with
  | none => cryptoError "unable to derive Ed25519 public key"
  | some result =>
    if result.length ≠ 32 then cryptoError "unable to derive Ed25519 public key"
    else .ok result

/-- `Ed25519::sign`. -/
def sign (seed : Ed25519Seed) (message : Bytes) : Except Thrown Ed25519Signature := do
  let key ← privateKey calls seed
  if ¬calls.newContext then cryptoError "unable to create Ed25519 operation context"
  else if ¬calls.digestSignInit key then cryptoError "unable to initialize Ed25519 signing"
  else
    match calls.digestSign key message with
    | none => cryptoError "unable to sign with Ed25519"
    | some signature =>
      if signature.length ≠ 64 then cryptoError "unable to sign with Ed25519"
      else .ok signature

/-- `Ed25519::sign_base64url`. -/
def signBase64url (seed : Ed25519Seed) (message : Bytes) : Except Thrown Bytes := do
  let signature ← sign calls seed message
  .ok (base64urlEncode signature)

/-- `document_signing_payload`. -/
def documentSigningPayload (document : Json) : Except Thrown Bytes :=
  if ¬document.isObject then cryptoError "signed protocol document must be a JSON object"
  else Canonical.canonicalJson (document.erase "signature")

/-- `Ed25519::sign_document`. -/
def signDocument (seed : Ed25519Seed) (document : Json) : Except Thrown Bytes := do
  let payload ← documentSigningPayload document
  signBase64url calls seed payload

/-- `Ed25519::verify_document`. -/
def verifyDocument (env : Environment) (publicKey : Ed25519PublicKey) (document : Json)
    (signature : Bytes) : Except Thrown Bool := do
  let payload ← documentSigningPayload document
  verifyBase64url env publicKey payload signature

end

/-! ## The payload -/

section

variable {v w : Json} {payload payload' : Bytes}

theorem documentSigningPayload_eq_ok :
    documentSigningPayload v = .ok payload ↔
      v.isObject = true ∧ Canonical.canonicalJson (v.erase "signature") = .ok payload := by
  rw [documentSigningPayload, cryptoError, Except.ite_error_eq_ok, not_not]

/-- The top-level `signature` member is no part of the payload, nor is the order
of the members or the spelling of the numbers. -/
theorem documentSigningPayload_congr (hv : v.isObject = true) (hw : w.isObject = true)
    (h : SameData (v.erase "signature") (w.erase "signature")) :
    documentSigningPayload w = documentSigningPayload v := by
  have htext : Canonical.canonicalJson (w.erase "signature") =
      Canonical.canonicalJson (v.erase "signature") := (Canonical.serialize_congr h).symm
  rw [documentSigningPayload, documentSigningPayload, if_neg (not_not.mpr hv),
    if_neg (not_not.mpr hw), htext]

/-- Everything else is. -/
theorem sameData_of_documentSigningPayload (hv : v.Ordered) (hw : w.Ordered)
    (hdepth : v.nesting ≤ maximumDepth) (hdepth' : w.nesting ≤ maximumDepth)
    (h : documentSigningPayload v = .ok payload) (h' : documentSigningPayload w = .ok payload) :
    SameData (v.erase "signature") (w.erase "signature") := by
  obtain ⟨_, htext⟩ := documentSigningPayload_eq_ok.mp h
  obtain ⟨_, htext'⟩ := documentSigningPayload_eq_ok.mp h'
  exact Canonical.sameData_of_canonicalJson (hv.erase _) (hw.erase _)
    ((Json.nesting_erase_le _ _).trans hdepth) ((Json.nesting_erase_le _ _).trans hdepth') htext
    htext'

end

/-! ## Signing and verifying -/

section

variable {env : Environment} {calls : PrivateKeyCalls} {seed : Ed25519Seed} {v w : Json}
  {text message : Bytes} {publicKey : Ed25519PublicKey} {signature : Ed25519Signature}

theorem privateKey_eq_ok {key : calls.Key} :
    privateKey calls seed = .ok key ↔ calls.newRawPrivateKey seed = some key := by
  unfold privateKey
  cases calls.newRawPrivateKey seed with
  | none => simp [cryptoError]
  | some key' => simp

theorem publicKeyFromSeed_eq_ok :
    publicKeyFromSeed calls seed = .ok publicKey ↔
      ∃ key, calls.newRawPrivateKey seed = some key ∧
        calls.getRawPublicKey key = some publicKey ∧ publicKey.length = 32 := by
  simp only [publicKeyFromSeed, Except.bind_eq_ok, privateKey_eq_ok]
  apply exists_congr
  intro key
  apply and_congr_right
  intro _
  cases calls.getRawPublicKey key with
  | none => simp [cryptoError]
  | some result =>
    simp only [cryptoError, Except.ite_error_eq_ok, not_not, Except.ok.injEq, Option.some.injEq]
    constructor
    · rintro ⟨hlength, rfl⟩
      exact ⟨rfl, hlength⟩
    · rintro ⟨rfl, hlength⟩
      exact ⟨hlength, rfl⟩

/-- What `sign` has done when it returns. -/
theorem exists_key_of_sign (h : sign calls seed message = .ok signature) :
    ∃ key, calls.newRawPrivateKey seed = some key ∧
      calls.digestSign key message = some signature ∧ signature.length = 64 := by
  simp only [sign, cryptoError, Except.bind_eq_ok, Except.ite_error_eq_ok, privateKey_eq_ok] at h
  obtain ⟨key, hkey, _, _, h⟩ := h
  split at h
  · cases h
  · rename_i produced hproduced
    rw [Except.ite_error_eq_ok, not_not, Except.ok.injEq] at h
    obtain ⟨hlength, rfl⟩ := h
    exact ⟨key, hkey, hproduced, hlength⟩

/-- Ed25519 verifies what it has signed. -/
def VerifiesSigned (env : Environment) (calls : PrivateKeyCalls) : Prop :=
  ∀ key message signature publicKey, calls.digestSign key message = some signature →
    calls.getRawPublicKey key = some publicKey →
      env.ed25519Verify publicKey message signature = .ok true

theorem verify_of_sign (hverifies : VerifiesSigned env calls)
    (h : sign calls seed message = .ok signature)
    (hkey : publicKeyFromSeed calls seed = .ok publicKey) :
    env.ed25519Verify publicKey message signature = .ok true := by
  obtain ⟨key, hnew, hsigned, _⟩ := exists_key_of_sign h
  obtain ⟨key', hnew', hpublicKey, _⟩ := publicKeyFromSeed_eq_ok.mp hkey
  obtain rfl := Option.some.inj (hnew.symm.trans hnew')
  exact hverifies key message signature publicKey hsigned hpublicKey

/-- The text of a signature is read by both decoders. -/
theorem base64urlDecode_encode (hlength : signature.length = 64) :
    base64urlDecode (base64urlEncode signature) = .ok signature := by
  have hne : signature ≠ [] := by
    rintro rfl
    cases hlength
  exact (strict_eq_ok.mp (MissionWeave.base64urlDecode_encode hne "")).2.1

theorem verifyBase64url_encode (hlength : signature.length = 64) :
    verifyBase64url env publicKey message (base64urlEncode signature) =
      env.ed25519Verify publicKey message signature := by
  rw [verifyBase64url, base64urlDecode_encode hlength]
  exact if_neg (not_not.mpr hlength)

theorem signDocument_eq_ok :
    signDocument calls seed v = .ok text ↔
      ∃ payload signature, documentSigningPayload v = .ok payload ∧
        sign calls seed payload = .ok signature ∧ text = base64urlEncode signature := by
  simp only [signDocument, signBase64url, Except.bind_eq_ok, Except.ok.injEq]
  constructor
  · rintro ⟨payload, hpayload, signature, hsignature, rfl⟩
    exact ⟨payload, signature, hpayload, hsignature, rfl⟩
  · rintro ⟨payload, signature, hpayload, hsignature, rfl⟩
    exact ⟨payload, hpayload, signature, hsignature, rfl⟩

theorem verifyDocument_eq_ok {verdict : Bool} :
    verifyDocument env publicKey v text = .ok verdict ↔
      ∃ payload, documentSigningPayload v = .ok payload ∧
        verifyBase64url env publicKey payload text = .ok verdict := by
  rw [verifyDocument, Except.bind_eq_ok]

/-- The payloads of the documents differ, and one signature verifies both. -/
def SignsBoth (env : Environment) (publicKey : Ed25519PublicKey) (text : Bytes) (v w : Json) :
    Prop :=
  ∃ payload payload', documentSigningPayload v = .ok payload ∧
    documentSigningPayload w = .ok payload' ∧ payload ≠ payload' ∧
    verifyBase64url env publicKey payload text = .ok true ∧
    verifyBase64url env publicKey payload' text = .ok true

/-- Two documents that one signature verifies have the same data, or it verifies
their two payloads. -/
theorem sameData_of_verifyDocument (hv : v.Ordered) (hw : w.Ordered)
    (hdepth : v.nesting ≤ maximumDepth) (hdepth' : w.nesting ≤ maximumDepth)
    (h : verifyDocument env publicKey v text = .ok true)
    (h' : verifyDocument env publicKey w text = .ok true) :
    SameData (v.erase "signature") (w.erase "signature") ∨ SignsBoth env publicKey text v w := by
  obtain ⟨payload, hpayload, hverifies⟩ := verifyDocument_eq_ok.mp h
  obtain ⟨payload', hpayload', hverifies'⟩ := verifyDocument_eq_ok.mp h'
  by_cases heq : payload = payload'
  · subst heq
    exact .inl (sameData_of_documentSigningPayload hv hw hdepth hdepth' hpayload hpayload')
  · exact .inr ⟨payload, payload', hpayload, hpayload', heq, hverifies, hverifies'⟩

theorem verifyDocument_of_signDocument (hverifies : VerifiesSigned env calls)
    (hsign : signDocument calls seed v = .ok text)
    (hkey : publicKeyFromSeed calls seed = .ok publicKey) :
    verifyDocument env publicKey v text = .ok true := by
  obtain ⟨payload, signature, hpayload, hsignature, rfl⟩ := signDocument_eq_ok.mp hsign
  obtain ⟨_, _, _, hlength⟩ := exists_key_of_sign hsignature
  refine verifyDocument_eq_ok.mpr ⟨payload, hpayload, ?_⟩
  rw [verifyBase64url_encode hlength]
  exact verify_of_sign hverifies hsignature hkey

end

/-- `verify_document` accepts what `sign_document` returns for every document
that differs in nothing but the top-level `signature` member, the order of the
members and the spelling of the numbers; all of them are signed alike; and any
other document is accepted only if the signature is also one of its payload,
which is not the one that was signed. -/
theorem verifyDocument_signDocument (env : Environment) (calls : PrivateKeyCalls)
    (hverifies : VerifiesSigned env calls) (seed : Ed25519Seed) (v w : Json) (text : Bytes)
    (publicKey : Ed25519PublicKey) (hv : v.Ordered) (hw : w.Ordered)
    (hobject : w.isObject = true) (hsign : signDocument calls seed v = .ok text)
    (hkey : publicKeyFromSeed calls seed = .ok publicKey) :
    (SameData (v.erase "signature") (w.erase "signature") →
      verifyDocument env publicKey w text = .ok true ∧ signDocument calls seed w = .ok text) ∧
    (v.nesting ≤ maximumDepth → w.nesting ≤ maximumDepth →
      verifyDocument env publicKey w text = .ok true →
      SameData (v.erase "signature") (w.erase "signature") ∨
        SignsBoth env publicKey text v w) := by
  have hverify := verifyDocument_of_signDocument hverifies hsign hkey
  constructor
  · intro hdata
    obtain ⟨_, _, hpayload, _, _⟩ := signDocument_eq_ok.mp hsign
    have hsame := documentSigningPayload_congr (documentSigningPayload_eq_ok.mp hpayload).1 hobject
      hdata
    rw [signDocument, verifyDocument, hsame]
    exact ⟨hverify, hsign⟩
  · intro hdepth hdepth'
    exact sameData_of_verifyDocument hv hw hdepth hdepth' hverify

/-! ## The Signed Document codec -/

/-- The key of a seed, as a `SigningKey`. -/
def seedSigningKey (calls : PrivateKeyCalls) (keyId : Bytes) (seed : Ed25519Seed) : SigningKey where
  keyId := .ok keyId
  sign message := sign calls seed message
  length_sign message signature h := by
    obtain ⟨_, _, _, hlength⟩ := exists_key_of_sign h
    exact hlength

section

variable {env : Environment} {calls : PrivateKeyCalls} {seed : Ed25519Seed}
  {kind : SignedDocumentKind} {keyId : Bytes} {unsignedDocument signedDocument : Json}

theorem erase_of_not_contains {v : Json} {field : String} (h : v.contains field = false) :
    v.erase field = v := by
  cases v with
  | object ms =>
    rw [Json.contains, Option.isSome_eq_false_iff, Option.isNone_iff_eq_none,
      Json.member?_eq_lookup, Json.lookup_eq_none] at h
    exact congrArg Json.object (List.filter_eq_self.mpr fun m hm => bne_iff_ne.mpr (h m hm))
  | _ => rfl

/-- The codec signs a document as `sign_document` does, before and after. -/
theorem signDocument_of_sign
    (h : SignedDocumentCodec.sign env kind unsignedDocument (seedSigningKey calls keyId seed) =
      .ok signedDocument) :
    ∃ envelope text, signedDocument.member? "signature" = some envelope ∧
      StringMember envelope "value" text ∧ signDocument calls seed unsignedDocument = .ok text ∧
        signDocument calls seed signedDocument = .ok text := by
  obtain ⟨id, time, message, signature, hsigns⟩ := SignedDocumentCodec.sign_eq_ok h
  have hobject : signedDocument.isObject = true := by
    rw [hsigns.result]
    rfl
  refine ⟨_, base64urlEncode signature, by rw [hsigns.result, Json.member?_set_self],
    SignedDocumentCodec.value_signatureEnvelope _ _ _, ?_, ?_⟩
  · refine signDocument_eq_ok.mpr ⟨message, signature, ?_, hsigns.signed, rfl⟩
    rw [documentSigningPayload_eq_ok, erase_of_not_contains hsigns.unsigned]
    exact ⟨hsigns.object, hsigns.signingBytes⟩
  · refine signDocument_eq_ok.mpr ⟨message, signature, ?_, hsigns.signed, rfl⟩
    rw [documentSigningPayload_eq_ok, hsigns.result, Json.erase_set _ hsigns.object hsigns.unsigned,
      ← hsigns.result]
    exact ⟨hobject, hsigns.signingBytes⟩

/-- `verify_document` accepts what the codec accepts, under the resolved key. -/
theorem verifyDocument_of_verify {receivedBytes : Bytes} {resolver : KeyResolver}
    {verified : VerifiedSignedDocument}
    (h : SignedDocumentCodec.verify env kind receivedBytes resolver = .ok verified) :
    ∃ publicKey, decodeStrictEd25519PublicKey verified.resolvedKey.publicKey = .ok publicKey ∧
      documentSigningPayload verified.document = .ok verified.signingBytes ∧
      verifyDocument env publicKey verified.document verified.signature.value = .ok true := by
  obtain ⟨opened, hopens, hcompletes⟩ := SignedDocumentCodec.verify_eq_ok.mp h
  have hauthentic := SignedDocumentCodec.authentic_of_opens hopens hcompletes
  obtain ⟨_, _, publicKey, _, _, _, _, _, _, hdecode, hverifies⟩ := hauthentic.resolved
  obtain ⟨_, _, hsignature⟩ := hauthentic.signature
  have hobject := hopens.object
  rw [← hcompletes.document] at hobject
  have hpayload := documentSigningPayload_eq_ok.mpr ⟨hobject, hauthentic.signingBytes⟩
  refine ⟨publicKey, hdecode, hpayload, verifyDocument_eq_ok.mpr ⟨_, hpayload, ?_⟩⟩
  rw [hsignature.encoded, verifyBase64url_encode hsignature.length]
  exact hverifies

end

/-- The codec and the functions on documents sign and verify the same payloads:
the codec puts the text of `sign_document` into a document, which is also that of
the signed document; and the signature of a document that the codec accepts
verifies under the resolved key for the documents with the same data, and for
others only as a signature of another payload. -/
theorem codec_agrees (env : Environment) (hparse : DecodesJson env.jsonParse)
    (kind : SignedDocumentKind) :
    (∀ calls keyId seed unsignedDocument signedDocument,
      SignedDocumentCodec.sign env kind unsignedDocument (seedSigningKey calls keyId seed) =
        .ok signedDocument →
      ∃ envelope text, signedDocument.member? "signature" = some envelope ∧
        StringMember envelope "value" text ∧ signDocument calls seed unsignedDocument = .ok text ∧
          signDocument calls seed signedDocument = .ok text) ∧
    (∀ receivedBytes resolver verified,
      SignedDocumentCodec.verify env kind receivedBytes resolver = .ok verified →
      ∃ publicKey, decodeStrictEd25519PublicKey verified.resolvedKey.publicKey = .ok publicKey ∧
        ∀ w : Json, w.Ordered → w.isObject = true →
          (SameData (verified.document.erase "signature") (w.erase "signature") →
            verifyDocument env publicKey w verified.signature.value = .ok true) ∧
          (w.nesting ≤ maximumDepth →
            verifyDocument env publicKey w verified.signature.value = .ok true →
            SameData (verified.document.erase "signature") (w.erase "signature") ∨
              SignsBoth env publicKey verified.signature.value verified.document w)) := by
  constructor
  · intro calls keyId seed unsignedDocument signedDocument h
    exact signDocument_of_sign h
  · intro receivedBytes resolver verified h
    obtain ⟨publicKey, hdecode, hpayload, hverify⟩ := verifyDocument_of_verify h
    obtain ⟨opened, hopens, hcompletes⟩ := SignedDocumentCodec.verify_eq_ok.mp h
    obtain ⟨hordered, hdepth⟩ :=
      (SignedDocumentCodec.authentic_of_opens hopens hcompletes).ordered hparse
    refine ⟨publicKey, hdecode, fun w hw hobject => ⟨fun hdata => ?_, fun hdepth' hverify' => ?_⟩⟩
    · rw [verifyDocument, documentSigningPayload_congr (documentSigningPayload_eq_ok.mp hpayload).1
        hobject hdata]
      exact hverify
    · exact sameData_of_verifyDocument hordered hw hdepth hdepth' hverify hverify'

/-! ## A sample -/

/-- The seed of `samplePublicKey`. -/
def sampleSeed : Ed25519Seed :=
  [0x9D, 0x61, 0xB1, 0x9D, 0xEF, 0xFD, 0x5A, 0x60, 0xBA, 0x84, 0x4A, 0xF4, 0x92, 0xEC,
    0x2C, 0xC4, 0x44, 0x49, 0xC5, 0x69, 0x7B, 0x32, 0x69, 0x19, 0x70, 0x3B, 0xAC, 0x03,
    0x1C, 0xAE, 0x7F, 0x60]

/-- What OpenSSL computes on the sample. -/
def sampleCalls : PrivateKeyCalls where
  Key := Unit
  newRawPrivateKey seed := if seed = sampleSeed then some () else none
  getRawPublicKey _ := some samplePublicKey
  newContext := true
  digestSignInit _ := true
  digestSign _ message :=
    if message = SignedDocumentCodec.sampleSigningBytes then
      some SignedDocumentCodec.sampleSignature
    else none

theorem verifiesSigned_sample :
    VerifiesSigned SignedDocumentCodec.sampleEnvironment sampleCalls := by
  intro key message signature publicKey hsigned hpublicKey
  have hmessage : message = SignedDocumentCodec.sampleSigningBytes := by
    by_contra hne
    simp [sampleCalls, hne] at hsigned
  subst hmessage
  have hsignature : SignedDocumentCodec.sampleSignature = signature := by
    simpa [sampleCalls] using hsigned
  obtain rfl : samplePublicKey = publicKey := Option.some.inj hpublicKey
  subst hsignature
  decide +kernel

/-- The unsigned sample, and the text that is signed for it. -/
theorem exists_signDocument_sample :
    ∃ v text, referenceParse SignedDocumentCodec.sampleSigningBytes = .ok v ∧
      v.isObject = true ∧ v.contains "signature" = false ∧
      signDocument sampleCalls sampleSeed v = .ok text := by
  have hok : (do
      let v ← referenceParse SignedDocumentCodec.sampleSigningBytes
      let text ← signDocument sampleCalls sampleSeed v
      .ok (v.isObject, v.contains "signature", text)) =
        (.ok (true, false, base64urlEncode SignedDocumentCodec.sampleSignature) :
          Except Thrown _) := by
    decide +kernel
  obtain ⟨v, hv, hok⟩ := Except.bind_eq_ok.mp hok
  obtain ⟨text, htext, hok⟩ := Except.bind_eq_ok.mp hok
  simp only [Except.ok.injEq, Prod.mk.injEq] at hok
  exact ⟨v, text, hv, hok.1, hok.2.1, htext⟩

theorem verifyDocument_signDocument_sample :
    ∃ v w text, v ≠ w ∧ signDocument sampleCalls sampleSeed v = .ok text ∧
      verifyDocument SignedDocumentCodec.sampleEnvironment samplePublicKey w text = .ok true ∧
        signDocument sampleCalls sampleSeed w = .ok text := by
  obtain ⟨v, text, hv, hobject, hunsigned, hsign⟩ := exists_signDocument_sample
  have hordered : v.Ordered := Canonical.ordered_of_wellFormed (wellFormed_of_jsonText
    ((parseStrictJson_eq_ok decodesJson_referenceParse).mp (parseStrictJson_reference hv)).1)
  let w := v.set "signature" (.string (ascii "old"))
  have hcontains : w.contains "signature" = true :=
    SignedDocumentCodec.contains_of_member? (Json.member?_set_self _ _)
  have hdifferent : v ≠ w := by
    intro heq
    rw [heq, hcontains] at hunsigned
    cases hunsigned
  have hordered' : w.Ordered := hordered.set (.leaf rfl rfl)
  have hkey : publicKeyFromSeed sampleCalls sampleSeed = .ok samplePublicKey := by decide
  have hsame : SameData (v.erase "signature") (w.erase "signature") := by
    rw [Json.erase_set _ hobject hunsigned, erase_of_not_contains hunsigned]
    rfl
  obtain ⟨hverify, hsign'⟩ := (verifyDocument_signDocument _ _ verifiesSigned_sample _ v w text _
    hordered hordered' rfl hsign hkey).1 hsame
  exact ⟨v, w, text, hdifferent, hsign, hverify, hsign'⟩

theorem codec_agrees_sample :
    (∃ unsignedDocument signedDocument envelope text,
      SignedDocumentCodec.sign SignedDocumentCodec.sampleEnvironment .evidence unsignedDocument
        (seedSigningKey sampleCalls (ascii "urn:mwp:key:one") sampleSeed) = .ok signedDocument ∧
      signedDocument.member? "signature" = some envelope ∧ StringMember envelope "value" text ∧
      signDocument sampleCalls sampleSeed signedDocument = .ok text) ∧
    ∃ verified publicKey, SignedDocumentCodec.verify SignedDocumentCodec.sampleEnvironment
        .evidence (SignedDocumentCodec.sampleEvidence "9007199254740992")
        (SignedDocumentCodec.completeResolver Registry.sampleRegistry) = .ok verified ∧
      verifyDocument SignedDocumentCodec.sampleEnvironment publicKey verified.document
        verified.signature.value = .ok true := by
  obtain ⟨hsigns, hverifies⟩ := codec_agrees SignedDocumentCodec.sampleEnvironment
    decodesJson_referenceParse .evidence
  constructor
  · have hok : (do
        let unsignedDocument ← referenceParse SignedDocumentCodec.sampleSigningBytes
        let signedDocument ← SignedDocumentCodec.sign SignedDocumentCodec.sampleEnvironment
          .evidence unsignedDocument
          (seedSigningKey sampleCalls (ascii "urn:mwp:key:one") sampleSeed)
        .ok signedDocument).isOk = true := by
      decide +kernel
    obtain ⟨signedDocument, hok⟩ := Except.exists_ok_of_isOk hok
    obtain ⟨unsignedDocument, _, hok⟩ := Except.bind_eq_ok.mp hok
    obtain ⟨_, hsign, hok⟩ := Except.bind_eq_ok.mp hok
    obtain rfl := Except.ok.inj hok
    obtain ⟨envelope, text, henvelope, htext, _, hsigned⟩ := hsigns _ _ _ _ _ hsign
    exact ⟨unsignedDocument, _, envelope, text, hsign, henvelope, htext, hsigned⟩
  · have hok : (SignedDocumentCodec.referenceVerify SignedDocumentCodec.sampleEnvironment .evidence
        (SignedDocumentCodec.sampleEvidence "9007199254740992") Registry.sampleRegistry).isOk =
          true := by
      decide +kernel
    obtain ⟨verified, hok⟩ := Except.exists_ok_of_isOk hok
    have hverify := SignedDocumentCodec.verify_of_referenceVerify rfl hok
    obtain ⟨publicKey, _, hall⟩ := hverifies _ _ _ hverify
    have hauthentic := SignedDocumentCodec.verify_eq_ok.mp hverify
    obtain ⟨opened, hopens, hcompletes⟩ := hauthentic
    have hordered := ((SignedDocumentCodec.authentic_of_opens hopens
      hcompletes).ordered decodesJson_referenceParse).1
    have hobject := hopens.object
    rw [← hcompletes.document] at hobject
    exact ⟨verified, publicKey, hverify, (hall _ hordered hobject).1 rfl⟩

end MissionWeave.Crypto
