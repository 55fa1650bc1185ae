import MissionWeave.Schema
import MissionWeave.Uri
import MissionWeave.Canonical.Serialize
import MissionWeave.SignedDocument.Types

/-!
# The libraries under the SDK

`Environment` collects what the SDK calls outside its own sources: the decoder
and the schema validator of jsoncons, and three functions of OpenSSL.  The
functions of the sources that are no more than a call of one of them follow.
-/

namespace MissionWeave

structure Environment where
  /-- `Json::parse`. -/
  jsonParse : Bytes → Except Thrown Json
  /-- `SchemaCatalog::validate`. -/
  validate : Validate
  /-- `a2i_IPADDRESS`: the bytes of the address, `none` for a null pointer. -/
  a2iIpAddress : Bytes → Option Bytes
  /-- `EVP_Digest` with `EVP_sha256`, `none` for a failure. -/
  evpDigest : Bytes → Option Bytes
  /-- `EVP_DigestVerify` on a fresh context for the raw public key, which may
  throw before. -/
  evpDigestVerify : Ed25519PublicKey → Bytes → Ed25519Signature → Except Thrown Int

namespace Environment

variable (env : Environment)

/-- `parse_strict_json`. -/
def parseStrictJson (text : Bytes) : Except Thrown Json :=
  MissionWeave.parseStrictJson env.jsonParse text

/-- `is_protocol_uri`. -/
def isProtocolUri (value : Bytes) : Bool := Uri.isProtocolUri env.a2iIpAddress value

/-- `sha256`. -/
def sha256 (bytes : Bytes) : Except Thrown Bytes :=
  match env.evpDigest bytes with
  | none => .error (.otherException "unable to calculate SHA-256")
  | some digest =>
    .ok (ascii "sha256:" ++
      digest.flatMap fun (b : UInt8) =>
        [Canonical.hexDigit (b >>> 4), Canonical.hexDigit (b &&& 0x0F)])

/-- `Ed25519::verify`. -/
def ed25519Verify (publicKey : Ed25519PublicKey) (message : Bytes)
    (signature : Ed25519Signature) : Except Thrown Bool := do
  let result ← env.evpDigestVerify publicKey message signature
  if result < 0 then .error (.cryptoError "unable to verify Ed25519 signature")
  else .ok (result == 1)

/-- The reference decoder, a catalog that finds every instance valid, and no
cryptography. -/
def reference : Environment where
  jsonParse := referenceParse
  validate := acceptAll
  a2iIpAddress _ := none
  evpDigest _ := none
  evpDigestVerify _ _ _ := .error (.cryptoError "unable to create Ed25519 public key")

end Environment

/-- The text of a member, or the message with the name of the member behind
it. -/
def requiredStringField (message : String) (object : Json) (field : String) :
    Except Thrown Bytes :=
  match (object.member? field).bind Json.asString? with
  | some text => .ok text
  | none => .error (.invalidArgument (message ++ field))

/-- The text of a member. -/
def TextMember (object : Json) (field : String) (text : Bytes) : Prop :=
  ∃ value, object.member? field = some value ∧ value.asString? = some text

/-- A required text is that of the member. -/
theorem requiredStringField_eq_ok {message field : String} {object : Json} {text : Bytes} :
    requiredStringField message object field = .ok text ↔ TextMember object field text := by
  rw [requiredStringField, TextMember, ← Option.bind_eq_some_iff]
  cases (object.member? field).bind Json.asString? with
  | none => simp
  | some t => simp

namespace TextMember

variable {object object' : Json} {field : String} {text text' : Bytes}

theorem contains (h : TextMember object field text) : object.contains field = true := by
  obtain ⟨value, hvalue, _⟩ := h
  rw [Json.contains, hvalue]
  rfl

/-- A member has one text. -/
theorem unique (h : TextMember object field text) (h' : TextMember object field text') :
    text = text' := by
  rw [TextMember, ← Option.bind_eq_some_iff] at h h'
  exact Option.some.inj (h.symm.trans h')

theorem congr (hmember : object'.member? field = object.member? field)
    (h : TextMember object field text) : TextMember object' field text := by
  obtain ⟨value, hvalue, htext⟩ := h
  exact ⟨value, hmember.trans hvalue, htext⟩

end TextMember

theorem Json.at'_eq_ok {v value : Json} {field : String} :
    v.at' field = .ok value ↔ v.member? field = some value := by
  rw [Json.at']
  cases v.member? field with
  | none => simp
  | some w => simp

end MissionWeave
