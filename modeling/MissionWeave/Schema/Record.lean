import MissionWeave.Json.Fields
import MissionWeave.Schema.Positions
import MissionWeave.UriSpec

/-!
# The schema of First-Admission Records

`first-admission-record.schema.json` and the definitions that it takes from
`common.schema.json`, as predicates on instances.  The catalog puts
`is_protocol_uri` in the place of the `uri` format.  The `date-time` format is a
parameter.

* `closedObject_iff`: an object with exactly the given members.
* `isIdentifier_iff`: an identifier is a protocol URI of at most 512 characters.
-/

namespace MissionWeave.Schema

open Uri (isSchemeCharacter uri_of_isProtocolUri ReadsAddresses)

/-! ## Keywords -/

/-- A string with the property. -/
def textSchema (accepts : Bytes → Bool) (instance_ : Json) : Bool :=
  instance_.asString?.any accepts

/-- `enum` of strings. -/
def enumSchema (texts : List String) : Json → Bool :=
  textSchema fun text => texts.any fun t => ascii t == text

/-- An object that requires the members and has no others. -/
def closedObject (fields : List (String × (Json → Bool))) (instance_ : Json) : Bool :=
  instance_.isObject && fields.all (fun field => (instance_.member? field.1).any field.2) &&
    instance_.members.all fun m => fields.any fun field => m.1 == ascii field.1

theorem textSchema_string (accepts : Bytes → Bool) (text : Bytes) :
    textSchema accepts (.string text) = accepts text := rfl

theorem enumSchema_string {texts : List String} {text : Bytes} :
    enumSchema texts (.string text) = true ↔ text ∈ texts.map ascii := by
  rw [enumSchema, textSchema_string, List.any_eq_true, List.mem_map]
  simp only [beq_iff_eq]

theorem closedObject_iff {fields : List (String × (Json → Bool))} {instance_ : Json} :
    closedObject fields instance_ = true ↔
      instance_.isObject = true ∧
        (∀ field ∈ fields, ∃ value, instance_.member? field.1 = some value ∧
          field.2 value = true) ∧
        instance_.members.map Prod.fst ⊆ fields.map fun field => ascii field.1 := by
  simp only [closedObject, Bool.and_eq_true, List.all_eq_true, List.any_eq_true,
    Option.any_eq_true, beq_iff_eq, List.subset_def, List.mem_map, forall_exists_index, and_imp,
    forall_apply_eq_imp_iff₂, and_assoc, @eq_comm Bytes _ (ascii _)]

/-! ## Definitions of `common.schema.json` -/

/-- The code points of UTF-8. -/
def codePoints (text : Bytes) : Nat := text.countP fun b => !Utf8.isContinuation b

/-- `^[A-Za-z][A-Za-z0-9+.-]*:`. -/
def hasUriPrefix : Bytes → Bool
  | [] => false
  | b :: rest => Ascii.isAlpha b && (rest.dropWhile isSchemeCharacter).head? == some Ascii.colon

/-- `[A-Za-z0-9._~:/?#\[\]@!$&'()*+,;=%-]`. -/
def isIdentifierCharacter (b : UInt8) : Bool :=
  Ascii.isAlpha b || Ascii.isDigit b || (ascii "._~:/?#[]@!$&'()*+,;=%-").contains b

/-- The `maxLength` of an identifier. -/
def maxIdentifierLength : Nat := 512

/-- `^sha256:[0-9a-f]{64}$`. -/
def isSha256 (text : Bytes) : Bool :=
  text.take 7 == ascii "sha256:" && text.length == 71 &&
    (text.drop 7).all fun b => Ascii.isDigit b || (0x61 ≤ b && b ≤ 0x66)

section

variable (env : Environment)

/-- The texts of `$defs/id`. -/
def isIdentifier (text : Bytes) : Bool :=
  env.isProtocolUri text && hasUriPrefix text && text.all isIdentifierCharacter &&
    decide (codePoints text ≤ maxIdentifierLength)

/-- `$defs/id`. -/
def idSchema : Json → Bool := textSchema (isIdentifier env)

/-- `$defs/actor`. -/
def actorSchema : Json → Bool :=
  closedObject [("type", enumSchema ["agent", "human", "service"]), ("id", idSchema env)]

/-- `first-admission-record.schema.json`. -/
def firstAdmissionRecordSchema (isDateTime : Bytes → Bool) : Json → Bool :=
  closedObject [
    ("protocolVersion", enumSchema ["0.1"]),
    ("admissionRecordId", idSchema env),
    ("organizationId", idSchema env),
    ("documentKind", enumSchema ["agent-card", "approval", "artifact", "command",
      "context-package", "event", "evidence", "extension-profile", "group-snapshot"]),
    ("signingHash", textSchema isSha256),
    ("keyId", idSchema env),
    ("principal", actorSchema env),
    ("trustedAcceptedAt", textSchema isDateTime),
    ("acceptedBy", fun instance_ => actorSchema env instance_ &&
      (instance_.member? "type").all (enumSchema ["service"]))]

end

/-- The schema of the records asserts its identifiers. -/
theorem idSchema_of_record {env : Environment} {isDateTime : Bytes → Bool} {record : Json}
    (h : firstAdmissionRecordSchema env isDateTime record = true) :
    ∀ position ∈ recordIdentifierPositions, ∀ value ∈ record.reach position,
      idSchema env value = true := by
  have hmember {fields : List (String × (Json → Bool))} {v : Json}
      (hv : closedObject fields v = true) {name : String} {accepts : Json → Bool}
      (hfield : (name, accepts) ∈ fields) {value : Json} (hvalue : v.member? name = some value) :
      accepts value = true := by
    obtain ⟨value', hvalue', haccepts⟩ := (closedObject_iff.mp hv).2.1 _ hfield
    rw [hvalue, Option.some.injEq] at hvalue'
    rwa [hvalue']
  intro position hposition value hvalue
  simp only [recordIdentifierPositions, List.mem_cons, List.not_mem_nil, or_false] at hposition
  rcases hposition with rfl | rfl | rfl | rfl | rfl
  · exact hmember h (by simp) (Json.mem_reach_member.mp hvalue)
  · exact hmember h (by simp) (Json.mem_reach_member.mp hvalue)
  · exact hmember h (by simp) (Json.mem_reach_member.mp hvalue)
  · obtain ⟨actor, hactor, hvalue⟩ := Json.mem_reach_members.mp hvalue
    have hschema : actorSchema env actor = true := hmember h (by simp) hactor
    exact hmember hschema (by simp) hvalue
  · obtain ⟨actor, hactor, hvalue⟩ := Json.mem_reach_members.mp hvalue
    have hacceptedBy := hmember h (List.getLast_mem (by simp)) hactor
    exact hmember (Bool.and_eq_true_iff.mp hacceptedBy).1 (by simp) hvalue

/-! ## Hashes -/

private theorem hexDigits_lower : ∀ n, n < 256 →
    ([Canonical.hexDigit (UInt8.ofNat n >>> 4), Canonical.hexDigit (UInt8.ofNat n &&& 0x0F)].all
      fun b => Ascii.isDigit b || (0x61 ≤ b && b ≤ 0x66)) = true := by
  decide +kernel

/-- Two digits for each byte. -/
theorem hexDigits_digest (digest : Bytes) :
    (digest.flatMap fun (b : UInt8) =>
      [Canonical.hexDigit (b >>> 4), Canonical.hexDigit (b &&& 0x0F)]).length =
        2 * digest.length ∧
    (digest.flatMap fun (b : UInt8) =>
      [Canonical.hexDigit (b >>> 4), Canonical.hexDigit (b &&& 0x0F)]).all
        (fun b => Ascii.isDigit b || (0x61 ≤ b && b ≤ 0x66)) = true := by
  induction digest with
  | nil => exact ⟨rfl, rfl⟩
  | cons b digest ih =>
    have hdigits := hexDigits_lower b.toNat b.toNat_lt
    rw [UInt8.ofNat_toNat] at hdigits
    rw [List.flatMap_cons, List.length_append, List.all_append, hdigits, ih.1, ih.2]
    simp only [List.length_cons, List.length_nil, Bool.and_self, and_true]
    omega

/-- `sha256` writes a digest of 32 bytes as the pattern has it. -/
theorem isSha256_of_sha256 {env : Environment} {bytes hash : Bytes}
    (hdigest : ∀ bytes digest, env.evpDigest bytes = some digest → digest.length = 32)
    (h : env.sha256 bytes = .ok hash) : isSha256 hash = true := by
  unfold Environment.sha256 at h
  cases hevp : env.evpDigest bytes with
  | none =>
    rw [hevp] at h
    cases h
  | some digest =>
    rw [hevp, Except.ok.injEq] at h
    have hseven : (ascii "sha256:").length = 7 := by decide
    obtain ⟨hlength, hdigits⟩ := hexDigits_digest digest
    rw [hdigest bytes digest hevp] at hlength
    subst h
    unfold isSha256
    rw [List.take_left' hseven, List.drop_left' hseven, List.length_append, hseven, hlength,
      hdigits]
    rfl

theorem wellFormed_of_isSha256 {hash : Bytes} (h : isSha256 hash = true) :
    Utf8.WellFormed hash := by
  simp only [isSha256, Bool.and_eq_true, beq_iff_eq, List.all_eq_true] at h
  obtain ⟨⟨hhead, _⟩, hdigits⟩ := h
  have hlower : (0x66 : UInt8).toNat = 0x66 := rfl
  rw [← List.take_append_drop 7 hash, hhead]
  refine Utf8.WellFormed.append (.ascii (forall_mem_of_all (by decide))) (.ascii fun b hb => ?_)
  have hdigit := hdigits b hb
  simp only [Bool.or_eq_true, Bool.and_eq_true, decide_eq_true_eq] at hdigit
  rcases hdigit with hdigit | hdigit
  · exact Ascii.lt_of_isDigit hdigit
  · have hle := UInt8.le_iff_toNat_le.mp hdigit.2
    rw [UInt8.lt_iff_toNat_lt]
    exact Nat.lt_of_le_of_lt hle (by decide)

/-! ## Identifiers -/

theorem isIdentifierCharacter_of_unreserved {b : UInt8} (h : Rfc3986.Unreserved b) :
    isIdentifierCharacter b = true := by
  unfold isIdentifierCharacter
  rcases h with h | h | h
  · rw [h, Bool.true_or, Bool.true_or]
  · rw [h, Bool.or_true, Bool.true_or]
  · exact forall_mem_of_all (p := fun b => isIdentifierCharacter b = true) (by decide) b h

/-- The characters of a URI are those of the pattern. -/
theorem isIdentifierCharacter_of_uri {b : UInt8}
    (h : Rfc3986.UriCharacter b ∨ b = Rfc3986.percent ∨ Rfc3986.HexDigit b) :
    isIdentifierCharacter b = true := by
  rcases h with (((((h | h | rfl) | rfl | rfl) | rfl) | rfl) | rfl | rfl) | rfl | h
  · exact isIdentifierCharacter_of_unreserved h
  · exact forall_mem_of_all (p := fun b => isIdentifierCharacter b = true) (by decide) b h
  all_goals first | decide | exact isIdentifierCharacter_of_unreserved h.unreserved

theorem codePoints_eq_length {text : Bytes} (h : ∀ b ∈ text, b < 0x80) :
    codePoints text = text.length := by
  rw [codePoints, List.countP_eq_length]
  intro b hb
  have hlt := UInt8.lt_iff_toNat_lt.mp (h b hb)
  rw [Bool.not_eq_true', Bool.eq_false_iff, ne_eq, Utf8.isContinuation_iff]
  intro hcontinuation
  exact absurd hlt (Nat.not_lt.mpr hcontinuation.1)

variable {env : Environment} {text : Bytes}

theorem lt_of_isProtocolUri (h : env.isProtocolUri text = true) : ∀ b ∈ text, b < 0x80 := by
  intro b hb
  have hle := UInt8.le_iff_toNat_le.mp (Uri.visible_of_isProtocolUri h b hb).2
  rw [UInt8.lt_iff_toNat_lt]
  exact Nat.lt_of_le_of_lt hle (by decide)

theorem wellFormed_of_isProtocolUri (h : env.isProtocolUri text = true) : Utf8.WellFormed text :=
  .ascii (lt_of_isProtocolUri h)

theorem isProtocolUri_of_isIdentifier (h : isIdentifier env text = true) :
    env.isProtocolUri text = true := by
  simp only [isIdentifier, Bool.and_eq_true] at h
  exact h.1.1.1

theorem hasUriPrefix_of_scheme {scheme after : Bytes} (h : Rfc3986.Scheme scheme) :
    hasUriPrefix (scheme ++ Ascii.colon :: after) = true := by
  obtain ⟨b, rest, rfl, hb, hrest⟩ := h
  have hdrop : (rest ++ Ascii.colon :: after).dropWhile isSchemeCharacter =
      Ascii.colon :: after := by
    rw [List.dropWhile_append_of_pos fun c hc => (Uri.isSchemeCharacter_iff c).mpr (hrest c hc)]
    rfl
  rw [List.cons_append, hasUriPrefix, hb, hdrop]
  rfl

/-- The identifiers are the protocol URIs of at most 512 characters. -/
theorem isIdentifier_iff (haddress : ReadsAddresses env.a2iIpAddress) :
    isIdentifier env text = true ↔
      env.isProtocolUri text = true ∧ text.length ≤ maxIdentifierLength := by
  constructor
  · intro h
    have huri := isProtocolUri_of_isIdentifier h
    simp only [isIdentifier, Bool.and_eq_true, decide_eq_true_eq] at h
    obtain ⟨_, hlength⟩ := h
    rw [codePoints_eq_length (lt_of_isProtocolUri huri)] at hlength
    exact ⟨huri, hlength⟩
  · intro ⟨huri, hlength⟩
    have hgrammar := uri_of_isProtocolUri haddress huri
    have hcharacters : text.all isIdentifierCharacter = true := List.all_eq_true.mpr fun b hb =>
      isIdentifierCharacter_of_uri ((hgrammar.characters haddress.user).mem hb)
    have hprefix : hasUriPrefix text = true := by
      obtain ⟨scheme, hierPart, query, fragment, rfl, hscheme, _⟩ := hgrammar
      exact hasUriPrefix_of_scheme hscheme
    simp only [isIdentifier, Bool.and_eq_true, decide_eq_true_eq]
    refine ⟨⟨⟨huri, hprefix⟩, hcharacters⟩, ?_⟩
    rwa [codePoints_eq_length (lt_of_isProtocolUri huri)]

end MissionWeave.Schema
