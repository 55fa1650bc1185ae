import MissionWeave.Bundle.Assets
import MissionWeave.Canonical.RoundTrip
import MissionWeave.CodeLib.ContentAddress

/-!
# Canonical documents and their hashes

`canonicalize_json`, `canonical_sha256` and `canonical_sha256_document` of
`canonical.cpp`.

* `canonicalSha256_eq_ok`: the hash of a value is the digest of its text.
* `canonicalSha256Document_identifies`: two documents have one hash exactly when
  they have the same data, up to a collision of their canonical texts.
-/

namespace MissionWeave.Canonical

open Bundle.DigestContext (hexText)
open ContentAddress (Collide)
open Json (SameData)
open StrictScanner (maximumDepth)

/-- `sha256_hex`. -/
def sha256Hex (env : Environment) (bytes : Bytes) : Except Thrown Bytes :=
  match env.evpDigest bytes with
  | none => .error (.canonicalError "unable to calculate SHA-256")
  | some digest => .ok (hexText digest)

/-- `canonicalize_json`. -/
def canonicalizeJson (env : Environment) (document : Bytes) : Except Thrown Bytes := do
  let value ← env.parseStrictJson document
  canonicalJson value

/-- `canonical_sha256`. -/
def canonicalSha256 (env : Environment) (value : Json) : Except Thrown Bytes := do
  let bytes ← canonicalJson value
  let hex ← sha256Hex env bytes
  .ok (ascii "sha256:" ++ hex)

/-- `canonical_sha256_document`. -/
def canonicalSha256Document (env : Environment) (document : Bytes) : Except Thrown Bytes := do
  let value ← env.parseStrictJson document
  canonicalSha256 env value

variable {env : Environment} {v w : Json} {hash : Bytes}

/-- The text of a digest, as the manifests and the hashes of values have it. -/
def identifier (digest : Bytes) : Bytes := ascii "sha256:" ++ hexText digest

theorem identifier_injective : Function.Injective identifier := fun _ _ h =>
  Bundle.hexText_injective (List.append_cancel_left h)

/-- Byte strings with one hash are the same, or they collide. -/
theorem sha256_eq_or_collide {bytes bytes' : Bytes} (h : env.sha256 bytes = .ok hash)
    (h' : env.sha256 bytes' = .ok hash) : bytes = bytes' ∨ Collide env.evpDigest bytes bytes' := by
  have hdigest {input : Bytes} (hinput : env.sha256 input = .ok hash) :
      ∃ digest, env.evpDigest input = some digest ∧ hash = identifier digest := by
    unfold Environment.sha256 at hinput
    split at hinput
    · cases hinput
    · rename_i digest hdigest
      exact ⟨digest, hdigest, (Except.ok.inj hinput).symm⟩
  obtain ⟨digest, hfirst, heq⟩ := hdigest h
  obtain ⟨digest', hsecond, heq'⟩ := hdigest h'
  rw [← identifier_injective (heq.symm.trans heq')] at hsecond
  exact ContentAddress.eq_or_collide hfirst hsecond

theorem canonicalSha256_eq_ok :
    canonicalSha256 env v = .ok hash ↔
      ∃ t digest, canonicalJson v = .ok t ∧ env.evpDigest t = some digest ∧
        hash = identifier digest := by
  simp only [canonicalSha256, Except.bind_eq_ok, sha256Hex, Except.ok.injEq]
  constructor
  · rintro ⟨t, ht, hex, hhex, rfl⟩
    split at hhex
    · cases hhex
    · rename_i digest hdigest
      exact ⟨t, digest, ht, hdigest, by rw [identifier, Except.ok.inj hhex]⟩
  · rintro ⟨t, digest, ht, hdigest, rfl⟩
    exact ⟨t, ht, hexText digest, by rw [hdigest], rfl⟩

/-- Values with one hash have one canonical text, or their texts collide. -/
theorem canonicalJson_eq_or_collide (hv : canonicalSha256 env v = .ok hash)
    (hw : canonicalSha256 env w = .ok hash) :
    ∃ t t', canonicalJson v = .ok t ∧ canonicalJson w = .ok t' ∧
      (t = t' ∨ Collide env.evpDigest t t') := by
  obtain ⟨t, digest, ht, hdigest, heq⟩ := canonicalSha256_eq_ok.mp hv
  obtain ⟨t', digest', ht', hdigest', heq'⟩ := canonicalSha256_eq_ok.mp hw
  rw [← identifier_injective (heq.symm.trans heq')] at hdigest'
  exact ⟨t, t', ht, ht', ContentAddress.eq_or_collide hdigest hdigest'⟩

/-- Values with the same data have the same hash. -/
theorem canonicalSha256_congr (h : SameData v w) :
    canonicalSha256 env v = canonicalSha256 env w := by
  rw [canonicalSha256, canonicalSha256, canonicalJson, canonicalJson, serialize_congr h]

/-- A document that has a hash is a strict JSON text of a value that has it. -/
theorem canonicalSha256Document_eq_ok (hparse : DecodesJson env.jsonParse) {document : Bytes} :
    canonicalSha256Document env document = .ok hash ↔
      ∃ v, (JsonText document v ∧ v.nesting ≤ maximumDepth) ∧ canonicalSha256 env v = .ok hash := by
  simp only [canonicalSha256Document, Except.bind_eq_ok, Environment.parseStrictJson,
    parseStrictJson_eq_ok hparse]

theorem canonicalizeJson_eq_ok (hparse : DecodesJson env.jsonParse) {document t : Bytes}
    (hv : JsonText document v ∧ v.nesting ≤ maximumDepth) (ht : canonicalJson v = .ok t) :
    canonicalizeJson env document = .ok t := by
  have hread : env.parseStrictJson document = .ok v := (parseStrictJson_eq_ok hparse).mpr hv
  rw [canonicalizeJson, hread, Except.ok_bind, ht]

/-- The canonical form of a document is a document with the same hash, and its
own canonical form. -/
theorem canonicalizeJson_of_hash (hparse : DecodesJson env.jsonParse) {document : Bytes}
    (h : canonicalSha256Document env document = .ok hash) :
    ∃ t, canonicalizeJson env document = .ok t ∧ canonicalizeJson env t = .ok t ∧
      canonicalSha256Document env t = .ok hash := by
  obtain ⟨v, hv, hhash⟩ := (canonicalSha256Document_eq_ok hparse).mp h
  obtain ⟨t, _, ht, _, _⟩ := canonicalSha256_eq_ok.mp hhash
  have hordered := ordered_of_wellFormed (wellFormed_of_jsonText hv.1)
  obtain ⟨w, hw, hdata⟩ := parse_canonicalJson hparse hordered hv.2 ht
  have hreread : env.parseStrictJson t = .ok w := hw
  have htext : canonicalJson w = .ok t := by
    rw [← ht, canonicalJson, canonicalJson, serialize_congr hdata]
  refine ⟨t, canonicalizeJson_eq_ok hparse hv ht, ?_, ?_⟩
  · rw [canonicalizeJson, hreread, Except.ok_bind, htext]
  · rw [canonicalSha256Document, hreread, Except.ok_bind, canonicalSha256_congr hdata, hhash]

/-- The documents are strict JSON texts of the same data. -/
def SameDocument (document document' : Bytes) : Prop :=
  ∃ v w, (JsonText document v ∧ v.nesting ≤ maximumDepth) ∧
    (JsonText document' w ∧ w.nesting ≤ maximumDepth) ∧ SameData v w

/-- Texts of the same data have the same canonical form and the same hash, or none
for the same reason. -/
theorem SameDocument.congr (hparse : DecodesJson env.jsonParse) {document document' : Bytes}
    (h : SameDocument document document') :
    canonicalizeJson env document' = canonicalizeJson env document ∧
      canonicalSha256Document env document' = canonicalSha256Document env document := by
  obtain ⟨v, w, hv, hw, hdata⟩ := h
  have hread : env.parseStrictJson document = .ok v := (parseStrictJson_eq_ok hparse).mpr hv
  have hread' : env.parseStrictJson document' = .ok w := (parseStrictJson_eq_ok hparse).mpr hw
  constructor
  · rw [canonicalizeJson, canonicalizeJson, hread, hread', Except.ok_bind, Except.ok_bind,
      canonicalJson, canonicalJson, serialize_congr hdata]
  · rw [canonicalSha256Document, canonicalSha256Document, hread, hread', Except.ok_bind,
      Except.ok_bind, canonicalSha256_congr hdata]

/-- Documents with one hash are texts of the same data, or the digests of their
canonical forms collide. -/
theorem sameDocument_or_collide (hparse : DecodesJson env.jsonParse) {document document' : Bytes}
    (h : canonicalSha256Document env document = .ok hash)
    (h' : canonicalSha256Document env document' = .ok hash) :
    SameDocument document document' ∨
      ∃ t t', canonicalizeJson env document = .ok t ∧ canonicalizeJson env document' = .ok t' ∧
        Collide env.evpDigest t t' := by
  obtain ⟨v, hv, hhash⟩ := (canonicalSha256Document_eq_ok hparse).mp h
  obtain ⟨w, hw, hhash'⟩ := (canonicalSha256Document_eq_ok hparse).mp h'
  obtain ⟨t, t', ht, ht', rfl | hcollide⟩ := canonicalJson_eq_or_collide hhash hhash'
  · left
    refine ⟨v, w, hv, hw, ?_⟩
    exact sameData_of_canonicalJson (ordered_of_wellFormed (wellFormed_of_jsonText hv.1))
      (ordered_of_wellFormed (wellFormed_of_jsonText hw.1)) hv.2 hw.2 ht ht'
  · right
    exact ⟨t, t', canonicalizeJson_eq_ok hparse hv ht, canonicalizeJson_eq_ok hparse hw ht',
      hcollide⟩

/-- The SHA-256 digest of `[]`. -/
def emptyArrayDigest : Bytes := [
  0x4F, 0x53, 0xCD, 0xA1, 0x8C, 0x2B, 0xAA, 0x0C, 0x03, 0x54, 0xBB, 0x5F, 0x9A, 0x3E, 0xCB, 0xE5,
  0xED, 0x12, 0xAB, 0x4D, 0x8E, 0x11, 0xBA, 0x87, 0x3C, 0x2F, 0x11, 0x16, 0x12, 0x02, 0xB9, 0x45]

def hashEnvironment : Environment :=
  { Environment.reference with
    evpDigest := fun bytes => if bytes = ascii "[]" then some emptyArrayDigest else none }

end MissionWeave.Canonical
