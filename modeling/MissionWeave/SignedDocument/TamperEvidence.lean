import MissionWeave.SignedDocument.Verify
import MissionWeave.Canonical.RoundTrip
import MissionWeave.Json.Fields

/-!
# What the signing bytes determine

Two accepted documents with the same signing bytes, which one signature serves,
have the same RFC 8785 data outside their `signature` member.

* `sameData_of_signingBytes`: the statement.
* `signingBytes_counterexample`: the documents may still hold different
  integers, since an integer beyond the range of `double` is signed as another
  one.
-/

namespace MissionWeave.SignedDocumentCodec

open StrictScanner (maximumDepth)

section

variable {env : Environment} {kind kind' : SignedDocumentKind}
  {receivedBytes receivedBytes' : Bytes}
  {resolver resolver' : KeyResolver} {verified verified' : VerifiedSignedDocument}

/-- An accepted document is in the form that the decoder returns. -/
theorem Authentic.ordered (hparse : DecodesJson env.jsonParse)
    (h : Authentic env kind receivedBytes resolver verified) :
    verified.document.Ordered ∧ verified.document.nesting ≤ maximumDepth := by
  obtain ⟨htext, hdepth⟩ := (parseStrictJson_eq_ok hparse).mp h.parsed
  exact ⟨Canonical.ordered_of_wellFormed (wellFormed_of_jsonText htext), hdepth⟩

/-- What is signed of accepted documents determines their data. -/
theorem sameData_of_authentic (hparse : DecodesJson env.jsonParse)
    (h : Authentic env kind receivedBytes resolver verified)
    (h' : Authentic env kind' receivedBytes' resolver' verified')
    (hsigning : verified.signingBytes = verified'.signingBytes) :
    Json.SameData (verified.document.erase "signature") (verified'.document.erase "signature") := by
  obtain ⟨hordered, hdepth⟩ := h.ordered hparse
  obtain ⟨hordered', hdepth'⟩ := h'.ordered hparse
  have hbytes := h'.signingBytes
  rw [← hsigning] at hbytes
  exact Canonical.sameData_of_canonicalJson (hordered.erase _) (hordered'.erase _)
    ((Json.nesting_erase_le _ _).trans hdepth) ((Json.nesting_erase_le _ _).trans hdepth')
    h.signingBytes hbytes

end

/-- Accepted documents with the same signing bytes have the same data apart
from their signature, and they are equal if the integers of one are safe. -/
theorem sameData_of_signingBytes (env : Environment) (hparse : DecodesJson env.jsonParse)
    (kind : SignedDocumentKind) (receivedBytes receivedBytes' : Bytes)
    (resolver resolver' : KeyResolver) (verified verified' : VerifiedSignedDocument)
    (h : verify env kind receivedBytes resolver = .ok verified)
    (h' : verify env kind receivedBytes' resolver' = .ok verified')
    (hsigning : verified.signingBytes = verified'.signingBytes) :
    Json.SameData (verified.document.erase "signature") (verified'.document.erase "signature") ∧
      ((verified.document.erase "signature").SafeIntegers →
        (verified.document.erase "signature").equals
          (verified'.document.erase "signature") = true) := by
  obtain ⟨opened, hopens, hcompletes⟩ := verify_eq_ok.mp h
  obtain ⟨opened', hopens', hcompletes'⟩ := verify_eq_ok.mp h'
  have hauthentic := authentic_of_opens hopens hcompletes
  have hauthentic' := authentic_of_opens hopens' hcompletes'
  have hdata := sameData_of_authentic hparse hauthentic hauthentic' hsigning
  have hfinite := (Canonical.wellFormed_of_serialize ((hauthentic.ordered hparse).1.erase _)
    hauthentic.signingBytes).2
  exact ⟨hdata, fun hsafe => Json.equals_of_data hfinite hsafe hdata⟩

/-- Two evidences that differ in an integer of their details are both accepted,
and signed alike. -/
theorem exists_samplePair :
    ∃ verified verified',
      verify sampleEnvironment .evidence (sampleEvidence "9007199254740993")
        (completeResolver Registry.sampleRegistry) = .ok verified ∧
      verify sampleEnvironment .evidence (sampleEvidence "9007199254740992")
        (completeResolver Registry.sampleRegistry) = .ok verified' ∧
      verified.signingBytes = verified'.signingBytes ∧
      (verified.document.erase "signature").equals
        (verified'.document.erase "signature") = false := by
  have hok : (do
      let verified ← referenceVerify sampleEnvironment .evidence
        (sampleEvidence "9007199254740993") Registry.sampleRegistry
      let verified' ← referenceVerify sampleEnvironment .evidence
        (sampleEvidence "9007199254740992") Registry.sampleRegistry
      .ok (verified.signingBytes == verified'.signingBytes,
        (verified.document.erase "signature").equals (verified'.document.erase "signature"))) =
      Except.ok (true, false) := by
    decide +kernel
  obtain ⟨verified, h, hok⟩ := Except.bind_eq_ok.mp hok
  obtain ⟨verified', h', hok⟩ := Except.bind_eq_ok.mp hok
  obtain ⟨hsigning, hequals⟩ := Prod.mk.inj (Except.ok.inj hok)
  exact ⟨verified, verified', verify_of_referenceVerify rfl h, verify_of_referenceVerify rfl h',
    beq_iff_eq.mp hsigning, hequals⟩

theorem sameData_of_signingBytes_sample :
    ∃ verified verified',
      verify sampleEnvironment .evidence (sampleEvidence "9007199254740993")
        (completeResolver Registry.sampleRegistry) = .ok verified ∧
      verify sampleEnvironment .evidence (sampleEvidence "9007199254740992")
        (completeResolver Registry.sampleRegistry) = .ok verified' ∧
      Json.SameData (verified.document.erase "signature")
        (verified'.document.erase "signature") := by
  obtain ⟨verified, verified', h, h', hsigning, _⟩ := exists_samplePair
  exact ⟨verified, verified', h, h',
    (sameData_of_signingBytes _ decodesJson_referenceParse _ _ _ _ _ _ _ h h' hsigning).1⟩

/-- One signature serves two evidences with different details. -/
theorem signingBytes_counterexample :
    ¬∀ verified verified',
      verify sampleEnvironment .evidence (sampleEvidence "9007199254740993")
        (completeResolver Registry.sampleRegistry) = .ok verified →
      verify sampleEnvironment .evidence (sampleEvidence "9007199254740992")
        (completeResolver Registry.sampleRegistry) = .ok verified' →
      verified.signingBytes = verified'.signingBytes →
        (verified.document.erase "signature").equals
          (verified'.document.erase "signature") = true := by
  intro hequal
  obtain ⟨verified, verified', h, h', hsigning, hdiffer⟩ := exists_samplePair
  rw [hequal verified verified' h h' hsigning] at hdiffer
  cases hdiffer

end MissionWeave.SignedDocumentCodec
