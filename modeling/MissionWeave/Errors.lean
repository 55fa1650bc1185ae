/-!
# Exceptions

The SDK reports every failure by throwing.  `Thrown` lists the exception
classes that its functions throw or catch by name, with the data that a
handler can read.  `otherException` is any further class derived from
`std::exception`, and `foreign` is a thrown value that is not derived from it:
`catch (const std::exception&)` lets a `foreign` value pass.
-/

namespace MissionWeave

/-- The stages of `SignedDocumentCodec::verify`. -/
inductive VerificationStage
  | parse
  | schema
  | signatureEnvelope
  | keyResolution
  | canonicalization
  | signature
  | complete
  deriving DecidableEq, Repr

/-- `verification_wire_code`. -/
def verificationWireCode : VerificationStage → String
  | .parse | .canonicalization => "PROTOCOL_VIOLATION"
  | .schema => "SCHEMA_VALIDATION_FAILED"
  | .signatureEnvelope | .keyResolution | .signature => "AUTH_INVALID_SIGNATURE"
  | .complete => ""

structure VerificationDiagnostic where
  stage : VerificationStage
  reason : String
  deriving DecidableEq, Repr

/-- The reasons of an `AdmissionError`. -/
inductive AdmissionReason
  | recordMissing
  | recordBindingMismatch
  | trustedTimeOutsideKeyInterval
  | malformedTrustedTime
  | recordConflict
  | recordSchemaInvalid
  | logAuthenticationFailed
  | appendIntegrityNotEstablished
  | logUnavailable
  | logIndeterminate
  | commitFailed
  | eventSelfAnchoring
  deriving DecidableEq, Repr

/-- What a function of the SDK, or an adapter it calls, throws. -/
inductive Thrown
  | strictJsonError (what : String)
  | canonicalError (what : String)
  | invalidArgument (what : String)
  | cryptoError (what : String)
  | frameError (what : String)
  | verificationError (diagnostic : VerificationDiagnostic)
  | admissionError (reason : AdmissionReason)
  | admissionAdapterError (reason : AdmissionReason) (detail : String)
  | otherException (what : String)
  | foreign
  deriving DecidableEq, Repr

/-- `what()` of a thrown `std::exception`. -/
def Thrown.what? : Thrown → Option String
  | .strictJsonError what | .canonicalError what | .invalidArgument what | .cryptoError what
  | .frameError what | .otherException what => some what
  | .verificationError diagnostic =>
      some ("Signed Document verification failed: " ++ verificationWireCode diagnostic.stage)
  | .admissionError _ => some "Signed Document admission failed: AUTH_INVALID_SIGNATURE"
  | .admissionAdapterError _ detail => some ("Admission adapter failed: " ++ detail)
  | .foreign => none

variable {α β : Type}

/-- `try { ... } catch (const std::exception& error) { handler }`. -/
def catchException (action : Except Thrown α) (handler : String → Except Thrown α) :
    Except Thrown α :=
  match action with
  | .ok value => .ok value
  | .error thrown =>
    match thrown.what? with
    | some what => handler what
    | none => .error thrown

/-- A `try` block whose handler always throws returns what its body returned. -/
theorem catchException_eq_ok {action : Except Thrown α} {handler : String → Except Thrown α}
    {value : α} (hthrows : ∀ what v, handler what ≠ .ok v) :
    catchException action handler = .ok value ↔ action = .ok value := by
  cases action with
  | ok v => simp [catchException]
  | error thrown =>
    simp only [catchException, reduceCtorEq, iff_false]
    cases thrown.what? with
    | some what => exact hthrows what value
    | none => simp

end MissionWeave
