import MissionWeave.CodeLib.Utf8
import MissionWeave.CodeLib.Binary64
import MissionWeave.CodeLib.Decimal
import MissionWeave.CodeLib.ToChars
import MissionWeave.CodeLib.Calendar
import MissionWeave.CodeLib.Rfc3986
import MissionWeave.CodeLib.Except
import MissionWeave.CodeLib.Traced
import MissionWeave.CodeLib.MapLoop
import MissionWeave.CodeLib.AppendOnly
import MissionWeave.CodeLib.SymbolCode
import MissionWeave.CodeLib.Utf16
import MissionWeave.CodeLib.Utf8Order
import MissionWeave.CodeLib.ModularPower
import MissionWeave.CodeLib.LucasTest
import MissionWeave.CodeLib.SquareRoot
import MissionWeave.CodeLib.Edwards
import MissionWeave.CodeLib.Terminated
import MissionWeave.CodeLib.LowerBound
import MissionWeave.CodeLib.ContentAddress
import MissionWeave.CodeLib.Segments
import MissionWeave.Errors
import MissionWeave.Json.Value
import MissionWeave.Json.Scanner
import MissionWeave.Json.Grammar
import MissionWeave.Json.Decoder
import MissionWeave.Json.Members
import MissionWeave.Json.Data
import MissionWeave.Json.ScannerReads
import MissionWeave.Json.ScannerEnds
import MissionWeave.Json.ScannerTrace
import MissionWeave.Json.ScannerBounds
import MissionWeave.Json.ScannerLog
import MissionWeave.Json.DecoderSound
import MissionWeave.Json.DecoderComplete
import MissionWeave.Json.Strict
import MissionWeave.Json.Spelling
import MissionWeave.Json.SpellingReads
import MissionWeave.Json.Fields
import MissionWeave.Canonical.Number
import MissionWeave.Canonical.Serialize
import MissionWeave.Canonical.NumberSpec
import MissionWeave.Canonical.EcmaScript
import MissionWeave.Canonical.StringSpec
import MissionWeave.Canonical.MemberOrder
import MissionWeave.Json.Parse
import MissionWeave.Canonical.RoundTrip
import MissionWeave.Canonical.Errors
import MissionWeave.Json.Denoted
import MissionWeave.Schema
import MissionWeave.Uri
import MissionWeave.UriSpec
import MissionWeave.Frame
import MissionWeave.SignedDocument.Types
import MissionWeave.Environment
import MissionWeave.Schema.Positions
import MissionWeave.Schema.Record
import MissionWeave.SignedDocument.Instant
import MissionWeave.SignedDocument.InstantSpec
import MissionWeave.SignedDocument.Rfc3339
import MissionWeave.SignedDocument.Sanitize
import MissionWeave.SignedDocument.SanitizeTrace
import MissionWeave.SignedDocument.Base64Url
import MissionWeave.Crypto
import MissionWeave.Bundle.Assets
import MissionWeave.Bundle.Generator
import MissionWeave.Bundle.Lookup
import MissionWeave.SignedDocument.Point
import MissionWeave.SignedDocument.Edwards25519
import MissionWeave.SignedDocument.PointSpec
import MissionWeave.Registry.Resolve
import MissionWeave.Registry.Reading
import MissionWeave.Registry.History
import MissionWeave.Registry.Spec
import MissionWeave.Registry.InstantOrder
import MissionWeave.Registry.Extension
import MissionWeave.Registry.Boundaries
import MissionWeave.Registry.OrderIndependence
import MissionWeave.SignedDocument.Codec
import MissionWeave.SignedDocument.Verify
import MissionWeave.SignedDocument.Timestamps
import MissionWeave.SignedDocument.Diagnosis
import MissionWeave.SignedDocument.Surrogates
import MissionWeave.SignedDocument.SanitizeSpec
import MissionWeave.SignedDocument.TamperEvidence
import MissionWeave.SignedDocument.SignVerify
import MissionWeave.SignedDocument.Reformatted
import MissionWeave.Frame.Forward
import MissionWeave.SignedDocument.StrictKeys
import MissionWeave.Crypto.Document
import MissionWeave.Bundle.Requirements
import MissionWeave.Bundle.ProtocolPin
import MissionWeave.Bundle.ArtifactPath
import MissionWeave.Canonical.Hash
import MissionWeave.SignedDocument.Separation
import MissionWeave.Bundle.Manifest
import MissionWeave.Bundle.ManifestSpec
import MissionWeave.Bundle.Verify
import MissionWeave.Bundle.Agreement
import MissionWeave.Schema.Catalog
import MissionWeave.Conformance
import MissionWeave.CodeLib.Interaction
import MissionWeave.Admission.Record
import MissionWeave.Admission.Service
import MissionWeave.Admission.RecordSpec
import MissionWeave.Admission.Run
import MissionWeave.Admission.Safety
import MissionWeave.Admission.Stability
import MissionWeave.Admission.Preparation
import MissionWeave.Admission.Admissible
import MissionWeave.CodeLib.WriteOnce
import MissionWeave.Admission.Agreement
import MissionWeave.Admission.Permanence
import MissionWeave.Admission.Reformatted
