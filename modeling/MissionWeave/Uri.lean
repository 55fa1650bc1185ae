import MissionWeave.CodeLib.Bytes

/-!
# Protocol URIs

`is_protocol_uri` of `schema.cpp`: the RFC 3986 predicate on identifiers.  The
address parser of OpenSSL, `a2i_IPADDRESS`, is a parameter.

* `front_of_isProtocolUri`: a protocol URI starts with a letter.
* `visible_of_isProtocolUri`: it holds no control characters.
-/

namespace MissionWeave.Uri

/-! ## Byte string views -/

/-- `text.find(value, start)`. -/
def find (text : Bytes) (value : UInt8) (start : Nat) : Option Nat :=
  ((text.drop start).idxOf? value).map (· + start)

/-- `text.substr(start, count)`. -/
def substr (text : Bytes) (start count : Nat) : Bytes := (text.drop start).take count

/-! ## Character classes -/

def isSchemeCharacter (value : UInt8) : Bool :=
  Ascii.isAlpha value || Ascii.isDigit value || value == 0x2B || value == 0x2D || value == 0x2E

def isHexDigit (value : UInt8) : Bool := (Ascii.hexValue? value).isSome

def isUnreserved (value : UInt8) : Bool :=
  Ascii.isAlpha value || Ascii.isDigit value || value == 0x2D || value == 0x2E ||
    value == 0x5F || value == 0x7E

def isSubDelimiter (value : UInt8) : Bool := (ascii "!$&'()*+,;=").contains value

def isPchar (value : UInt8) : Bool :=
  isUnreserved value || isSubDelimiter value || value == 0x3A || value == 0x40

/-- `'%'`. -/
abbrev percent : UInt8 := 0x25

def hasValidPercentTriplets : Bytes → Bool
  | [] => true
  | b :: rest =>
    if b = percent then
      match rest with
      | h :: l :: rest => isHexDigit h && isHexDigit l && hasValidPercentTriplets rest
      | _ => false
    else hasValidPercentTriplets rest

def hasValidScheme (value : Bytes) : Option Nat → Bool
  | none => false
  | some colon =>
    colon != 0 && (value.head?.map Ascii.isAlpha).getD false &&
      (substr value 1 (colon - 1)).all isSchemeCharacter

def hasVisibleAsciiOnly (value : Bytes) : Bool := value.all fun b => 0x21 ≤ b && b ≤ 0x7E

/-- `component_matches`. -/
def componentMatches (allowed : UInt8 → Bool) : Bytes → Bool
  | [] => true
  | b :: rest =>
    if b = percent then
      match rest with
      | h :: l :: rest => isHexDigit h && isHexDigit l && componentMatches allowed rest
      | _ => false
    else allowed b && componentMatches allowed rest

/-! ## Components -/

def isIpvFuture (value : Bytes) : Bool :=
  if value.length < 4 ∨ (value.head? ≠ some 0x76 ∧ value.head? ≠ some 0x56) then false
  else
    match find value 0x2E 1 with
    | none => false
    | some dot =>
      if dot = 1 ∨ dot + 1 = value.length then false
      else
        (substr value 1 (dot - 1)).all isHexDigit &&
          (value.drop (dot + 1)).all fun b => isUnreserved b || isSubDelimiter b || b == 0x3A

section

variable (a2iIpAddress : Bytes → Option Bytes)

def isIpv6Address (value : Bytes) : Bool :=
  match a2iIpAddress value with
  | none => false
  | some encoded => encoded.length == 16

def isIpLiteral (value : Bytes) : Bool := isIpvFuture value || isIpv6Address a2iIpAddress value

def isValidPort (value : Bytes) : Bool := value.all Ascii.isDigit

/-- The host and the port of an authority. -/
def isValidHostPort (hostPort : Bytes) : Bool :=
  if hostPort.head? = some Ascii.leftBracket then
    match find hostPort Ascii.rightBracket 0 with
    | none => false
    | some close =>
      if close = 1 ∨ (find hostPort Ascii.leftBracket 1).isSome ∨
          (find hostPort Ascii.rightBracket (close + 1)).isSome ∨
          ¬isIpLiteral a2iIpAddress (substr hostPort 1 (close - 1)) then false
      else
        match hostPort.drop (close + 1) with
        | [] => true
        | b :: port => b == Ascii.colon && isValidPort port
  else if Ascii.leftBracket ∈ hostPort ∨ Ascii.rightBracket ∈ hostPort then false
  else
    let isHostCharacter := fun b => isUnreserved b || isSubDelimiter b
    match find hostPort Ascii.colon 0 with
    | none => componentMatches isHostCharacter hostPort
    | some colon =>
      if (find hostPort Ascii.colon (colon + 1)).isSome then false
      else
        componentMatches isHostCharacter (hostPort.take colon) &&
          isValidPort (hostPort.drop (colon + 1))

def isValidAuthority (authority : Bytes) : Bool :=
  match find authority 0x40 0 with
  | none => isValidHostPort a2iIpAddress authority
  | some at_ =>
    if (find authority 0x40 (at_ + 1)).isSome ∨
        ¬componentMatches (fun b => isUnreserved b || isSubDelimiter b || b == 0x3A)
          (authority.take at_) then false
    else isValidHostPort a2iIpAddress (authority.drop (at_ + 1))

def isPathCharacter (value : UInt8) : Bool := isPchar value || value == Ascii.slash

def isValidPathAbempty (path : Bytes) : Bool :=
  (path.isEmpty || path.head? == some Ascii.slash) && componentMatches isPathCharacter path

def isValidPathAbsolute : Bytes → Bool
  | [] => false
  | b :: path =>
    if b ≠ Ascii.slash then false
    else if path = [] then true
    else path.head? != some Ascii.slash && componentMatches isPathCharacter path

def isValidPathRootless : Bytes → Bool
  | [] => false
  | b :: path =>
    if b = Ascii.slash then false
    else (b == percent || isPchar b) && componentMatches isPathCharacter (b :: path)

def isValidHierPart (hierPart : Bytes) : Bool :=
  if hierPart.take 2 = [Ascii.slash, Ascii.slash] then
    match find hierPart Ascii.slash 2 with
    | none => isValidAuthority a2iIpAddress (hierPart.drop 2) && isValidPathAbempty []
    | some pathStart =>
      isValidAuthority a2iIpAddress (substr hierPart 2 (pathStart - 2)) &&
        isValidPathAbempty (hierPart.drop pathStart)
  else if hierPart = [] then true
  else if hierPart.head? = some Ascii.slash then isValidPathAbsolute hierPart
  else isValidPathRootless hierPart

def isValidQueryOrFragment (value : Bytes) : Bool :=
  componentMatches (fun b => isPchar b || b == Ascii.slash || b == 0x3F) value

/-- What follows the colon of the scheme. -/
def isValidAfterScheme (value : Bytes) (colon : Nat) : Bool :=
  let fragmentDelimiter := find value 0x23 (colon + 1)
  let beforeFragmentEnd := fragmentDelimiter.getD value.length
  let queryDelimiter := (find value 0x3F (colon + 1)).filter (· < beforeFragmentEnd)
  let hierPartEnd := queryDelimiter.getD beforeFragmentEnd
  isValidHierPart a2iIpAddress (substr value (colon + 1) (hierPartEnd - colon - 1)) &&
    (match queryDelimiter with
      | none => true
      | some query =>
        isValidQueryOrFragment (substr value (query + 1) (beforeFragmentEnd - query - 1))) &&
    match fragmentDelimiter with
    | none => true
    | some fragment => isValidQueryOrFragment (value.drop (fragment + 1))

/-- `is_protocol_uri`. -/
def isProtocolUri (value : Bytes) : Bool :=
  if value = [] ∨ ¬hasVisibleAsciiOnly value ∨ ¬hasValidPercentTriplets value then false
  else
    let colon := find value Ascii.colon 0
    hasValidScheme value colon && isValidAfterScheme a2iIpAddress value (colon.getD 0)

end

/-! ## What a protocol URI looks like -/

variable {a2iIpAddress : Bytes → Option Bytes} {value : Bytes}

/-- A protocol URI starts with a letter. -/
theorem front_of_isProtocolUri (h : isProtocolUri a2iIpAddress value = true) :
    ∃ b rest, value = b :: rest ∧ Ascii.isAlpha b = true := by
  rw [isProtocolUri] at h
  split_ifs at h with hguard
  rw [Bool.and_eq_true] at h
  obtain ⟨hscheme, _⟩ := h
  cases hcolon : find value Ascii.colon 0 with
  | none =>
    rw [hcolon] at hscheme
    cases hscheme
  | some colon =>
    rw [hcolon, hasValidScheme, Bool.and_eq_true, Bool.and_eq_true] at hscheme
    cases value with
    | nil => exact absurd (Or.inl rfl) hguard
    | cons b rest => exact ⟨b, rest, rfl, hscheme.1.2⟩

/-- A protocol URI holds visible ASCII characters only. -/
theorem visible_of_isProtocolUri (h : isProtocolUri a2iIpAddress value = true) :
    ∀ b ∈ value, 0x21 ≤ b ∧ b ≤ 0x7E := by
  rw [isProtocolUri] at h
  split_ifs at h with hguard
  have hvisible : hasVisibleAsciiOnly value = true := by
    by_contra hnot
    exact hguard (Or.inr (Or.inl hnot))
  intro b hb
  have := List.all_eq_true.mp hvisible b hb
  simpa only [Bool.and_eq_true, decide_eq_true_eq] using this

end MissionWeave.Uri
