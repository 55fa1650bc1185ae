import MissionWeave.CodeLib.Rfc3986
import MissionWeave.Uri

/-!
# `is_protocol_uri` accepts the URIs of RFC 3986

The predicate of the source splits its text at delimiters that it searches for.
Each function of it is compared with the production that it stands for, and
`isProtocolUri_iff` puts them together.

The bracketed addresses are the ones that OpenSSL reads.  `ReadsAddresses` says
what is assumed of it.
-/

namespace MissionWeave.Uri

open Rfc3986 (Component HexDigit Unreserved SubDelim Pchar NameCharacter UserCharacter
  QueryCharacter PathCharacter Visible Plain delimited)

/-! ## Searching for a delimiter -/

theorem find_of_not_mem {text : Bytes} {value : UInt8} (h : value ∉ text) :
    find text value 0 = none := by
  unfold find
  rw [List.drop_zero, List.idxOf?_eq_none_iff.mpr h, Option.map_none]

theorem find_append {before : Bytes} {value : UInt8} (h : value ∉ before) (after : Bytes) :
    find (before ++ value :: after) value 0 = some before.length := by
  unfold find
  rw [List.drop_zero]
  induction before with
  | nil => simp [List.idxOf?_cons]
  | cons b before ih =>
    rw [List.mem_cons, not_or] at h
    have hne : (b == value) = false := beq_false_of_ne (Ne.symm h.1)
    rw [List.cons_append, List.idxOf?_cons, hne, if_neg Bool.false_ne_true]
    have hrest := ih h.2
    simp only [Nat.add_zero, Option.map_id', Option.map_map] at hrest ⊢
    rw [hrest]
    simp

/-- A search from an index on goes through the text behind it. -/
theorem find_behind (text rest : Bytes) (value : UInt8) :
    find (text ++ rest) value text.length = (find rest value 0).map (· + text.length) := by
  unfold find
  rw [List.drop_left, List.drop_zero]
  simp

/-- A text without the delimiter, or the texts before and behind its first
occurrence. -/
theorem find_cases (text : Bytes) (value : UInt8) :
    (value ∉ text ∧ find text value 0 = none) ∨
      ∃ before after, text = before ++ value :: after ∧ value ∉ before ∧
        find text value 0 = some before.length := by
  by_cases h : value ∈ text
  · obtain ⟨before, after, rfl, hbefore⟩ := List.eq_append_cons_of_mem h
    exact Or.inr ⟨before, after, rfl, hbefore, find_append hbefore after⟩
  · exact Or.inl ⟨h, find_of_not_mem h⟩

/-- Whether there is another delimiter. -/
theorem isSome_find_behind (text rest : Bytes) (value : UInt8) :
    (find (text ++ rest) value text.length).isSome = true ↔ value ∈ rest := by
  rw [find_behind, Option.isSome_map]
  rcases find_cases rest value with ⟨hnot, hfind⟩ | ⟨before, after, rfl, -, hfind⟩
  · simp [hfind, hnot]
  · simp [hfind]

theorem substr_append (before middle after : Bytes) :
    substr (before ++ (middle ++ after)) before.length middle.length = middle := by
  rw [substr, List.drop_left, List.take_left]

/-! ## Characters and components -/

theorem isHexDigit_iff (b : UInt8) : isHexDigit b = true ↔ HexDigit b := Iff.rfl

theorem isUnreserved_iff (b : UInt8) : isUnreserved b = true ↔ Unreserved b := by
  have hascii : ascii "-._~" = [0x2D, 0x2E, 0x5F, 0x7E] := by decide
  unfold isUnreserved Unreserved
  rw [hascii]
  simp only [Bool.or_eq_true, beq_iff_eq, List.mem_cons, List.not_mem_nil, or_false, or_assoc]

theorem isSubDelimiter_iff (b : UInt8) : isSubDelimiter b = true ↔ SubDelim b :=
  List.contains_iff_mem

theorem isPchar_iff (b : UInt8) : isPchar b = true ↔ Pchar b := by
  unfold isPchar Pchar
  simp only [Bool.or_eq_true, isUnreserved_iff, isSubDelimiter_iff, beq_iff_eq, or_assoc]

theorem componentMatches_char (allowed : UInt8 → Bool) {b : UInt8} (hb : b ≠ percent)
    (rest : Bytes) :
    componentMatches allowed (b :: rest) = (allowed b && componentMatches allowed rest) := by
  rw [componentMatches.eq_def]
  exact if_neg hb

theorem componentMatches_triplet (allowed : UInt8 → Bool) (h l : UInt8) (rest : Bytes) :
    componentMatches allowed (percent :: h :: l :: rest) =
      (isHexDigit h && isHexDigit l && componentMatches allowed rest) := by
  rw [componentMatches, if_pos rfl]

theorem componentMatches_iff {allowed : UInt8 → Bool} {p : UInt8 → Prop}
    (hallowed : ∀ b, allowed b = true ↔ p b) (hpercent : ¬p percent) (s : Bytes) :
    componentMatches allowed s = true ↔ Component p s := by
  constructor
  · intro h
    fun_induction componentMatches allowed s with
    | case1 => exact .nil
    | case2 h l rest ih =>
      simp only [Bool.and_eq_true] at h
      exact .triplet h.1.1 h.1.2 (ih h.2)
    | case3 => cases h
    | case4 b rest hb ih =>
      rw [Bool.and_eq_true] at h
      exact .char ((hallowed b).mp h.1) (ih h.2)
  · intro h
    induction h with
    | nil => rfl
    | char hb _ ih =>
      rw [componentMatches_char _ (Rfc3986.ne_of_class hb hpercent), (hallowed _).mpr hb, ih]
      rfl
    | triplet hh hl _ ih =>
      rw [componentMatches_triplet, (isHexDigit_iff _).mpr hh, (isHexDigit_iff _).mpr hl, ih]
      rfl

/-- The check on the whole text looks for triplets like the check on a
component. -/
theorem hasValidPercentTriplets_eq (s : Bytes) :
    hasValidPercentTriplets s = componentMatches (fun b => b != percent) s := by
  fun_induction hasValidPercentTriplets s with
  | case1 => rfl
  | case2 h l rest ih => rw [componentMatches_triplet, ih]
  | case3 rest hrest =>
    rw [componentMatches, if_pos rfl]
    exact hrest
  | case4 b rest hb ih => simp [componentMatches_char _ hb, ih, hb]

/-- The checks on the whole text. -/
theorem plain_iff (s : Bytes) :
    (hasVisibleAsciiOnly s = true ∧ hasValidPercentTriplets s = true) ↔
      (∀ b ∈ s, Visible b) ∧ Component (· ≠ percent) s := by
  rw [hasValidPercentTriplets_eq, componentMatches_iff (p := (· ≠ percent)) (by simp) (by simp)]
  have hvisible : hasVisibleAsciiOnly s = true ↔ ∀ b ∈ s, Visible b := by
    simp [hasVisibleAsciiOnly, Visible]
  rw [hvisible]

/-! ## Hosts -/

/-- The parts of an `IPvFuture` around the first point. -/
theorem isIpvFuture_split {v : UInt8} {digits rest : Bytes} (h : Ascii.point ∉ digits) :
    isIpvFuture (v :: (digits ++ Ascii.point :: rest)) = true ↔
      (v = 0x76 ∨ v = 0x56) ∧ digits ≠ [] ∧ rest ≠ [] ∧ digits.all isHexDigit = true ∧
        (rest.all fun b => isUnreserved b || isSubDelimiter b || b == 0x3A) = true := by
  have hfind : find (v :: (digits ++ Ascii.point :: rest)) 0x2E 1 = some (digits.length + 1) := by
    have hbehind := find_behind [v] (digits ++ Ascii.point :: rest) 0x2E
    rw [find_append h] at hbehind
    exact hbehind
  have hdigits : substr (v :: (digits ++ Ascii.point :: rest)) 1 (digits.length + 1 - 1) =
      digits := substr_append [v] digits (Ascii.point :: rest)
  have hrest : (v :: (digits ++ Ascii.point :: rest)).drop (digits.length + 1 + 1) = rest := by
    rw [List.drop_succ_cons, ← List.drop_drop, List.drop_left, List.drop_succ_cons, List.drop_zero]
  have hlength :
      (v :: (digits ++ Ascii.point :: rest)).length = digits.length + rest.length + 2 := by
    simp only [List.length_cons, List.length_append]
    omega
  unfold isIpvFuture
  simp only [hfind, hdigits, hrest, hlength, List.head?_cons, ne_eq, Option.some.injEq]
  cases digits with
  | nil => simp
  | cons d digits =>
    cases rest with
    | nil => simp
    | cons r rest =>
      have hlong : ¬((d :: digits).length + (r :: rest).length + 2 < 4) := by
        simp only [List.length_cons]
        omega
      have hdot : ¬((d :: digits).length + 1 = 1 ∨
          (d :: digits).length + 1 + 1 = (d :: digits).length + (r :: rest).length + 2) := by
        simp only [List.length_cons]
        omega
      simp only [hlong, hdot, if_false, false_or]
      by_cases hv : v = 0x76 ∨ v = 0x56
      · rw [if_neg (by tauto)]
        simp [hv]
      · rw [if_pos (by tauto)]
        simp [hv]

theorem isIpvFuture_iff (s : Bytes) : isIpvFuture s = true ↔ Rfc3986.IPvFuture s := by
  have huser (b : UInt8) : (isUnreserved b || isSubDelimiter b || b == 0x3A) = true ↔
      UserCharacter b := by
    simp only [Bool.or_eq_true, isUnreserved_iff, isSubDelimiter_iff, beq_iff_eq, or_assoc]
    exact Iff.rfl
  have hpoint {digits : Bytes} (h : ∀ b ∈ digits, HexDigit b) : Ascii.point ∉ digits :=
    fun hmem => absurd (h _ hmem) (by decide)
  constructor
  · intro h
    cases s with
    | nil => cases h
    | cons v t =>
      rcases find_cases t Ascii.point with ⟨-, hnone⟩ | ⟨digits, rest, rfl, hnot, -⟩
      · -- without a point there is no version
        have hbehind := find_behind [v] t Ascii.point
        rw [hnone] at hbehind
        have hfind : find (v :: t) 0x2E 1 = none := hbehind
        unfold isIpvFuture at h
        rw [hfind] at h
        simp at h
      · obtain ⟨hv, hdigits, hrest, hhex, hall⟩ := (isIpvFuture_split hnot).mp h
        exact ⟨v, digits, rest, rfl, hv, hdigits, List.all_eq_true.mp hhex, hrest,
          fun b hb => (huser b).mp (List.all_eq_true.mp hall b hb)⟩
  · intro ⟨v, digits, rest, hs, hv, hdigits, hhex, hrest, hall⟩
    rw [hs, isIpvFuture_split (hpoint hhex)]
    exact ⟨hv, hdigits, hrest, List.all_eq_true.mpr hhex,
      List.all_eq_true.mpr fun b hb => (huser b).mpr (hall b hb)⟩

theorem isValidPort_iff (s : Bytes) : isValidPort s = true ↔ Rfc3986.Port s := List.all_eq_true

variable (a2iIpAddress : Bytes → Option Bytes)

/-- An `IPv6address`: visible characters that OpenSSL reads as 16 bytes.  It reads
past whitespace, which no URI holds. -/
def IPv6Address (s : Bytes) : Prop :=
  (∀ b ∈ s, Visible b) ∧ isIpv6Address a2iIpAddress s = true

/-- What OpenSSL reads as an IPv6 address is not empty and holds hexadecimal
digits, colons, points and the signs of decimal numbers: characters that user
information may hold as well. -/
structure ReadsAddresses : Prop where
  ne_nil : ∀ s, IPv6Address a2iIpAddress s → s ≠ []
  user : ∀ s, IPv6Address a2iIpAddress s → ∀ b ∈ s, UserCharacter b

variable {a2iIpAddress : Bytes → Option Bytes}

theorem ipLiteral_ne_nil (haddress : ReadsAddresses a2iIpAddress) {t : Bytes}
    (h : IPv6Address a2iIpAddress t ∨ Rfc3986.IPvFuture t) : t ≠ [] := by
  rcases h with h | ⟨v, digits, rest, rfl, -⟩
  · exact haddress.ne_nil t h
  · exact List.cons_ne_nil _ _

theorem isIpLiteral_iff {t : Bytes} (hvisible : ∀ b ∈ t, Visible b) :
    isIpLiteral a2iIpAddress t = true ↔ IPv6Address a2iIpAddress t ∨ Rfc3986.IPvFuture t := by
  unfold isIpLiteral IPv6Address
  rw [Bool.or_eq_true, isIpvFuture_iff, or_comm, and_iff_right hvisible]

/-- A host in brackets, with what follows it. -/
theorem isValidHostPort_bracket {t after : Bytes} (hclose : Ascii.rightBracket ∉ t) :
    isValidHostPort a2iIpAddress (Ascii.leftBracket :: (t ++ Ascii.rightBracket :: after)) =
        true ↔
      t ≠ [] ∧ Ascii.leftBracket ∉ t ∧ Ascii.leftBracket ∉ after ∧ Ascii.rightBracket ∉ after ∧
        isIpLiteral a2iIpAddress t = true ∧
        (after = [] ∨ ∃ port, after = Ascii.colon :: port ∧ isValidPort port = true) := by
  have hfind : find (Ascii.leftBracket :: (t ++ Ascii.rightBracket :: after))
      Ascii.rightBracket 0 = some (t.length + 1) :=
    find_append (List.not_mem_cons_of_ne_of_not_mem (by decide) hclose) after
  have hleft : (find (Ascii.leftBracket :: (t ++ Ascii.rightBracket :: after))
      Ascii.leftBracket 1).isSome = true ↔
        Ascii.leftBracket ∈ t ∨ Ascii.leftBracket ∈ after := by
    have hbehind := isSome_find_behind [Ascii.leftBracket] (t ++ Ascii.rightBracket :: after)
      Ascii.leftBracket
    have hne : Ascii.leftBracket ≠ Ascii.rightBracket := by decide
    rw [List.mem_append, List.mem_cons, or_iff_right hne] at hbehind
    exact hbehind
  have hright : (find (Ascii.leftBracket :: (t ++ Ascii.rightBracket :: after))
      Ascii.rightBracket (t.length + 1 + 1)).isSome = true ↔ Ascii.rightBracket ∈ after := by
    have hbehind := isSome_find_behind (Ascii.leftBracket :: (t ++ [Ascii.rightBracket])) after
      Ascii.rightBracket
    simpa using hbehind
  have hsubstr : substr (Ascii.leftBracket :: (t ++ Ascii.rightBracket :: after)) 1
      (t.length + 1 - 1) = t := substr_append [Ascii.leftBracket] t (Ascii.rightBracket :: after)
  have hdrop : (Ascii.leftBracket :: (t ++ Ascii.rightBracket :: after)).drop (t.length + 1 + 1) =
      after := by
    rw [List.drop_succ_cons, ← List.drop_drop, List.drop_left, List.drop_succ_cons, List.drop_zero]
  unfold isValidHostPort
  rw [if_pos List.head?_cons]
  simp only [hfind, hleft, hright, hsubstr, hdrop]
  split_ifs with hguard
  · rw [false_iff]
    intro ⟨hne, hl, hl', hr, hliteral, _⟩
    have hlength : t.length ≠ 0 := mt List.length_eq_zero_iff.mp hne
    rcases hguard with h | (h | h) | h | h
    · omega
    · exact absurd h hl
    · exact absurd h hl'
    · exact absurd h hr
    · exact absurd hliteral h
  · simp only [not_or, not_not] at hguard
    obtain ⟨hone, ⟨hl, hl'⟩, hr, hliteral⟩ := hguard
    have hne : t ≠ [] := by
      intro h
      rw [h, List.length_nil] at hone
      exact hone rfl
    cases after with
    | nil => simp [hne, hl, hliteral]
    | cons b port =>
      simp only [Bool.and_eq_true, beq_iff_eq]
      constructor
      · intro ⟨hb, hport⟩
        exact ⟨hne, hl, hl', hr, hliteral, Or.inr ⟨port, by rw [hb], hport⟩⟩
      · intro ⟨_, _, _, _, _, hafter⟩
        rcases hafter with h | ⟨port', h, hport⟩
        · cases h
        · obtain ⟨rfl, rfl⟩ := List.cons.inj h
          exact ⟨rfl, hport⟩

/-- Only a bracket that closes the address is followed by a port. -/
theorem isValidHostPort_unclosed {s : Bytes} (hclose : Ascii.rightBracket ∉ s) :
    isValidHostPort a2iIpAddress (Ascii.leftBracket :: s) = false := by
  unfold isValidHostPort
  rw [if_pos List.head?_cons,
    find_of_not_mem (List.not_mem_cons_of_ne_of_not_mem (by decide) hclose)]

/-- A host without brackets, and no port. -/
theorem isValidHostPort_host {s : Bytes} (hleft : Ascii.leftBracket ∉ s)
    (hright : Ascii.rightBracket ∉ s) (hcolon : Ascii.colon ∉ s) :
    isValidHostPort a2iIpAddress s =
      componentMatches (fun b => isUnreserved b || isSubDelimiter b) s := by
  have hhead : s.head? ≠ some Ascii.leftBracket := fun h => hleft (List.mem_of_mem_head? h)
  unfold isValidHostPort
  rw [if_neg hhead, if_neg (not_or.mpr ⟨hleft, hright⟩), find_of_not_mem hcolon]

/-- A host without brackets, and a port. -/
theorem isValidHostPort_port {host port : Bytes} (hcolon : Ascii.colon ∉ host)
    (hleft : Ascii.leftBracket ∉ host ++ Ascii.colon :: port)
    (hright : Ascii.rightBracket ∉ host ++ Ascii.colon :: port) :
    isValidHostPort a2iIpAddress (host ++ Ascii.colon :: port) = true ↔
      Ascii.colon ∉ port ∧
        componentMatches (fun b => isUnreserved b || isSubDelimiter b) host = true ∧
          isValidPort port = true := by
  have hsecond : (find (host ++ Ascii.colon :: port) Ascii.colon (host.length + 1)).isSome = true ↔
      Ascii.colon ∈ port := by
    have hbehind := isSome_find_behind (host ++ [Ascii.colon]) port Ascii.colon
    simpa using hbehind
  have htake : (host ++ Ascii.colon :: port).take host.length = host := List.take_left
  have hdrop : (host ++ Ascii.colon :: port).drop (host.length + 1) = port := by
    rw [← List.drop_drop, List.drop_left, List.drop_succ_cons, List.drop_zero]
  have hhead : (host ++ Ascii.colon :: port).head? ≠ some Ascii.leftBracket :=
    fun h => hleft (List.mem_of_mem_head? h)
  unfold isValidHostPort
  rw [if_neg hhead, if_neg (not_or.mpr ⟨hleft, hright⟩), find_append hcolon]
  simp only [hsecond, htake, hdrop]
  split_ifs with h
  · simp [h]
  · simp [h]

theorem isRegName_iff (s : Bytes) :
    componentMatches (fun b => isUnreserved b || isSubDelimiter b) s = true ↔
      Rfc3986.RegName s := by
  apply componentMatches_iff
  · intro b
    rw [Bool.or_eq_true, isUnreserved_iff, isSubDelimiter_iff]
    exact Iff.rfl
  · decide

/-- A port holds digits only. -/
theorem not_mem_port {port : Option Bytes} (hport : ∀ p ∈ port, Rfc3986.Port p) {b : UInt8}
    (hdigit : Ascii.isDigit b = false) : ∀ p ∈ port, b ∉ p := by
  intro p hp hmem
  have hb := hport p hp b hmem
  rw [hdigit] at hb
  cases hb

theorem not_mem_delimited_port {port : Option Bytes} (hport : ∀ p ∈ port, Rfc3986.Port p)
    {b : UInt8} (hdigit : Ascii.isDigit b = false) (hcolon : b ≠ Ascii.colon) :
    b ∉ delimited Ascii.colon port := by
  cases port with
  | none => exact List.not_mem_nil
  | some port =>
    exact List.not_mem_cons_of_ne_of_not_mem hcolon (not_mem_port hport hdigit port rfl)

/-- What `is_valid_host_port` accepts is a host with its port. -/
theorem hostPort_of_isValidHostPort {s : Bytes} (hvisible : ∀ b ∈ s, Visible b)
    (h : isValidHostPort a2iIpAddress s = true) :
    Rfc3986.HostPort (IPv6Address a2iIpAddress) s := by
  have hwith {port : Bytes} (hport : isValidPort port = true) :
      ∀ p ∈ some port, Rfc3986.Port p := by
    intro p hp
    cases hp
    exact (isValidPort_iff port).mp hport
  by_cases hhead : s.head? = some Ascii.leftBracket
  · -- an address in brackets
    obtain ⟨rest, rfl⟩ := List.head?_eq_some_iff.mp hhead
    rcases find_cases rest Ascii.rightBracket with ⟨hnot, -⟩ | ⟨t, after, rfl, hnot, -⟩
    · rw [isValidHostPort_unclosed hnot] at h
      cases h
    · obtain ⟨-, -, -, -, hliteral, hafter⟩ := (isValidHostPort_bracket hnot).mp h
      rw [isIpLiteral_iff fun b hb => hvisible b (by simp [hb])] at hliteral
      have hhost : Rfc3986.Host (IPv6Address a2iIpAddress)
          (Ascii.leftBracket :: (t ++ [Ascii.rightBracket])) := Or.inl ⟨t, rfl, hliteral⟩
      rcases hafter with rfl | ⟨port, rfl, hport⟩
      · exact ⟨_, none, by simp [delimited], hhost, by simp⟩
      · exact ⟨_, some port, by simp [delimited], hhost, hwith hport⟩
  · by_cases hbrackets : Ascii.leftBracket ∈ s ∨ Ascii.rightBracket ∈ s
    · unfold isValidHostPort at h
      rw [if_neg hhead, if_pos hbrackets] at h
      cases h
    obtain ⟨hleft, hright⟩ := not_or.mp hbrackets
    rcases find_cases s Ascii.colon with ⟨hnot, -⟩ | ⟨host, port, rfl, hnot, -⟩
    · rw [isValidHostPort_host hleft hright hnot, isRegName_iff] at h
      exact ⟨s, none, by simp [delimited], Or.inr (Or.inr h), by simp⟩
    · obtain ⟨-, hhost, hport⟩ := (isValidHostPort_port hnot hleft hright).mp h
      rw [isRegName_iff] at hhost
      exact ⟨host, some port, by simp [delimited], Or.inr (Or.inr hhost), hwith hport⟩

/-- A registered name is accepted, with any port. -/
theorem isValidHostPort_name {host : Bytes} {port : Option Bytes} (hname : Rfc3986.RegName host)
    (hport : ∀ p ∈ port, Rfc3986.Port p) :
    isValidHostPort a2iIpAddress (host ++ delimited Ascii.colon port) = true := by
  have hleft : Ascii.leftBracket ∉ host := hname.not_mem (by decide)
  have hright : Ascii.rightBracket ∉ host := hname.not_mem (by decide)
  have hcolon : Ascii.colon ∉ host := hname.not_mem (by decide)
  have hl : Ascii.leftBracket ∉ delimited Ascii.colon port :=
    not_mem_delimited_port hport rfl (by decide)
  have hr : Ascii.rightBracket ∉ delimited Ascii.colon port :=
    not_mem_delimited_port hport rfl (by decide)
  cases port with
  | none =>
    rw [delimited, List.append_nil, isValidHostPort_host hleft hright hcolon, isRegName_iff]
    exact hname
  | some port =>
    rw [delimited] at hl hr ⊢
    rw [isValidHostPort_port hcolon (List.not_mem_append hleft hl) (List.not_mem_append hright hr),
      isRegName_iff, isValidPort_iff]
    exact ⟨not_mem_port hport rfl port rfl, hname, hport port rfl⟩

/-- An address in brackets is accepted, with any port. -/
theorem isValidHostPort_literal (haddress : ReadsAddresses a2iIpAddress) {t : Bytes}
    {port : Option Bytes} (ht : IPv6Address a2iIpAddress t ∨ Rfc3986.IPvFuture t)
    (hport : ∀ p ∈ port, Rfc3986.Port p) :
    isValidHostPort a2iIpAddress
      (Ascii.leftBracket :: (t ++ Ascii.rightBracket :: delimited Ascii.colon port)) = true := by
  have huser : ∀ b ∈ t, UserCharacter b := by
    rcases ht with ht | ht
    · exact haddress.user t ht
    · exact ht.user
  have hleft : Ascii.leftBracket ∉ t := fun h => absurd (huser _ h) (by decide)
  have hright : Ascii.rightBracket ∉ t := fun h => absurd (huser _ h) (by decide)
  have hliteral : isIpLiteral a2iIpAddress t = true :=
    (isIpLiteral_iff fun b hb => (huser b hb).pchar.visible).mpr ht
  rw [isValidHostPort_bracket hright]
  refine ⟨ipLiteral_ne_nil haddress ht, hleft, not_mem_delimited_port hport rfl (by decide),
    not_mem_delimited_port hport rfl (by decide), hliteral, ?_⟩
  cases port with
  | none => exact Or.inl rfl
  | some port => exact Or.inr ⟨port, rfl, (isValidPort_iff port).mpr (hport port rfl)⟩

/-- `host [ ":" port ]`. -/
theorem isValidHostPort_iff (haddress : ReadsAddresses a2iIpAddress) {s : Bytes}
    (hvisible : ∀ b ∈ s, Visible b) :
    isValidHostPort a2iIpAddress s = true ↔ Rfc3986.HostPort (IPv6Address a2iIpAddress) s := by
  constructor
  · exact hostPort_of_isValidHostPort hvisible
  · intro h
    obtain ⟨host, port, hs, hhost, hport⟩ := h
    rw [hs]
    rcases hhost with ⟨t, rfl, ht⟩ | h | h
    · have hsplit : Ascii.leftBracket :: (t ++ [Ascii.rightBracket]) ++
          delimited Ascii.colon port =
            Ascii.leftBracket :: (t ++ Ascii.rightBracket :: delimited Ascii.colon port) := by
        rw [List.cons_append, List.append_assoc]
        rfl
      rw [hsplit]
      exact isValidHostPort_literal haddress ht hport
    · exact isValidHostPort_name h.regName hport
    · exact isValidHostPort_name h hport

/-! ## Authorities -/

theorem isUserInfo_iff (s : Bytes) :
    componentMatches (fun b => isUnreserved b || isSubDelimiter b || b == 0x3A) s = true ↔
      Rfc3986.UserInfo s := by
  apply componentMatches_iff
  · intro b
    simp only [Bool.or_eq_true, isUnreserved_iff, isSubDelimiter_iff, beq_iff_eq, or_assoc]
    exact Iff.rfl
  · decide

theorem isValidAuthority_none {s : Bytes} (h : Rfc3986.commercialAt ∉ s) :
    isValidAuthority a2iIpAddress s = isValidHostPort a2iIpAddress s := by
  unfold isValidAuthority
  rw [find_of_not_mem h]

theorem isValidAuthority_some {userInfo hostPort : Bytes} (h : Rfc3986.commercialAt ∉ userInfo) :
    isValidAuthority a2iIpAddress (userInfo ++ Rfc3986.commercialAt :: hostPort) = true ↔
      Rfc3986.commercialAt ∉ hostPort ∧ Rfc3986.UserInfo userInfo ∧
        isValidHostPort a2iIpAddress hostPort = true := by
  have hsecond : (find (userInfo ++ Rfc3986.commercialAt :: hostPort) 0x40
      (userInfo.length + 1)).isSome = true ↔ Rfc3986.commercialAt ∈ hostPort := by
    have hbehind := isSome_find_behind (userInfo ++ [Rfc3986.commercialAt]) hostPort
      Rfc3986.commercialAt
    simpa using hbehind
  have htake : (userInfo ++ Rfc3986.commercialAt :: hostPort).take userInfo.length = userInfo :=
    List.take_left
  have hdrop : (userInfo ++ Rfc3986.commercialAt :: hostPort).drop (userInfo.length + 1) =
      hostPort := by
    rw [← List.drop_drop, List.drop_left, List.drop_succ_cons, List.drop_zero]
  unfold isValidAuthority
  rw [find_append h]
  simp only [hsecond, htake, hdrop, isUserInfo_iff]
  split_ifs with hguard
  · rw [hsecond, htake, isUserInfo_iff] at hguard
    rw [false_iff]
    tauto
  · rw [hsecond, htake, isUserInfo_iff] at hguard
    tauto

/-- `authority`. -/
theorem isValidAuthority_iff (haddress : ReadsAddresses a2iIpAddress) {s : Bytes}
    (hvisible : ∀ b ∈ s, Visible b) :
    isValidAuthority a2iIpAddress s = true ↔ Rfc3986.Authority (IPv6Address a2iIpAddress) s := by
  have hnot {t : Bytes} (h : Rfc3986.HostPort (IPv6Address a2iIpAddress) t) :
      Rfc3986.commercialAt ∉ t :=
    (h.component haddress.user).not_mem (by decide)
  constructor
  · intro h
    rcases find_cases s Rfc3986.commercialAt with ⟨hat, -⟩ | ⟨userInfo, hostPort, rfl, hat, -⟩
    · rw [isValidAuthority_none hat, isValidHostPort_iff haddress hvisible] at h
      exact Or.inl h
    · obtain ⟨-, huser, hhost⟩ := (isValidAuthority_some hat).mp h
      rw [isValidHostPort_iff haddress fun b hb => hvisible b (by simp [hb])] at hhost
      exact Or.inr ⟨userInfo, hostPort, rfl, huser, hhost⟩
  · intro h
    rcases h with h | ⟨userInfo, hostPort, rfl, huser, hhost⟩
    · rw [isValidAuthority_none (hnot h)]
      exact (isValidHostPort_iff haddress hvisible).mpr h
    · rw [isValidAuthority_some (huser.not_mem (by decide))]
      refine ⟨hnot hhost, huser, ?_⟩
      exact (isValidHostPort_iff haddress fun b hb => hvisible b (by simp [hb])).mpr hhost

/-! ## Paths -/

theorem isPath_iff (s : Bytes) :
    componentMatches isPathCharacter s = true ↔ Component PathCharacter s := by
  apply componentMatches_iff
  · intro b
    unfold isPathCharacter
    rw [Bool.or_eq_true, isPchar_iff, beq_iff_eq]
    exact Iff.rfl
  · decide

theorem isValidPathAbempty_iff (s : Bytes) :
    isValidPathAbempty s = true ↔ Rfc3986.PathAbempty s := by
  unfold isValidPathAbempty
  rw [Rfc3986.pathAbempty_iff, Bool.and_eq_true, Bool.or_eq_true, isPath_iff, List.isEmpty_iff,
    beq_iff_eq]

theorem isValidPathRootless_iff (s : Bytes) :
    isValidPathRootless s = true ↔ Rfc3986.PathRootless s := by
  rw [Rfc3986.pathRootless_iff]
  cases s with
  | nil => simp [isValidPathRootless]
  | cons b path =>
    unfold isValidPathRootless
    simp only [ne_eq, reduceCtorEq, not_false_eq_true, List.head?_cons, Option.some.injEq,
      true_and]
    split_ifs with hb
    · simp [hb]
    · rw [Bool.and_eq_true, isPath_iff, and_iff_right hb, and_iff_right_iff_imp]
      -- the first character of the component is a path character or a percent sign
      intro h
      rw [Bool.or_eq_true, beq_iff_eq, isPchar_iff]
      cases h with
      | char hchar _ => exact Or.inr (hchar.resolve_right hb)
      | triplet _ _ _ => exact Or.inl rfl

theorem isValidPathAbsolute_iff (s : Bytes) :
    isValidPathAbsolute s = true ↔ Rfc3986.PathAbsolute s := by
  unfold Rfc3986.PathAbsolute
  cases s with
  | nil => simp [isValidPathAbsolute]
  | cons b path =>
    rw [isValidPathAbsolute]
    split_ifs with hb hnil
    · simp [hb]
    · simp only [ne_eq, not_not] at hb
      simp [hb, hnil]
    · simp only [ne_eq, not_not] at hb
      rw [Bool.and_eq_true, bne_iff_ne, isPath_iff]
      simp [hb, hnil, Rfc3986.pathRootless_iff]

theorem isValidHierPart_authority {authority path : Bytes} (h : Ascii.slash ∉ authority)
    (hpath : path = [] ∨ path.head? = some Ascii.slash) :
    isValidHierPart a2iIpAddress (Ascii.slash :: Ascii.slash :: (authority ++ path)) = true ↔
      isValidAuthority a2iIpAddress authority = true ∧ isValidPathAbempty path = true := by
  have hbehind := find_behind [Ascii.slash, Ascii.slash] (authority ++ path) Ascii.slash
  have htake : (Ascii.slash :: Ascii.slash :: (authority ++ path)).take 2 =
      [Ascii.slash, Ascii.slash] := rfl
  unfold isValidHierPart
  rw [if_pos htake]
  rcases hpath with rfl | hpath
  · rw [List.append_nil, find_of_not_mem h] at hbehind
    have hfind : find (Ascii.slash :: Ascii.slash :: authority) Ascii.slash 2 = none := hbehind
    rw [List.append_nil, hfind]
    exact Bool.and_eq_true_iff
  · obtain ⟨rest, rfl⟩ := List.head?_eq_some_iff.mp hpath
    rw [find_append h] at hbehind
    have hfind : find (Ascii.slash :: Ascii.slash :: (authority ++ Ascii.slash :: rest))
        Ascii.slash 2 = some (authority.length + 2) := hbehind
    have hauthority : substr (Ascii.slash :: Ascii.slash :: (authority ++ Ascii.slash :: rest)) 2
        (authority.length + 2 - 2) = authority :=
      substr_append [Ascii.slash, Ascii.slash] authority (Ascii.slash :: rest)
    have hdrop : (Ascii.slash :: Ascii.slash :: (authority ++ Ascii.slash :: rest)).drop
        (authority.length + 2) = Ascii.slash :: rest := by
      rw [List.drop_succ_cons, List.drop_succ_cons, List.drop_left]
    rw [hfind]
    dsimp only
    rw [hauthority, hdrop, Bool.and_eq_true]

/-- A text that starts with two slashes is neither an absolute path nor a
rootless one. -/
theorem not_path_of_slashes {rest : Bytes} :
    ¬Rfc3986.PathAbsolute (Ascii.slash :: Ascii.slash :: rest) ∧
      ¬Rfc3986.PathRootless (Ascii.slash :: Ascii.slash :: rest) := by
  constructor
  · intro ⟨path, heq, hpath⟩
    obtain ⟨-, rfl⟩ := List.cons.inj heq
    rcases hpath with h | h
    · cases h
    · exact ((Rfc3986.pathRootless_iff _).mp h).2.1 rfl
  · intro h
    exact ((Rfc3986.pathRootless_iff _).mp h).2.1 rfl

/-- `"//" authority path-abempty`. -/
theorem isValidHierPart_slashes (haddress : ReadsAddresses a2iIpAddress) {rest : Bytes}
    (hvisible : ∀ b ∈ Ascii.slash :: Ascii.slash :: rest, Visible b) :
    isValidHierPart a2iIpAddress (Ascii.slash :: Ascii.slash :: rest) = true ↔
      Rfc3986.HierPart (IPv6Address a2iIpAddress) (Ascii.slash :: Ascii.slash :: rest) := by
  have hslash {t : Bytes} (h : Rfc3986.Authority (IPv6Address a2iIpAddress) t) :
      Ascii.slash ∉ t :=
    (h.component haddress.user).not_mem (by decide)
  constructor
  · intro h
    rcases find_cases rest Ascii.slash with ⟨hnot, -⟩ | ⟨authority, path, rfl, hnot, -⟩
    · rw [← List.append_nil rest, isValidHierPart_authority hnot (Or.inl rfl),
        isValidAuthority_iff haddress fun b hb => hvisible b (by simp [hb])] at h
      rw [← List.append_nil rest]
      exact .authority h.1 .nil
    · rw [isValidHierPart_authority hnot (Or.inr rfl),
        isValidAuthority_iff haddress fun b hb => hvisible b (by simp [hb]),
        isValidPathAbempty_iff] at h
      exact .authority h.1 h.2
  · intro h
    cases h with
    | @authority authority path hauthority hpath =>
      rw [isValidHierPart_authority (hslash hauthority) ((Rfc3986.pathAbempty_iff path).mp hpath).1,
        isValidAuthority_iff haddress fun b hb => hvisible b (by simp [hb]),
        isValidPathAbempty_iff]
      exact ⟨hauthority, hpath⟩
    | absolute h => exact absurd h not_path_of_slashes.1
    | rootless h => exact absurd h not_path_of_slashes.2

/-- A path without an authority. -/
theorem isValidHierPart_path {s : Bytes}
    (hslashes : ¬∃ rest, s = Ascii.slash :: Ascii.slash :: rest) :
    isValidHierPart a2iIpAddress s = true ↔ Rfc3986.HierPart (IPv6Address a2iIpAddress) s := by
  have htake : s.take 2 ≠ [Ascii.slash, Ascii.slash] := by
    intro h
    apply hslashes
    refine ⟨s.drop 2, ?_⟩
    conv_lhs => rw [← List.take_append_drop 2 s, h]
    rfl
  unfold isValidHierPart
  rw [if_neg htake]
  split_ifs with hnil hhead
  · rw [hnil]
    exact iff_of_true rfl .empty
  · rw [isValidPathAbsolute_iff]
    constructor
    · exact .absolute
    · intro h
      cases h with
      | authority => exact absurd ⟨_, rfl⟩ hslashes
      | absolute h => exact h
      | rootless h => exact absurd hhead ((Rfc3986.pathRootless_iff s).mp h).2.1
      | empty => exact absurd rfl hnil
  · rw [isValidPathRootless_iff]
    constructor
    · exact .rootless
    · intro h
      cases h with
      | authority => exact absurd ⟨_, rfl⟩ hslashes
      | absolute h =>
        obtain ⟨path, rfl, -⟩ := h
        exact absurd rfl hhead
      | rootless h => exact h
      | empty => exact absurd rfl hnil

/-- `hier-part`. -/
theorem isValidHierPart_iff (haddress : ReadsAddresses a2iIpAddress) {s : Bytes}
    (hvisible : ∀ b ∈ s, Visible b) :
    isValidHierPart a2iIpAddress s = true ↔ Rfc3986.HierPart (IPv6Address a2iIpAddress) s := by
  by_cases hslashes : ∃ rest, s = Ascii.slash :: Ascii.slash :: rest
  · obtain ⟨rest, rfl⟩ := hslashes
    exact isValidHierPart_slashes haddress hvisible
  · exact isValidHierPart_path hslashes

/-! ## What follows the scheme -/

theorem isValidQueryOrFragment_iff (s : Bytes) :
    isValidQueryOrFragment s = true ↔ Rfc3986.Query s := by
  apply componentMatches_iff
  · intro b
    simp only [Bool.or_eq_true, isPchar_iff, beq_iff_eq, or_assoc]
    exact Iff.rfl
  · decide

section

variable (start : Bytes) {hierPart : Bytes} {query : Option Bytes} (fragment : Option Bytes)

/-- The fragment starts at the first number sign. -/
theorem find_fragment (hhier : Rfc3986.hash ∉ hierPart) (hquery : ∀ q ∈ query, Rfc3986.hash ∉ q) :
    find (start ++ (hierPart ++ (delimited Rfc3986.question query ++
        delimited Rfc3986.hash fragment))) 0x23 start.length =
      fragment.map fun _ =>
        start.length + (hierPart ++ delimited Rfc3986.question query).length := by
  have hnot : Rfc3986.hash ∉ hierPart ++ delimited Rfc3986.question query := by
    apply List.not_mem_append hhier
    cases query with
    | none => simp [delimited]
    | some q => exact List.not_mem_cons_of_ne_of_not_mem (by decide) (hquery q rfl)
  rw [find_behind, ← List.append_assoc]
  cases fragment with
  | none =>
    rw [delimited, List.append_nil, find_of_not_mem hnot]
    rfl
  | some f =>
    rw [delimited, find_append hnot, Option.map_some, Option.map_some, Nat.add_comm]

/-- The query starts at the first question mark in front of the fragment. -/
theorem find_query (query : Option Bytes) (hhier : Rfc3986.question ∉ hierPart) :
    (find (start ++ (hierPart ++ (delimited Rfc3986.question query ++
        delimited Rfc3986.hash fragment))) 0x3F start.length).filter
          (· < start.length + (hierPart ++ delimited Rfc3986.question query).length) =
      query.map fun _ => start.length + hierPart.length := by
  rw [find_behind]
  cases query with
  | some q =>
    rw [delimited, List.cons_append, find_append hhier, Option.map_some, Option.map_some,
      Option.filter_some, if_pos, Nat.add_comm]
    rw [decide_eq_true_eq, List.length_append, List.length_cons]
    omega
  | none =>
    -- a question mark can only be in the fragment
    rw [delimited, List.append_nil, List.nil_append, Option.map_none]
    rcases find_cases (hierPart ++ delimited Rfc3986.hash fragment) Rfc3986.question with
      ⟨-, hfind⟩ | ⟨before, after, heq, -, hfind⟩
    · rw [hfind]
      rfl
    · have hlong : hierPart.length ≤ before.length := by
        by_contra hshort
        have hsplit : before ++ Rfc3986.question :: after = hierPart ++
          delimited Rfc3986.hash fragment := heq.symm
        rcases List.append_eq_append_iff.mp hsplit with ⟨rest, rfl, hrest⟩ | ⟨rest, rfl, -⟩
        · cases rest with
          | nil =>
            rw [List.append_nil] at hshort
            exact hshort (le_refl _)
          | cons c rest =>
            rw [List.cons_append] at hrest
            obtain ⟨rfl, -⟩ := List.cons.inj hrest
            exact hhier (List.mem_append_right _ List.mem_cons_self)
        · rw [List.length_append] at hshort
          omega
      rw [hfind, Option.map_some, Option.filter_some, if_neg]
      rw [decide_eq_true_eq]
      omega

/-- The query is what the substring is taken of. -/
theorem substr_query (hierPart q rest : Bytes) :
    substr (start ++ (hierPart ++ (Rfc3986.question :: q ++ rest)))
      (start.length + hierPart.length + 1) q.length = q := by
  have hlength : (start ++ (hierPart ++ [Rfc3986.question])).length =
      start.length + hierPart.length + 1 := by
    rw [List.length_append, List.length_append, List.length_singleton, Nat.add_assoc]
  have hsubstr := substr_append (start ++ (hierPart ++ [Rfc3986.question])) q rest
  rw [hlength] at hsubstr
  simpa only [List.append_assoc, List.cons_append, List.nil_append] using hsubstr

/-- The fragment is what the value ends in. -/
theorem drop_fragment (hierPart : Bytes) (query : Option Bytes) (f : Bytes) :
    (start ++ (hierPart ++ (delimited Rfc3986.question query ++ Rfc3986.hash :: f))).drop
      (start.length + (hierPart ++ delimited Rfc3986.question query).length + 1) = f := by
  have hlength : (start ++ (hierPart ++ (delimited Rfc3986.question query ++
      [Rfc3986.hash]))).length =
        start.length + (hierPart ++ delimited Rfc3986.question query).length + 1 := by
    simp only [List.length_append, List.length_singleton]
    omega
  have hdrop : ((start ++ (hierPart ++ (delimited Rfc3986.question query ++
      [Rfc3986.hash]))) ++ f).drop (start ++ (hierPart ++ (delimited Rfc3986.question query ++
        [Rfc3986.hash]))).length = f := List.drop_left
  rw [hlength] at hdrop
  simpa only [List.append_assoc, List.cons_append, List.nil_append] using hdrop

theorem isValidAfterScheme_split (a2iIpAddress : Bytes → Option Bytes) {colon : Nat}
    (hcolon : start.length = colon + 1)
    (hquestion : Rfc3986.question ∉ hierPart) (hhash : Rfc3986.hash ∉ hierPart)
    (hquery : ∀ q ∈ query, Rfc3986.hash ∉ q) :
    isValidAfterScheme a2iIpAddress (start ++ (hierPart ++ (delimited Rfc3986.question query ++
        delimited Rfc3986.hash fragment))) colon = true ↔
      isValidHierPart a2iIpAddress hierPart = true ∧
        (∀ q ∈ query, isValidQueryOrFragment q = true) ∧
        ∀ f ∈ fragment, isValidQueryOrFragment f = true := by
  have hfragment := find_fragment start fragment hhash hquery
  have hqueryStart := find_query start fragment query hquestion
  have hend : (fragment.map fun _ =>
        start.length + (hierPart ++ delimited Rfc3986.question query).length).getD
      (start ++ (hierPart ++ (delimited Rfc3986.question query ++
        delimited Rfc3986.hash fragment))).length =
      start.length + (hierPart ++ delimited Rfc3986.question query).length := by
    cases fragment with
    | none => simp [delimited]
    | some f => rfl
  have hhierPart (rest : Bytes) : substr (start ++ (hierPart ++ rest)) (colon + 1)
      (colon + 1 + hierPart.length - colon - 1) = hierPart := by
    have hcount : colon + 1 + hierPart.length - colon - 1 = hierPart.length := by omega
    rw [hcount, ← hcolon]
    exact substr_append start hierPart rest
  unfold isValidAfterScheme
  simp only [← hcolon, hfragment, hend, hqueryStart]
  rw [Bool.and_eq_true, Bool.and_eq_true, and_assoc]
  have hhierEnd : (query.map fun _ => start.length + hierPart.length).getD
      (start.length + (hierPart ++ delimited Rfc3986.question query).length) =
        start.length + hierPart.length := by
    cases query with
    | none => simp [delimited]
    | some q => rfl
  rw [hhierEnd, hcolon, hhierPart]
  apply and_congr_right'
  apply and_congr
  · cases query with
    | none => simp
    | some q =>
      have hcount : start.length + (hierPart ++ delimited Rfc3986.question (some q)).length -
          (start.length + hierPart.length) - 1 = q.length := by
        rw [delimited, List.length_append, List.length_cons]
        omega
      have hsubstr := substr_query start hierPart q (delimited Rfc3986.hash fragment)
      simp only [Option.map_some, ← hcolon, hcount]
      rw [delimited, hsubstr]
      simp
  · cases fragment with
    | none => simp
    | some f =>
      have hdrop := drop_fragment start hierPart query f
      simp only [Option.map_some, ← hcolon]
      rw [delimited, hdrop]
      simp

end

/-- Every text has a part in front of its query and its fragment. -/
theorem exists_parts (s : Bytes) :
    ∃ (hierPart : Bytes) (query fragment : Option Bytes),
      s = hierPart ++ (delimited Rfc3986.question query ++ delimited Rfc3986.hash fragment) ∧
      Rfc3986.question ∉ hierPart ∧ Rfc3986.hash ∉ hierPart ∧
      ∀ q ∈ query, Rfc3986.hash ∉ q := by
  have hquery (t : Bytes) (ht : Rfc3986.hash ∉ t) :
      ∃ (hierPart : Bytes) (query : Option Bytes),
        t = hierPart ++ delimited Rfc3986.question query ∧ Rfc3986.question ∉ hierPart ∧
        Rfc3986.hash ∉ hierPart ∧ ∀ q ∈ query, Rfc3986.hash ∉ q := by
    rcases find_cases t Rfc3986.question with ⟨hnot, -⟩ | ⟨hierPart, query, rfl, hnot, -⟩
    · exact ⟨t, none, by simp [delimited], hnot, ht, by simp⟩
    · simp only [List.mem_append, List.mem_cons, not_or] at ht
      refine ⟨hierPart, some query, rfl, hnot, ht.1, ?_⟩
      intro q hq
      cases hq
      exact ht.2.2
  rcases find_cases s Rfc3986.hash with ⟨hnot, -⟩ | ⟨before, fragment, rfl, hnot, -⟩
  · obtain ⟨hierPart, query, heq, hparts⟩ := hquery s hnot
    exact ⟨hierPart, query, none, by simp [delimited, heq], hparts⟩
  · obtain ⟨hierPart, query, rfl, hparts⟩ := hquery before hnot
    exact ⟨hierPart, query, some fragment, by simp [delimited], hparts⟩

/-! ## URIs -/

theorem isSchemeCharacter_iff (b : UInt8) :
    isSchemeCharacter b = true ↔ Rfc3986.SchemeCharacter b := by
  have hascii : ascii "+-." = [0x2B, 0x2D, 0x2E] := by decide
  unfold isSchemeCharacter Rfc3986.SchemeCharacter
  rw [hascii]
  simp only [Bool.or_eq_true, beq_iff_eq, List.mem_cons, List.not_mem_nil, or_false, or_assoc]

theorem hasValidScheme_iff (scheme after : Bytes) :
    hasValidScheme (scheme ++ Ascii.colon :: after) (some scheme.length) = true ↔
      Rfc3986.Scheme scheme := by
  unfold Rfc3986.Scheme
  cases scheme with
  | nil => simp [hasValidScheme]
  | cons b rest =>
    have hrest : substr (b :: rest ++ Ascii.colon :: after) 1 ((b :: rest).length - 1) = rest :=
      substr_append [b] rest (Ascii.colon :: after)
    unfold hasValidScheme
    simp only [hrest]
    simp [isSchemeCharacter_iff]

/-- What `is_protocol_uri` accepts is a URI. -/
theorem uri_of_isProtocolUri (haddress : ReadsAddresses a2iIpAddress) {value : Bytes}
    (h : isProtocolUri a2iIpAddress value = true) :
    Rfc3986.URI (IPv6Address a2iIpAddress) value := by
  have hvisible := visible_of_isProtocolUri h
  unfold isProtocolUri at h
  split_ifs at h
  rw [Bool.and_eq_true] at h
  obtain ⟨hscheme, hafter⟩ := h
  rcases find_cases value Ascii.colon with ⟨-, hfind⟩ | ⟨scheme, after, rfl, -, hfind⟩
  · rw [hfind] at hscheme
    cases hscheme
  · rw [hfind, hasValidScheme_iff] at hscheme
    obtain ⟨hierPart, query, fragment, rfl, hquestion, hhash, hquery⟩ := exists_parts after
    have hsplit := isValidAfterScheme_split (scheme ++ [Ascii.colon]) fragment a2iIpAddress
      List.length_append hquestion hhash hquery
    rw [List.append_assoc, List.singleton_append] at hsplit
    rw [hfind, Option.getD_some, hsplit,
      isValidHierPart_iff haddress fun b hb => hvisible b (by simp [hb])] at hafter
    obtain ⟨hhier, hqueries, hfragments⟩ := hafter
    exact ⟨scheme, hierPart, query, fragment, rfl, hscheme, hhier,
      fun q hq => (isValidQueryOrFragment_iff q).mp (hqueries q hq),
      fun f hf => (isValidQueryOrFragment_iff f).mp (hfragments f hf)⟩

/-- `is_protocol_uri` accepts exactly the URIs of RFC 3986. -/
theorem isProtocolUri_iff (haddress : ReadsAddresses a2iIpAddress) (value : Bytes) :
    isProtocolUri a2iIpAddress value = true ↔ Rfc3986.URI (IPv6Address a2iIpAddress) value := by
  constructor
  · exact uri_of_isProtocolUri haddress
  · intro h
    have hplain := h.component haddress.user
    have hchecks := (plain_iff value).mpr
      ⟨hplain.visible fun _ hb => hb.1, hplain.imp fun _ hb => hb.2⟩
    obtain ⟨scheme, hierPart, query, fragment, hvalue, hscheme, hhier, hqueries, hfragments⟩ := h
    have hcolon : Ascii.colon ∉ scheme := by
      obtain ⟨b, rest, rfl, hb, hrest⟩ := hscheme
      intro hmem
      rcases List.mem_cons.mp hmem with h | h
      · rw [← h] at hb
        cases hb
      · exact absurd (hrest _ h) (by decide)
    have hcomponent := hhier.component haddress.user
    have hsplit := isValidAfterScheme_split (scheme ++ [Ascii.colon]) fragment a2iIpAddress
      List.length_append
      (hcomponent.not_mem (by decide)) (hcomponent.not_mem (by decide))
      (fun q hq => (hqueries q hq).not_mem (by decide))
    rw [List.append_assoc, List.singleton_append, ← hvalue] at hsplit
    have hne : value ≠ [] := by
      rw [hvalue]
      simp
    unfold isProtocolUri
    rw [if_neg (by simp [hne, hchecks])]
    dsimp only
    have hfind : find value Ascii.colon 0 = some scheme.length := by
      rw [hvalue, find_append hcolon]
    rw [hfind, Option.getD_some, Bool.and_eq_true, hsplit]
    refine ⟨?_, ?_, ?_, ?_⟩
    · rw [hvalue]
      exact (hasValidScheme_iff scheme _).mpr hscheme
    · exact (isValidHierPart_iff haddress
        (hcomponent.visible fun _ hb => hb.plain.1)).mpr hhier
    · exact fun q hq => (isValidQueryOrFragment_iff q).mpr (hqueries q hq)
    · exact fun f hf => (isValidQueryOrFragment_iff f).mpr (hfragments f hf)

example : isProtocolUri (fun _ => none) (ascii "https://user@example.org:80/a%20b?q#f") = true := by
  decide +kernel

/-- OpenSSL on the loopback address. -/
def readLoopback (s : Bytes) : Option Bytes :=
  if s = ascii "::1" then some (List.replicate 15 0 ++ [1]) else none

theorem isProtocolUri_loopback : isProtocolUri readLoopback (ascii "a://[::1]:80/b") = true := by
  have haddress {s : Bytes} (h : IPv6Address readLoopback s) : s = ascii "::1" := by
    by_contra hne
    have hread := h.2
    rw [isIpv6Address, readLoopback, if_neg hne] at hread
    cases hread
  have hreads : ReadsAddresses readLoopback := by
    constructor
    · intro s hs
      rw [haddress hs]
      decide
    · intro s hs
      rw [haddress hs]
      exact forall_mem_of_all (by decide)
  have hloopback : IPv6Address readLoopback (ascii "::1") :=
    ⟨forall_mem_of_all (by decide), by decide⟩
  have hhost : Rfc3986.Host (IPv6Address readLoopback) (ascii "[::1]") :=
    Or.inl ⟨ascii "::1", by decide, Or.inl hloopback⟩
  have hport : Rfc3986.Port (ascii "80") := forall_mem_of_all (by decide)
  have hauthority : Rfc3986.Authority (IPv6Address readLoopback) (ascii "[::1]:80") :=
    Or.inl ⟨ascii "[::1]", some (ascii "80"), by decide, hhost, by simpa using hport⟩
  have hsegment : Rfc3986.Segment (ascii "b") := .of_forall (forall_mem_of_all (by decide))
  have hslash : ascii "/b" = Ascii.slash :: (ascii "b" ++ []) := by decide
  have hpath : Rfc3986.PathAbempty (ascii "/b") := by
    rw [hslash]
    exact .cons hsegment .nil
  have hscheme : Rfc3986.Scheme (ascii "a") := ⟨0x61, [], by decide, by decide, by simp⟩
  exact (isProtocolUri_iff hreads _).mpr ⟨ascii "a", ascii "//[::1]:80/b", none, none, by decide,
    hscheme, .authority hauthority hpath, by simp, by simp⟩

end MissionWeave.Uri
