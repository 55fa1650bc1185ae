import MissionWeave.CodeLib.Decimal

/-!
# The URI grammar of RFC 3986

The production `URI` and the productions under it, as predicates on byte
strings.  What an `IPv6address` is comes as a parameter.

* `Component`: characters of a class mixed with percent triplets.
* `pathAbempty_iff`, `pathRootless_iff`: a path is a list of segments, or a
  component of path characters with a condition on its first one.
* `URI.characters`, `URI.component`: a URI holds visible characters only, and every
  percent sign in it starts a triplet.
-/

namespace MissionWeave.Rfc3986

/-! ## Characters -/

abbrev percent : UInt8 := 0x25
abbrev question : UInt8 := 0x3F
abbrev hash : UInt8 := 0x23
abbrev commercialAt : UInt8 := 0x40

/-- `HEXDIG`, in either case. -/
def HexDigit (b : UInt8) : Prop := (Ascii.hexValue? b).isSome = true

/-- `unreserved = ALPHA / DIGIT / "-" / "." / "_" / "~"`. -/
def Unreserved (b : UInt8) : Prop :=
  Ascii.isAlpha b = true ∨ Ascii.isDigit b = true ∨ b ∈ ascii "-._~"

/-- `sub-delims`. -/
def SubDelim (b : UInt8) : Prop := b ∈ ascii "!$&'()*+,;="

/-- `pchar`, without its percent triplets. -/
def Pchar (b : UInt8) : Prop := Unreserved b ∨ SubDelim b ∨ b = Ascii.colon ∨ b = commercialAt

/-- A character of a registered name. -/
def NameCharacter (b : UInt8) : Prop := Unreserved b ∨ SubDelim b

/-- A character of the user information. -/
def UserCharacter (b : UInt8) : Prop := Unreserved b ∨ SubDelim b ∨ b = Ascii.colon

/-- A character of a query or a fragment. -/
def QueryCharacter (b : UInt8) : Prop := Pchar b ∨ b = Ascii.slash ∨ b = question

/-- A character of a path. -/
def PathCharacter (b : UInt8) : Prop := Pchar b ∨ b = Ascii.slash

def Visible (b : UInt8) : Prop := 0x21 ≤ b ∧ b ≤ 0x7E

instance : DecidablePred HexDigit := fun _ => inferInstanceAs (Decidable (_ = true))
instance : DecidablePred Unreserved := fun _ => inferInstanceAs (Decidable (_ ∨ _ ∨ _))
instance : DecidablePred SubDelim := fun _ => inferInstanceAs (Decidable (_ ∈ _))
instance : DecidablePred Pchar := fun _ => inferInstanceAs (Decidable (_ ∨ _ ∨ _ ∨ _))
instance : DecidablePred NameCharacter := fun _ => inferInstanceAs (Decidable (_ ∨ _))
instance : DecidablePred UserCharacter := fun _ => inferInstanceAs (Decidable (_ ∨ _ ∨ _))
instance : DecidablePred QueryCharacter := fun _ => inferInstanceAs (Decidable (_ ∨ _ ∨ _))
instance : DecidablePred PathCharacter := fun _ => inferInstanceAs (Decidable (_ ∨ _))
instance : DecidablePred Visible := fun _ => inferInstanceAs (Decidable (_ ∧ _))

theorem visible_iff (b : UInt8) : Visible b ↔ 0x21 ≤ b.toNat ∧ b.toNat ≤ 0x7E := by
  unfold Visible
  rw [UInt8.le_iff_toNat_le, UInt8.le_iff_toNat_le]
  exact Iff.rfl

theorem visible_of_isDigit {b : UInt8} (h : Ascii.isDigit b = true) : Visible b := by
  rw [isDigit_iff] at h
  rw [visible_iff]
  omega

theorem visible_of_isAlpha {b : UInt8} (h : Ascii.isAlpha b = true) : Visible b := by
  unfold Ascii.isAlpha at h
  simp only [Bool.or_eq_true, Bool.and_eq_true, decide_eq_true_eq, UInt8.le_iff_toNat_le] at h
  have h1 : (0x41 : UInt8).toNat = 0x41 := rfl
  have h2 : (0x5A : UInt8).toNat = 0x5A := rfl
  have h3 : (0x61 : UInt8).toNat = 0x61 := rfl
  have h4 : (0x7A : UInt8).toNat = 0x7A := rfl
  rw [visible_iff]
  omega

theorem Unreserved.visible {b : UInt8} (h : Unreserved b) : Visible b := by
  rcases h with h | h | h
  · exact visible_of_isAlpha h
  · exact visible_of_isDigit h
  · exact forall_mem_of_all (p := Visible) (by decide) b h

theorem SubDelim.visible {b : UInt8} (h : SubDelim b) : Visible b :=
  forall_mem_of_all (p := Visible) (by decide) b h

theorem Pchar.visible {b : UInt8} (h : Pchar b) : Visible b := by
  rcases h with h | h | rfl | rfl
  · exact h.visible
  · exact h.visible
  · decide
  · decide

theorem HexDigit.unreserved {b : UInt8} (h : HexDigit b) : Unreserved b := by
  unfold HexDigit Ascii.hexValue? at h
  split at h
  · rename_i hd
    exact Or.inr (Or.inl hd)
  -- the letters of the digits are some of the alphabet
  · apply Or.inl
    have h1 : (0x66 : UInt8).toNat = 0x66 := rfl
    have h2 : (0x7A : UInt8).toNat = 0x7A := rfl
    have h3 : (0x46 : UInt8).toNat = 0x46 := rfl
    have h4 : (0x5A : UInt8).toNat = 0x5A := rfl
    simp only [Ascii.isAlpha, Bool.or_eq_true, Bool.and_eq_true, decide_eq_true_eq,
      UInt8.le_iff_toNat_le]
    split at h
    · rename_i hb
      simp only [Bool.and_eq_true, decide_eq_true_eq, UInt8.le_iff_toNat_le] at hb
      omega
    · split at h
      · rename_i hb
        simp only [Bool.and_eq_true, decide_eq_true_eq, UInt8.le_iff_toNat_le] at hb
        omega
      · cases h

theorem HexDigit.visible {b : UInt8} (h : HexDigit b) : Visible b := h.unreserved.visible

theorem HexDigit.user {b : UInt8} (h : HexDigit b) : UserCharacter b := Or.inl h.unreserved

/-- A character of a class is none that the class does not have. -/
theorem ne_of_class {p : UInt8 → Prop} {b c : UInt8} (hb : p b) (hc : ¬p c) : b ≠ c := by
  intro h
  rw [h] at hb
  exact hc hb

/-! ## Components -/

/-- `*( pct-encoded / allowed )`. -/
inductive Component (allowed : UInt8 → Prop) : Bytes → Prop where
  | nil : Component allowed []
  | char {b : UInt8} {rest : Bytes} (hb : allowed b) (hrest : Component allowed rest) :
    Component allowed (b :: rest)
  | triplet {h l : UInt8} {rest : Bytes} (hh : HexDigit h) (hl : HexDigit l)
      (hrest : Component allowed rest) :
    Component allowed (percent :: h :: l :: rest)

namespace Component

variable {allowed allowed' : UInt8 → Prop} {xs ys : Bytes}

theorem imp (hsub : ∀ b, allowed b → allowed' b) (h : Component allowed xs) :
    Component allowed' xs := by
  induction h with
  | nil => exact .nil
  | char hb _ ih => exact .char (hsub _ hb) ih
  | triplet hh hl _ ih => exact .triplet hh hl ih

theorem append (hx : Component allowed xs) (hy : Component allowed ys) :
    Component allowed (xs ++ ys) := by
  induction hx with
  | nil => exact hy
  | char hb _ ih => exact .char hb ih
  | triplet hh hl _ ih => exact .triplet hh hl ih

theorem of_forall (h : ∀ b ∈ xs, allowed b) : Component allowed xs := by
  induction xs with
  | nil => exact .nil
  | cons b xs ih =>
    apply char (h b List.mem_cons_self)
    exact ih fun c hc => h c (List.mem_cons_of_mem _ hc)

/-- Every byte is of the class or belongs to a triplet. -/
theorem mem (h : Component allowed xs) {b : UInt8} (hb : b ∈ xs) :
    allowed b ∨ b = percent ∨ HexDigit b := by
  induction h with
  | nil => cases hb
  | char hc _ ih =>
    rcases List.mem_cons.mp hb with rfl | hb
    · exact Or.inl hc
    · exact ih hb
  | triplet hh hl _ ih =>
    simp only [List.mem_cons] at hb
    rcases hb with rfl | rfl | rfl | hb
    · exact Or.inr (Or.inl rfl)
    · exact Or.inr (Or.inr hh)
    · exact Or.inr (Or.inr hl)
    · exact ih hb

/-- A delimiter that the class does not have is not in the component. -/
theorem not_mem {b : UInt8} (hb : ¬allowed b ∧ b ≠ percent ∧ ¬HexDigit b)
    (h : Component allowed xs) : b ∉ xs := by
  intro hmem
  rcases h.mem hmem with h | h | h
  · exact hb.1 h
  · exact hb.2.1 h
  · exact hb.2.2 h

theorem visible (hsub : ∀ b, allowed b → Visible b) (h : Component allowed xs) :
    ∀ b ∈ xs, Visible b := by
  intro b hb
  rcases h.mem hb with h | rfl | h
  · exact hsub b h
  · decide
  · exact h.visible

end Component

/-! ## Hosts and authorities -/

/-- `dec-octet`. -/
def DecOctet (s : Bytes) : Prop := ∃ n ≤ 255, s = natText n

/-- `IPv4address`. -/
def IPv4Address (s : Bytes) : Prop :=
  ∃ a b c d, DecOctet a ∧ DecOctet b ∧ DecOctet c ∧ DecOctet d ∧
    s = a ++ Ascii.point :: (b ++ Ascii.point :: (c ++ Ascii.point :: d))

/-- `IPvFuture`. -/
def IPvFuture (s : Bytes) : Prop :=
  ∃ v digits rest, s = v :: (digits ++ Ascii.point :: rest) ∧ (v = 0x76 ∨ v = 0x56) ∧
    digits ≠ [] ∧ (∀ b ∈ digits, HexDigit b) ∧ rest ≠ [] ∧ ∀ b ∈ rest, UserCharacter b

/-- `reg-name`. -/
def RegName (s : Bytes) : Prop := Component NameCharacter s

/-- `port`. -/
def Port (s : Bytes) : Prop := ∀ b ∈ s, Ascii.isDigit b = true

/-- `userinfo`. -/
def UserInfo (s : Bytes) : Prop := Component UserCharacter s

/-- `[ delimiter part ]`. -/
def delimited (delimiter : UInt8) (part : Option Bytes) : Bytes :=
  match part with
  | some s => delimiter :: s
  | none => []

section

variable (IPv6Address : Bytes → Prop)

/-- `IP-literal`. -/
def IPLiteral (s : Bytes) : Prop :=
  ∃ t, s = Ascii.leftBracket :: (t ++ [Ascii.rightBracket]) ∧ (IPv6Address t ∨ IPvFuture t)

/-- `host`. -/
def Host (s : Bytes) : Prop := IPLiteral IPv6Address s ∨ IPv4Address s ∨ RegName s

/-- `host [ ":" port ]`. -/
def HostPort (s : Bytes) : Prop :=
  ∃ host port, s = host ++ delimited Ascii.colon port ∧ Host IPv6Address host ∧
    ∀ p ∈ port, Port p

/-- `authority = [ userinfo "@" ] host [ ":" port ]`. -/
def Authority (s : Bytes) : Prop :=
  HostPort IPv6Address s ∨
    ∃ userInfo hostPort, s = userInfo ++ commercialAt :: hostPort ∧ UserInfo userInfo ∧
      HostPort IPv6Address hostPort

/-! ## Paths -/

/-- `segment`. -/
def Segment (s : Bytes) : Prop := Component Pchar s

/-- `segment-nz`. -/
def SegmentNz (s : Bytes) : Prop := s ≠ [] ∧ Segment s

/-- `path-abempty = *( "/" segment )`. -/
inductive PathAbempty : Bytes → Prop where
  | nil : PathAbempty []
  | cons {segment rest : Bytes} (hsegment : Segment segment) (hrest : PathAbempty rest) :
    PathAbempty (Ascii.slash :: (segment ++ rest))

/-- `path-rootless = segment-nz *( "/" segment )`. -/
def PathRootless (s : Bytes) : Prop :=
  ∃ segment rest, s = segment ++ rest ∧ SegmentNz segment ∧ PathAbempty rest

/-- `path-absolute = "/" [ segment-nz *( "/" segment ) ]`. -/
def PathAbsolute (s : Bytes) : Prop :=
  ∃ path, s = Ascii.slash :: path ∧ (path = [] ∨ PathRootless path)

/-! ## URIs -/

/-- `hier-part = "//" authority path-abempty / path-absolute / path-rootless / path-empty`. -/
inductive HierPart : Bytes → Prop where
  | authority {authority path : Bytes} (hauthority : Authority IPv6Address authority)
      (hpath : PathAbempty path) :
    HierPart (Ascii.slash :: Ascii.slash :: (authority ++ path))
  | absolute {path : Bytes} (h : PathAbsolute path) : HierPart path
  | rootless {path : Bytes} (h : PathRootless path) : HierPart path
  | empty : HierPart []

def SchemeCharacter (b : UInt8) : Prop :=
  Ascii.isAlpha b = true ∨ Ascii.isDigit b = true ∨ b ∈ ascii "+-."

instance : DecidablePred SchemeCharacter := fun _ => inferInstanceAs (Decidable (_ ∨ _ ∨ _))

/-- `scheme = ALPHA *( ALPHA / DIGIT / "+" / "-" / "." )`. -/
def Scheme (s : Bytes) : Prop :=
  ∃ b rest, s = b :: rest ∧ Ascii.isAlpha b = true ∧ ∀ c ∈ rest, SchemeCharacter c

/-- `query` and `fragment`. -/
def Query (s : Bytes) : Prop := Component QueryCharacter s

/-- `URI = scheme ":" hier-part [ "?" query ] [ "#" fragment ]`. -/
def URI (s : Bytes) : Prop :=
  ∃ scheme hierPart query fragment,
    s = scheme ++ Ascii.colon :: (hierPart ++ (delimited question query ++
      delimited hash fragment)) ∧
    Scheme scheme ∧ HierPart IPv6Address hierPart ∧ (∀ q ∈ query, Query q) ∧
    ∀ f ∈ fragment, Query f

end

/-! ## Paths as components -/

theorem Segment.path {s : Bytes} (h : Segment s) : Component PathCharacter s :=
  h.imp fun _ => Or.inl

theorem PathAbempty.path {s : Bytes} (h : PathAbempty s) : Component PathCharacter s := by
  induction h with
  | nil => exact .nil
  | cons hsegment _ ih => exact .char (Or.inr rfl) (hsegment.path.append ih)

/-- A component of path characters is a segment with slashes and segments
behind it. -/
theorem exists_segment {s : Bytes} (h : Component PathCharacter s) :
    ∃ segment rest, s = segment ++ rest ∧ Segment segment ∧ PathAbempty rest := by
  induction h with
  | nil => exact ⟨[], [], rfl, .nil, .nil⟩
  | @char b _ hb _ ih =>
    obtain ⟨segment, rest, rfl, hsegment, hrest⟩ := ih
    rcases hb with hb | rfl
    · exact ⟨b :: segment, rest, rfl, .char hb hsegment, hrest⟩
    · exact ⟨[], _, rfl, .nil, .cons hsegment hrest⟩
  | @triplet h l _ hh hl _ ih =>
    obtain ⟨segment, rest, rfl, hsegment, hrest⟩ := ih
    exact ⟨percent :: h :: l :: segment, rest, rfl, .triplet hh hl hsegment, hrest⟩

theorem Segment.head?_ne_slash {s : Bytes} (h : Segment s) : s.head? ≠ some Ascii.slash := by
  intro hslash
  have hmem : Ascii.slash ∈ s := List.mem_of_mem_head? hslash
  exact h.not_mem (by decide) hmem

theorem pathAbempty_iff (s : Bytes) :
    PathAbempty s ↔ (s = [] ∨ s.head? = some Ascii.slash) ∧ Component PathCharacter s := by
  constructor
  · intro h
    refine ⟨?_, h.path⟩
    cases h with
    | nil => exact Or.inl rfl
    | cons => exact Or.inr rfl
  · intro ⟨hhead, hpath⟩
    obtain ⟨segment, rest, rfl, hsegment, hrest⟩ := exists_segment hpath
    -- the first segment is empty: it does not start with a slash
    cases segment with
    | nil => exact hrest
    | cons b segment =>
      rcases hhead with hnil | hslash
      · cases hnil
      · exact absurd hslash hsegment.head?_ne_slash

theorem pathRootless_iff (s : Bytes) :
    PathRootless s ↔ s ≠ [] ∧ s.head? ≠ some Ascii.slash ∧ Component PathCharacter s := by
  constructor
  · intro ⟨segment, rest, hs, ⟨hne, hsegment⟩, hrest⟩
    rw [hs]
    refine ⟨by simp [hne], ?_, hsegment.path.append hrest.path⟩
    rw [List.head?_append_of_ne_nil _ hne]
    exact hsegment.head?_ne_slash
  · intro ⟨hne, hhead, hpath⟩
    obtain ⟨segment, rest, rfl, hsegment, hrest⟩ := exists_segment hpath
    refine ⟨segment, rest, rfl, ⟨?_, hsegment⟩, hrest⟩
    intro hnil
    rw [hnil, List.nil_append] at hne hhead
    rcases ((pathAbempty_iff rest).mp hrest).1 with h | h
    · exact hne h
    · exact hhead h

/-! ## The characters of a URI -/

def HostCharacter (b : UInt8) : Prop :=
  UserCharacter b ∨ b = Ascii.leftBracket ∨ b = Ascii.rightBracket

def AuthorityCharacter (b : UInt8) : Prop := HostCharacter b ∨ b = commercialAt

def HierCharacter (b : UInt8) : Prop := AuthorityCharacter b ∨ b = Ascii.slash

/-- A character of a URI outside of its percent triplets. -/
def UriCharacter (b : UInt8) : Prop := HierCharacter b ∨ b = question ∨ b = hash

/-- A character that no percent triplet is needed for. -/
def Plain (b : UInt8) : Prop := Visible b ∧ b ≠ percent

instance : DecidablePred HostCharacter := fun _ => inferInstanceAs (Decidable (_ ∨ _ ∨ _))
instance : DecidablePred AuthorityCharacter := fun _ => inferInstanceAs (Decidable (_ ∨ _))
instance : DecidablePred HierCharacter := fun _ => inferInstanceAs (Decidable (_ ∨ _))
instance : DecidablePred UriCharacter := fun _ => inferInstanceAs (Decidable (_ ∨ _ ∨ _))
instance : DecidablePred Plain := fun _ => inferInstanceAs (Decidable (_ ∧ _))

theorem NameCharacter.user {b : UInt8} (h : NameCharacter b) : UserCharacter b := by
  rcases h with h | h
  · exact Or.inl h
  · exact Or.inr (Or.inl h)

theorem PathCharacter.hier {b : UInt8} (h : PathCharacter b) : HierCharacter b := by
  rcases h with (h | h | h | h) | h
  · exact Or.inl (Or.inl (Or.inl (Or.inl h)))
  · exact Or.inl (Or.inl (Or.inl (Or.inr (Or.inl h))))
  · exact Or.inl (Or.inl (Or.inl (Or.inr (Or.inr h))))
  · exact Or.inl (Or.inr h)
  · exact Or.inr h

theorem UserCharacter.pchar {b : UInt8} (h : UserCharacter b) : Pchar b := by
  rcases h with h | h | h
  · exact Or.inl h
  · exact Or.inr (Or.inl h)
  · exact Or.inr (Or.inr (Or.inl h))

theorem Pchar.plain {b : UInt8} (h : Pchar b) : Plain b :=
  ⟨h.visible, ne_of_class h (by decide)⟩

theorem HierCharacter.plain {b : UInt8} (h : HierCharacter b) : Plain b := by
  rcases h with ((h | rfl | rfl) | rfl) | rfl
  · exact h.pchar.plain
  all_goals decide

theorem UriCharacter.plain {b : UInt8} (h : UriCharacter b) : Plain b := by
  rcases h with h | rfl | rfl
  · exact h.plain
  all_goals decide

theorem QueryCharacter.uri {b : UInt8} (h : QueryCharacter b) : UriCharacter b := by
  rcases h with h | rfl | rfl
  · exact Or.inl (PathCharacter.hier (Or.inl h))
  all_goals decide

theorem SchemeCharacter.uri {b : UInt8} (h : SchemeCharacter b) : UriCharacter b := by
  rcases h with h | h | h
  · exact Or.inl (PathCharacter.hier (Or.inl (Or.inl (Or.inl h))))
  · exact Or.inl (PathCharacter.hier (Or.inl (Or.inl (Or.inr (Or.inl h)))))
  · exact forall_mem_of_all (p := UriCharacter) (by decide) b h

theorem Port.host {s : Bytes} (h : Port s) : ∀ b ∈ s, HostCharacter b :=
  fun b hb => Or.inl (Or.inl (Or.inr (Or.inl (h b hb))))

theorem DecOctet.regName {s : Bytes} (h : DecOctet s) : RegName s := by
  obtain ⟨n, -, rfl⟩ := h
  exact .of_forall fun b hb => Or.inl (Or.inr (Or.inl (isDigit_of_mem_natText hb)))

/-- Every IPv4 address is a registered name as well. -/
theorem IPv4Address.regName {s : Bytes} (h : IPv4Address s) : RegName s := by
  obtain ⟨a, b, c, d, ha, hb, hc, hd, rfl⟩ := h
  have hpoint : NameCharacter Ascii.point := by decide
  exact ha.regName.append (.char hpoint (hb.regName.append (.char hpoint
    (hc.regName.append (.char hpoint hd.regName)))))

theorem IPvFuture.user {s : Bytes} (h : IPvFuture s) : ∀ b ∈ s, UserCharacter b := by
  obtain ⟨v, digits, rest, rfl, hv, -, hdigits, -, hrest⟩ := h
  intro b hb
  simp only [List.mem_cons, List.mem_append] at hb
  rcases hb with rfl | hb | rfl | hb
  · rcases hv with rfl | rfl <;> decide
  · exact (hdigits b hb).user
  · decide
  · exact hrest b hb

section

variable {IPv6Address : Bytes → Prop} (haddress : ∀ t, IPv6Address t → ∀ b ∈ t, UserCharacter b)
include haddress

theorem IPLiteral.host {s : Bytes} (h : IPLiteral IPv6Address s) : ∀ b ∈ s, HostCharacter b := by
  obtain ⟨t, rfl, ht⟩ := h
  have huser : ∀ b ∈ t, UserCharacter b := by
    rcases ht with ht | ht
    · exact haddress t ht
    · exact ht.user
  intro b hb
  simp only [List.mem_cons, List.mem_append, List.not_mem_nil, or_false] at hb
  rcases hb with rfl | hb | rfl
  · exact Or.inr (Or.inl rfl)
  · exact Or.inl (huser b hb)
  · exact Or.inr (Or.inr rfl)

theorem HostPort.component {s : Bytes} (h : HostPort IPv6Address s) :
    Component HostCharacter s := by
  obtain ⟨host, port, rfl, hhost, hport⟩ := h
  have hname {t : Bytes} (ht : RegName t) : Component HostCharacter t :=
    ht.imp fun b hb => Or.inl hb.user
  apply Component.append
  · rcases hhost with h | h | h
    · exact .of_forall (h.host haddress)
    · exact hname h.regName
    · exact hname h
  · cases port with
    | none => exact .nil
    | some port => exact .char (by decide) (.of_forall (hport port rfl).host)

theorem Authority.component {s : Bytes} (h : Authority IPv6Address s) :
    Component AuthorityCharacter s := by
  rcases h with h | ⟨userInfo, hostPort, rfl, huser, hhost⟩
  · exact (h.component haddress).imp fun _ => Or.inl
  · exact (huser.imp fun _ hb => Or.inl (Or.inl hb)).append
      (.char (Or.inr rfl) ((hhost.component haddress).imp fun _ => Or.inl))

theorem HierPart.component {s : Bytes} (h : HierPart IPv6Address s) :
    Component HierCharacter s := by
  have hslash : HierCharacter Ascii.slash := Or.inr rfl
  have hpath {t : Bytes} (ht : Component PathCharacter t) : Component HierCharacter t :=
    ht.imp fun _ => PathCharacter.hier
  cases h with
  | authority hauthority h =>
    exact .char hslash (.char hslash (((hauthority.component haddress).imp fun _ => Or.inl).append
      (hpath h.path)))
  | absolute h =>
    obtain ⟨path, rfl, h⟩ := h
    apply Component.char hslash
    rcases h with rfl | h
    · exact .nil
    · exact hpath ((pathRootless_iff path).mp h).2.2
  | rootless h => exact hpath ((pathRootless_iff _).mp h).2.2
  | empty => exact .nil

/-- A URI holds these characters only, outside of its percent triplets. -/
theorem URI.characters {s : Bytes} (h : URI IPv6Address s) : Component UriCharacter s := by
  obtain ⟨scheme, hierPart, query, fragment, rfl, ⟨b, rest, rfl, hb, hrest⟩, hhier, hquery,
    hfragment⟩ := h
  have hdelimited {d : UInt8} (hd : UriCharacter d) {part : Option Bytes}
      (hpart : ∀ q ∈ part, Query q) : Component UriCharacter (delimited d part) := by
    cases part with
    | none => exact .nil
    | some q => exact .char hd ((hpart q rfl).imp fun _ => QueryCharacter.uri)
  have hscheme : ∀ c ∈ b :: rest, SchemeCharacter c :=
    List.forall_mem_cons.mpr ⟨Or.inl hb, hrest⟩
  have hafter : Component UriCharacter hierPart := (hhier.component haddress).imp fun _ => Or.inl
  exact (Component.of_forall fun c hc => (hscheme c hc).uri).append (.char (by decide)
    (hafter.append ((hdelimited (by decide) hquery).append (hdelimited (by decide) hfragment))))

/-- A URI holds visible characters only, and every percent sign in it starts a
triplet. -/
theorem URI.component {s : Bytes} (h : URI IPv6Address s) : Component Plain s :=
  (h.characters haddress).imp fun _ => UriCharacter.plain

end

end MissionWeave.Rfc3986
