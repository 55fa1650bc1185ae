import MissionWeave.Bundle.Requirements
import MissionWeave.CodeLib.Segments

/-!
# The paths of artifacts

`validate_artifact_path` of `bundle.cpp`.

* `validateArtifactPath_eq_ok`: which paths pass.
* `ArtifactPath.resolve`: a path that passes leads to where it says.
* `validateArtifactPath_exact`: both, and what is said of the other paths.
-/

namespace MissionWeave.Bundle

open Segments (first rest? resolve resolve_eq)

/-- `value >= 'a' && value <= 'z'` or a digit. -/
def isLowerOrDigit (b : UInt8) : Bool := (0x61 ≤ b && b ≤ 0x7A) || Ascii.isDigit b

/-- `valid_character`. -/
def validCharacter (b : UInt8) : Bool :=
  isLowerOrDigit b || b == Ascii.point || b == Ascii.underscore || b == Ascii.minus

/-- `valid_segment`. -/
def validSegment (segment : Bytes) : Bool :=
  if segment.isEmpty then false
  else segment.all validCharacter && segment.head?.any isLowerOrDigit

def unsafePath (path : Bytes) : Except Thrown Unit :=
  bundleError ("unsafe artifact path: " ++ text path)

/-- The loop of `validate_artifact_path`, from a `start` with `rest` behind it. -/
def segmentLoop (path rest : Bytes) : Except Thrown Unit :=
  if rest = [] then .ok ()
  else
    let segment := first Ascii.slash rest
    if ¬validSegment segment ∨ segment = ascii "." ∨ segment = ascii ".." then unsafePath path
    else
      match _hrest : rest? Ascii.slash rest with
      | none => .ok ()
      | some rest => segmentLoop path rest
termination_by rest.length
decreasing_by exact Segments.length_rest? _hrest

/-- `validate_artifact_path`. -/
def validateArtifactPath (path primaryPrefix manifestPath readmePath : Bytes) :
    Except Thrown Unit :=
  if path = [] ∨ 512 < path.length ∨ path.head? = some Ascii.slash ∨
      path.getLast? = some Ascii.slash ∨ Ascii.backslash ∈ path ∨
      ¬(primaryPrefix <+: path ∨ ascii "schemas/" <+: path) ∨ path = manifestPath ∨
      path = readmePath then unsafePath path
  else segmentLoop path path

/-! ## What passes -/

/-- A name of lowercase letters, digits, points, underscores and hyphens that
begins with a letter or a digit. -/
structure PlainName (segment : Bytes) : Prop where
  first : ∃ b ∈ ascii "abcdefghijklmnopqrstuvwxyz0123456789", segment.head? = some b
  characters : ∀ b ∈ segment, b ∈ ascii "abcdefghijklmnopqrstuvwxyz0123456789._-"

theorem validCharacter_iff (b : UInt8) :
    (isLowerOrDigit b = true ↔ b ∈ ascii "abcdefghijklmnopqrstuvwxyz0123456789") ∧
      (validCharacter b = true ↔ b ∈ ascii "abcdefghijklmnopqrstuvwxyz0123456789._-") := by
  have hbyte : ∀ n < 256,
      (isLowerOrDigit (.ofNat n) = true ↔
        UInt8.ofNat n ∈ ascii "abcdefghijklmnopqrstuvwxyz0123456789") ∧
      (validCharacter (.ofNat n) = true ↔
        UInt8.ofNat n ∈ ascii "abcdefghijklmnopqrstuvwxyz0123456789._-") := by
    decide +kernel
  simpa using hbyte b.toNat b.toNat_lt

theorem validSegment_iff {segment : Bytes} : validSegment segment = true ↔ PlainName segment := by
  cases segment with
  | nil =>
    refine iff_of_false (by decide) ?_
    rintro ⟨⟨_, _, hhead⟩, _⟩
    cases hhead
  | cons b segment =>
    have hsegment : validSegment (b :: segment) = true ↔
        isLowerOrDigit b = true ∧ ∀ c ∈ b :: segment, validCharacter c = true := by
      simp [validSegment, and_comm]
    rw [hsegment, (validCharacter_iff b).1]
    simp only [(validCharacter_iff _).2]
    constructor
    · rintro ⟨hfirst, hall⟩
      exact ⟨⟨b, hfirst, rfl⟩, hall⟩
    · rintro ⟨⟨c, hc, hhead⟩, hall⟩
      obtain rfl : b = c := Option.some.inj hhead
      exact ⟨hc, hall⟩

theorem PlainName.ne {segment : Bytes} (h : PlainName segment) :
    segment ≠ [] ∧ segment ≠ ascii "." ∧ segment ≠ ascii ".." := by
  have hvalid := validSegment_iff.mpr h
  refine ⟨?_, ?_, ?_⟩ <;> rintro rfl <;> exact absurd hvalid (by decide)

/-- The loop without the proof that it ends. -/
theorem segmentLoop_eq (path rest : Bytes) :
    segmentLoop path rest =
      if rest = [] then .ok ()
      else if ¬validSegment (first Ascii.slash rest) ∨ first Ascii.slash rest = ascii "." ∨
          first Ascii.slash rest = ascii ".." then unsafePath path
      else ((rest? Ascii.slash rest).map (segmentLoop path)).getD (.ok ()) := by
  rw [segmentLoop]
  dsimp only
  split_ifs with hempty hbad
  · rfl
  · rfl
  · split
    · rename_i hnone
      rw [hnone, Option.map_none, Option.getD_none]
    · rename_i next hsome
      rw [hsome, Option.map_some, Option.getD_some]

/-- The loop passes if every segment is valid, where the path does not end in a
separator. -/
theorem segmentLoop_eq_ok {path rest : Bytes} (hrest : rest ≠ [])
    (hlast : rest.getLast? ≠ some Ascii.slash) :
    segmentLoop path rest = .ok () ↔
      ∀ segment ∈ rest.splitOn Ascii.slash, PlainName segment := by
  induction rest using Segments.induct with
  | step rest ih =>
    rw [segmentLoop_eq, if_neg hrest, Segments.splitOn_eq, List.forall_mem_cons]
    by_cases hvalid : validSegment (first Ascii.slash rest) = true
    · have hplain := validSegment_iff.mp hvalid
      obtain ⟨_, hpoint, hpoints⟩ := hplain.ne
      rw [if_neg (by simp [hvalid, hpoint, hpoints])]
      cases hnext : rest? Ascii.slash rest with
      | none => simp [hplain]
      | some next =>
        have heq := Segments.eq_of_rest? hnext
        have hne : next ≠ [] := by
          rintro rfl
          rw [heq] at hlast
          simp at hlast
        have hnextLast : next.getLast? ≠ some Ascii.slash := by
          rw [heq, List.getLast?_append_cons, List.getLast?_cons] at hlast
          intro hslash
          simp [hslash] at hlast
        simp only [Option.map_some, Option.getD_some, hplain, true_and]
        exact ih next hnext hne hnextLast
    · rw [if_pos (.inl hvalid)]
      simp [← validSegment_iff, hvalid, unsafePath, bundleError]

/-- Every other path is reported as unsafe. -/
theorem segmentLoop_eq_error {path rest : Bytes} (h : segmentLoop path rest ≠ .ok ()) :
    segmentLoop path rest = unsafePath path := by
  induction rest using Segments.induct with
  | step rest ih =>
    rw [segmentLoop_eq] at h ⊢
    split_ifs at h ⊢ with hempty hbad
    · exact absurd rfl h
    · rfl
    · cases hnext : rest? Ascii.slash rest with
      | none =>
        rw [hnext] at h
        exact absurd rfl h
      | some next =>
        rw [hnext] at h
        exact ih next hnext h

/-- A path of at most 512 bytes is below a root, and each of its segments is a
plain name. -/
structure ArtifactPath (primaryPrefix path : Bytes) : Prop where
  length : path.length ≤ 512
  below : primaryPrefix <+: path ∨ ascii "schemas/" <+: path
  segments : ∀ segment ∈ path.splitOn Ascii.slash, PlainName segment

/-- A character of a path is a separator or stands in a segment. -/
theorem eq_slash_or_mem {path : Bytes} {b : UInt8} (hb : b ∈ path) :
    b = Ascii.slash ∨ ∃ segment ∈ path.splitOn Ascii.slash, b ∈ segment := by
  have hjoin : [Ascii.slash].intercalate (path.splitOn Ascii.slash) = path :=
    List.intercalate_splitOn Ascii.slash
  rw [← hjoin] at hb
  generalize path.splitOn Ascii.slash = segments at hb ⊢
  induction segments with
  | nil => simp at hb
  | cons segment segments ih =>
    cases segments with
    | nil => exact .inr ⟨segment, List.mem_cons_self, by simpa using hb⟩
    | cons next segments =>
      rw [List.intercalate_cons_cons, List.append_assoc, List.mem_append, List.mem_append,
        List.mem_singleton] at hb
      rcases hb with hb | hb | hb
      · exact .inr ⟨segment, List.mem_cons_self, hb⟩
      · exact .inl hb
      · rcases ih hb with hslash | ⟨s, hs, hmem⟩
        · exact .inl hslash
        · exact .inr ⟨s, List.mem_cons_of_mem _ hs, hmem⟩

namespace ArtifactPath

variable {primaryPrefix path : Bytes}

theorem not_mem_backslash (h : ArtifactPath primaryPrefix path) : Ascii.backslash ∉ path := by
  intro hmem
  rcases eq_slash_or_mem hmem with heq | ⟨segment, hsegment, hb⟩
  · exact absurd heq (by decide)
  · exact absurd ((h.segments segment hsegment).characters _ hb) (by decide)

theorem ne_nil (h : ArtifactPath primaryPrefix path) : path ≠ [] := by
  rintro rfl
  exact (h.segments [] (by simp)).ne.1 rfl

theorem head_ne (h : ArtifactPath primaryPrefix path) : path.head? ≠ some Ascii.slash := by
  intro hhead
  obtain ⟨rest, rfl⟩ := List.head?_eq_some_iff.mp hhead
  have hsegments := h.segments []
  rw [List.splitOn_cons_eq_if_modifyHead, if_pos (by simp)] at hsegments
  exact (hsegments List.mem_cons_self).ne.1 rfl

theorem getLast_ne (h : ArtifactPath primaryPrefix path) :
    path.getLast? ≠ some Ascii.slash := by
  intro hlast
  obtain ⟨before, rfl⟩ := List.getLast?_eq_some_iff.mp hlast
  have hsegments := h.segments []
  rw [List.splitOn_append_cons_self, List.splitOn_nil] at hsegments
  exact (hsegments (by simp)).ne.1 rfl

end ArtifactPath

/-- The paths that pass.  That the path is not empty, does not begin or end with
a separator and has no backslash follows from its segments. -/
theorem validateArtifactPath_eq_ok {path primaryPrefix manifestPath readmePath : Bytes} :
    validateArtifactPath path primaryPrefix manifestPath readmePath = .ok () ↔
      ArtifactPath primaryPrefix path ∧ path ≠ manifestPath ∧ path ≠ readmePath := by
  constructor
  · intro h
    unfold validateArtifactPath at h
    split_ifs at h with hguard
    · cases h
    · simp only [not_or, not_and_or, not_not, not_lt] at hguard
      obtain ⟨hempty, hlength, _, hlast, _, hbelow, hmanifest, hreadme⟩ := hguard
      exact ⟨⟨hlength, hbelow, (segmentLoop_eq_ok hempty hlast).mp h⟩, hmanifest, hreadme⟩
  · rintro ⟨h, hmanifest, hreadme⟩
    unfold validateArtifactPath
    rw [if_neg]
    · exact (segmentLoop_eq_ok h.ne_nil h.getLast_ne).mpr h.segments
    · simp only [not_or, not_and_or, not_not, not_lt]
      exact ⟨h.ne_nil, h.length, h.head_ne, h.getLast_ne, h.not_mem_backslash, h.below, hmanifest,
        hreadme⟩

/-! ## Where the paths lead -/

/-- A segment that stays in its directory. -/
def stays (segment : Bytes) : Bool := segment == [] || segment == ascii "."

/-- Where a path leads from the root. -/
def resolvePath (path : Bytes) : Option (List Bytes) :=
  resolve stays (ascii "..") [] (path.splitOn Ascii.slash)

/-- The path leads down from one of the two directories, to an entry with the
segments of the path. -/
theorem ArtifactPath.resolve {name path : Bytes} (hname : Ascii.slash ∉ name)
    (h : ArtifactPath (name ++ [Ascii.slash]) path) :
    ∃ directory rest, (directory = name ∨ directory = ascii "schemas") ∧ rest ≠ [] ∧
      path.splitOn Ascii.slash = directory :: rest ∧
        resolvePath path = some (directory :: rest) := by
  have hresolve : resolvePath path = some (path.splitOn Ascii.slash) := by
    have hup : ascii ".." ∉ path.splitOn Ascii.slash := by
      intro hmem
      exact (h.segments _ hmem).ne.2.2 rfl
    rw [resolvePath, resolve_eq hup, List.nil_append]
    congr 1
    apply List.filter_eq_self.mpr
    intro segment hsegment
    obtain ⟨hempty, hpoint, _⟩ := (h.segments segment hsegment).ne
    simp [stays, hempty, hpoint]
  have hbelow : ∃ directory, (directory = name ∨ directory = ascii "schemas") ∧
      Ascii.slash ∉ directory ∧ directory ++ [Ascii.slash] <+: path := by
    rcases h.below with hbelow | hbelow
    · exact ⟨name, .inl rfl, hname, hbelow⟩
    · exact ⟨ascii "schemas", .inr rfl, by decide, hbelow⟩
  obtain ⟨directory, hdirectory, hslash, rest, rfl⟩ := hbelow
  have hsplit : (directory ++ [Ascii.slash] ++ rest).splitOn Ascii.slash =
      directory :: rest.splitOn Ascii.slash := by
    rw [List.append_assoc]
    exact List.splitOn_append_cons_self_of_not_mem hslash rest
  refine ⟨directory, rest.splitOn Ascii.slash, hdirectory, List.splitOn_ne_nil _ _, hsplit, ?_⟩
  rw [hresolve, hsplit]

/-- The paths that pass are those of at most 512 bytes below one of the two
directories whose segments are plain names, but for the manifest and the readme;
each leads to the entry that its segments spell, inside its directory; and every
other path is reported as unsafe. -/
theorem validateArtifactPath_exact {name path manifestPath readmePath : Bytes}
    (hname : Ascii.slash ∉ name) :
    (validateArtifactPath path (name ++ [Ascii.slash]) manifestPath readmePath = .ok () ↔
      ArtifactPath (name ++ [Ascii.slash]) path ∧ path ≠ manifestPath ∧ path ≠ readmePath) ∧
    (ArtifactPath (name ++ [Ascii.slash]) path →
      ∃ directory rest, (directory = name ∨ directory = ascii "schemas") ∧ rest ≠ [] ∧
        path.splitOn Ascii.slash = directory :: rest ∧
        resolvePath path = some (directory :: rest)) ∧
    (validateArtifactPath path (name ++ [Ascii.slash]) manifestPath readmePath ≠ .ok () →
      validateArtifactPath path (name ++ [Ascii.slash]) manifestPath readmePath =
        unsafePath path) := by
  refine ⟨validateArtifactPath_eq_ok, ArtifactPath.resolve hname, ?_⟩
  intro h
  unfold validateArtifactPath at h ⊢
  split_ifs at h ⊢
  · rfl
  · exact segmentLoop_eq_error h

theorem validateArtifactPath_exact_sample :
    validateArtifactPath (ascii "schemas/a.json") (ascii "admission/")
        (ascii "admission/manifest.json") (ascii "admission/README.md") = .ok () ∧
      ∃ directory rest, (directory = ascii "admission" ∨ directory = ascii "schemas") ∧
        rest ≠ [] ∧ (ascii "schemas/a.json").splitOn Ascii.slash = directory :: rest ∧
        resolvePath (ascii "schemas/a.json") = some (directory :: rest) := by
  have hpath : ArtifactPath (ascii "admission" ++ [Ascii.slash]) (ascii "schemas/a.json") :=
    ⟨by decide, .inr (by decide), by
      simp only [← validSegment_iff]
      decide⟩
  obtain ⟨hpasses, hleads, _⟩ := @validateArtifactPath_exact (ascii "admission")
    (ascii "schemas/a.json") (ascii "admission/manifest.json") (ascii "admission/README.md")
    (by decide)
  exact ⟨hpasses.mpr ⟨hpath, by decide, by decide⟩, hleads hpath⟩

end MissionWeave.Bundle
