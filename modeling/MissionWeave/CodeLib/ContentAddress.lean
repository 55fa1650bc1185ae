import Mathlib.Logic.Function.Basic

/-!
# Contents under their digests

A manifest is a list of names, each with the digest of the contents that it
stands for, and a root is the digest of an encoding of the manifest.  A store
that fits the manifest is settled by the root, up to contents that collide.

* `eq_or_collide`: contents with one digest are the same, or they collide.
* `Fits.agree`: stores that fit one manifest agree on its names.
* `Rooted.agree`: under one root there is one manifest, and the stores agree.

Some contents collide under every digest that is shorter than they are, so each
result names the contents that would have to.
-/

namespace ContentAddress

variable {κ α δ μ : Type} {digest : α → Option δ}

/-- The contents differ and have one digest. -/
def Collide (digest : α → Option δ) (x y : α) : Prop :=
  x ≠ y ∧ ∃ d, digest x = some d ∧ digest y = some d

theorem eq_or_collide {x y : α} {d : δ} (hx : digest x = some d) (hy : digest y = some d) :
    x = y ∨ Collide digest x y := by
  by_cases h : x = y
  · exact .inl h
  · exact .inr ⟨h, d, hx, hy⟩

/-- Another spelling of the digests makes no new collisions. -/
theorem Collide.of_map {ε : Type} {f : δ → ε} (hf : Function.Injective f) {x y : α}
    (h : Collide (fun z => (digest z).map f) x y) : Collide digest x y := by
  obtain ⟨hne, _, hx, hy⟩ := h
  obtain ⟨d, hd, rfl⟩ := Option.map_eq_some_iff.mp hx
  obtain ⟨d', hd', heq⟩ := Option.map_eq_some_iff.mp hy
  rw [hf heq] at hd'
  exact ⟨hne, d, hd, hd'⟩

/-- Both stores have contents under the name, which are the same or collide. -/
def Agree (digest : α → Option δ) (store store' : κ → Option α) (name : κ) : Prop :=
  ∃ x y, store name = some x ∧ store' name = some y ∧ (x = y ∨ Collide digest x y)

/-- The store has contents with the digest under each name of the manifest. -/
def Fits (digest : α → Option δ) (store : κ → Option α) (manifest : List (κ × δ)) : Prop :=
  ∀ entry ∈ manifest, ∃ contents, store entry.1 = some contents ∧ digest contents = some entry.2

section

variable {store store' : κ → Option α} {manifest manifest' : List (κ × δ)}

/-- Two stores that fit a manifest agree on its names. -/
theorem Fits.agree (h : Fits digest store manifest) (h' : Fits digest store' manifest) :
    ∀ entry ∈ manifest, Agree digest store store' entry.1 := by
  intro entry hentry
  obtain ⟨contents, hcontents, hdigest⟩ := h entry hentry
  obtain ⟨contents', hcontents', hdigest'⟩ := h' entry hentry
  exact ⟨contents, contents', hcontents, hcontents', eq_or_collide hdigest hdigest'⟩

/-! ## Manifests under a root -/

/-- The manifest is encoded as contents with the digest `root`, and the store
fits what it lists. -/
structure Rooted (digest : α → Option δ) (encode : μ → Option α) (entries : μ → List (κ × δ))
    (root : δ) (manifest : μ) (store : κ → Option α) : Prop where
  encoded : ∃ contents, encode manifest = some contents ∧ digest contents = some root
  fits : Fits digest store (entries manifest)

variable {encode : μ → Option α} {entries : μ → List (κ × δ)} {root : δ} {m m' : μ}

/-- Two manifests under one root are equivalent, and two stores that fit them
agree on what they list, when the encoding tells manifests apart that are not
equivalent and equivalent ones list the same; or the two encodings collide. -/
theorem Rooted.agree {Same : μ → μ → Prop}
    (hencode : ∀ contents, encode m = some contents → encode m' = some contents → Same m m')
    (hentries : Same m m' → entries m = entries m')
    (h : Rooted digest encode entries root m store)
    (h' : Rooted digest encode entries root m' store') :
    (Same m m' ∧ ∀ entry ∈ entries m, Agree digest store store' entry.1) ∨
      ∃ x y, encode m = some x ∧ encode m' = some y ∧ Collide digest x y := by
  obtain ⟨contents, hcontents, hdigest⟩ := h.encoded
  obtain ⟨contents', hcontents', hdigest'⟩ := h'.encoded
  rcases eq_or_collide hdigest hdigest' with heq | hcollide
  · rw [← heq] at hcontents'
    have hsame := hencode contents hcontents hcontents'
    have hfits := h'.fits
    rw [← hentries hsame] at hfits
    exact .inl ⟨hsame, h.fits.agree hfits⟩
  · exact .inr ⟨contents, contents', hcontents, hcontents', hcollide⟩

end

end ContentAddress
