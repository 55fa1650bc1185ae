import Mathlib.Order.Lattice
import Mathlib.Data.List.Lex

/-!
# Codes

A code maps each symbol to a word, and a list of symbols to the words one
behind the other.  `Separated` says that the first word of a text determines
its symbol, and `Ordered` that of two different symbols the smaller one has the
smaller word, whatever follows the two words.

* `Separated.flatMap_injective`: the words determine the symbols.
* `Ordered.flatMap_lt_iff`: encoding keeps the lexicographic order.
-/

namespace SymbolCode

variable {α β : Type}

/-- The first word can be told from what follows it. -/
structure Separated (code : α → List β) : Prop where
  split : ∀ {a b : α} {s t : List β}, code a ++ s = code b ++ t → a = b ∧ s = t
  nonempty : ∀ a, code a ≠ []

theorem Separated.flatMap_injective {code : α → List β} (hcode : Separated code) :
    Function.Injective fun xs : List α => xs.flatMap code := by
  intro xs ys h
  dsimp only at h
  induction xs generalizing ys with
  | nil =>
    cases ys with
    | nil => rfl
    | cons y ys =>
      rw [List.flatMap_nil, List.flatMap_cons, eq_comm, List.append_eq_nil_iff] at h
      exact absurd h.1 (hcode.nonempty y)
  | cons x xs ih =>
    cases ys with
    | nil =>
      rw [List.flatMap_nil, List.flatMap_cons, List.append_eq_nil_iff] at h
      exact absurd h.1 (hcode.nonempty x)
    | cons y ys =>
      rw [List.flatMap_cons, List.flatMap_cons] at h
      obtain ⟨hhead, htail⟩ := hcode.split h
      rw [hhead, ih htail]

variable [LinearOrder α] [LT β]

/-- A smaller symbol has a word that is smaller before its end. -/
structure Ordered (code : α → List β) : Prop where
  lt : ∀ {a b : α}, a < b → ∀ s t, code a ++ s < code b ++ t
  nonempty : ∀ a, code a ≠ []

theorem append_lt_append_left {xs ys : List β} (h : xs < ys) (prefixed : List β) :
    prefixed ++ xs < prefixed ++ ys := by
  induction prefixed with
  | nil => exact h
  | cons x rest ih =>
    rw [List.cons_append, List.cons_append, List.cons_lt_cons_iff]
    exact .inr ⟨rfl, ih⟩

variable {code : α → List β}

theorem Ordered.flatMap_lt (hcode : Ordered code) {xs ys : List α} (h : xs < ys) :
    xs.flatMap code < ys.flatMap code := by
  induction xs generalizing ys with
  | nil =>
    cases ys with
    | nil => exact absurd h (List.lt_irrefl _)
    | cons y ys =>
      rw [List.flatMap_nil, List.flatMap_cons]
      cases hword : code y with
      | nil => exact absurd hword (hcode.nonempty y)
      | cons b rest => exact List.nil_lt_cons _ _
  | cons x xs ih =>
    cases ys with
    | nil => exact absurd h (List.not_lt_nil _)
    | cons y ys =>
      rw [List.flatMap_cons, List.flatMap_cons]
      rcases List.cons_lt_cons_iff.mp h with hlt | ⟨heq, hlt⟩
      · exact hcode.lt hlt _ _
      · rw [heq]
        exact append_lt_append_left (ih hlt) _

/-- Encoding keeps the order, in both directions. -/
theorem Ordered.flatMap_lt_iff [Std.Asymm (α := β) (· < ·)] (hcode : Ordered code)
    {xs ys : List α} :
    xs.flatMap code < ys.flatMap code ↔ xs < ys := by
  constructor
  · intro h
    rcases lt_trichotomy xs ys with hlt | heq | hgt
    · exact hlt
    · rw [heq] at h
      exact absurd h (List.lt_irrefl _)
    · exact absurd h (List.lt_asymm (hcode.flatMap_lt hgt))
  · exact hcode.flatMap_lt

end SymbolCode
