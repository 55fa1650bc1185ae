import Mathlib.Data.List.Nodup

/-!
# Write-once stores

A store is a list of keys with their values, and `List.lookup` reads it.
`getOrPut` is the only operation that changes it: it enters a value under a key
that has none, and returns the value under the key.

* `prefix_getOrPut`: entries are never changed or removed.
* `nodupKeys_getOrPut`: no key gets a second value.
* `lookup_getOrPut`: what is returned is what is stored.
-/

namespace WriteOnce

variable {κ β : Type} [BEq κ] [LawfulBEq κ]

/-- No key has two values. -/
def NodupKeys (store : List (κ × β)) : Prop := (store.map Prod.fst).Nodup

/-- The value under the key, after `value` has been entered if there was none. -/
def getOrPut (store : List (κ × β)) (key : κ) (value : β) : β × List (κ × β) :=
  match store.lookup key with
  | some stored => (stored, store)
  | none => (value, store ++ [(key, value)])

variable (store : List (κ × β)) (key : κ) (value : β)

omit [LawfulBEq κ] in
theorem prefix_getOrPut : store <+: (getOrPut store key value).2 := by
  rw [getOrPut]
  cases store.lookup key with
  | none => exact List.prefix_append _ _
  | some stored => exact List.prefix_rfl

theorem lookup_getOrPut :
    (getOrPut store key value).2.lookup key = some (getOrPut store key value).1 := by
  rw [getOrPut]
  cases hlookup : store.lookup key with
  | none => rw [List.lookup_append, hlookup, Option.none_or, List.lookup_cons_self]
  | some stored => exact hlookup

variable {store} in
theorem nodupKeys_getOrPut (h : NodupKeys store) : NodupKeys (getOrPut store key value).2 := by
  rw [getOrPut]
  cases hlookup : store.lookup key with
  | some stored => exact h
  | none =>
    rw [NodupKeys, List.map_append, List.map_singleton, ← List.concat_eq_append, List.nodup_concat]
    refine ⟨?_, h⟩
    rw [List.mem_map]
    rintro ⟨entry, hentry, rfl⟩
    have := List.lookup_eq_none_iff.mp hlookup entry hentry
    simp at this

end WriteOnce
