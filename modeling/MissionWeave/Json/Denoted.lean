import MissionWeave.Json.Parse
import MissionWeave.Json.Fields

/-!
# Values that a text denotes

A value that comes from a text denotes only values from texts, and a number
without a sign is stored in one way.

* `Denoted.member`, `Denoted.element`: the values inside.
* `Denoted.eq_uint64`: a positive 64-bit integer.
* `Denoted.narrow`: small numbers are stored in 64 bits.
* `eq_ofMembers`: an object with the given members and no others.
* `data_eq_of_erase`: an object is a member and what is left without it.
* `set_erase`: a member that is erased and set again.
* `WellFormed.erase`, `FiniteNumbers.erase`: what is left without a member.
-/

namespace MissionWeave.Json

/-- Some text denotes the value. -/
def Denoted (v : Json) : Prop := ∃ t, ValueText t v

theorem Denoted.of_jsonText {text : Bytes} {v : Json} (h : JsonText text v) : Denoted v := by
  obtain ⟨_, t, _, _, hvalue, _⟩ := h
  exact ⟨t, hvalue⟩

theorem not_toJson_array {n : NumberText} {xs : List Json} : n.toJson ≠ .array xs := by
  unfold NumberText.toJson integerJson
  split_ifs <;> simp

theorem not_toJson_object {n : NumberText} {ms : List (Bytes × Json)} : n.toJson ≠ .object ms := by
  unfold NumberText.toJson integerJson
  split_ifs <;> simp

/-- The values inside an object. -/
theorem Denoted.of_mem {ms : List (Bytes × Json)} (h : Denoted (.object ms)) {m : Bytes × Json}
    (hm : m ∈ ms) : Denoted m.2 := by
  obtain ⟨t, ht⟩ := h
  generalize hv : Json.object ms = v at ht
  cases ht with
  | number n => exact absurd hv.symm not_toJson_object
  | emptyObject =>
    rw [Json.object.inj hv] at hm
    cases hm
  | object items _ _ values _ =>
    have hmembers : ms = (ofMembers (items.map (·.member))).members := by rw [← hv, members]
    rw [hmembers] at hm
    obtain ⟨item, hitem, rfl⟩ := List.mem_map.mp (mem_ofMembers hm)
    exact ⟨_, values item hitem⟩
  | _ => cases hv

theorem Denoted.member {v value : Json} {field : String} (h : Denoted v)
    (hvalue : v.member? field = some value) : Denoted value := by
  cases v with
  | object ms => exact h.of_mem (mem_of_lookup hvalue)
  | _ => cases hvalue

/-- The elements of an array. -/
theorem Denoted.element {v value : Json} (h : Denoted v) (hvalue : value ∈ v.elements) :
    Denoted value := by
  cases v with
  | array xs =>
    obtain ⟨t, ht⟩ := h
    generalize hv : Json.array xs = v at ht
    cases ht with
    | number n => exact absurd hv.symm not_toJson_array
    | emptyArray =>
      rw [Json.array.inj hv] at hvalue
      cases hvalue
    | array items _ _ values =>
      rw [elements, Json.array.inj hv] at hvalue
      obtain ⟨item, hitem, rfl⟩ := List.mem_map.mp hvalue
      exact ⟨_, values item hitem⟩
    | object items => cases hv
    | _ => cases hv
  | _ => cases hvalue

theorem Denoted.wellFormed {v : Json} (h : Denoted v) : v.WellFormed := by
  obtain ⟨t, ht⟩ := h
  exact wellFormed_of_valueText ht

/-- A positive number that fits 64 bits is stored without a sign. -/
theorem Denoted.eq_uint64 {v : Json} {n : Nat} (h : Denoted v) (hn : n ≠ 0)
    (hvalue : v.asUint64? = some n) : v = .uint64 (UInt64.ofNat n) := by
  cases v with
  | uint64 m =>
    rw [← Option.some.inj hvalue, UInt64.ofNat_toNat]
  | int64 m =>
    obtain ⟨t, ht⟩ := h
    generalize hv : Json.int64 m = v at ht
    cases ht with
    | number k =>
      -- a text is stored with a sign only if it has one
      unfold NumberText.toJson integerJson at hv
      split_ifs at hv with _ _ hmagnitude
      · have hint : m.toInt = -(digitsValue k.integer : Int) := by
          rw [Json.int64.inj hv]
          exact Int64.toInt_ofInt_of_le (by omega) (by omega)
        rw [asUint64?] at hvalue
        split_ifs at hvalue with hsign
        have := Option.some.inj hvalue
        omega
    | object items => cases hv
    | _ => cases hv
  | _ => cases hvalue

/-! ## Small numbers -/

theorem SmallNumbers.finiteNumbers {v : Json} (h : v.SmallNumbers) : v.FiniteNumbers := by
  induction h with
  | null => exact .null
  | bool b => exact .bool b
  | number finite small => exact .number finite
  | string s => exact .string s
  | array elements ih => exact .array ih
  | object values ih => exact .object ih

/-- The magnitudes are those of the data. -/
theorem SmallNumbers.of_data {v w : Json} (hv : v.SmallNumbers) (h : w.data = v.data) :
    w.SmallNumbers := by
  induction hv generalizing w with
  | null => exact eq_null_of_data h ▸ .null
  | bool b => exact eq_bool_of_data h ▸ .bool b
  | number finite small =>
    exact .number (asDouble?_of_data (h.trans (data_of_asDouble? finite))) small
  | string s => exact eq_string_of_data h ▸ .string s
  | array elements ih =>
    obtain ⟨ys, rfl, hmap⟩ := eq_array_of_data h
    refine .array fun y hy => ?_
    obtain ⟨x, hx, hdata⟩ := List.mem_map.mp (hmap ▸ List.mem_map_of_mem hy)
    exact ih x hx hdata.symm
  | object values ih =>
    obtain ⟨ns, rfl, hmap⟩ := eq_object_of_data h
    refine .object fun n hn => ?_
    obtain ⟨m, hm, hdata⟩ := List.mem_map.mp (hmap ▸ List.mem_map_of_mem hn)
    exact ih m hm (Prod.mk.inj hdata).2.symm

theorem SmallNumbers.member {v value : Json} {field : String} (h : v.SmallNumbers)
    (hvalue : v.member? field = some value) : value.SmallNumbers := by
  cases h with
  | object values => exact values _ (mem_of_lookup hvalue)
  | number finite => cases v <;> first | cases finite; done | cases hvalue
  | _ => cases hvalue

theorem SmallNumbers.memberAt {v value : Json} {path : List String} (h : v.SmallNumbers)
    (hvalue : v.memberAt? path = some value) : value.SmallNumbers := by
  induction path generalizing v with
  | nil => exact Option.some.inj hvalue ▸ h
  | cons field path ih =>
    obtain ⟨member, hmember, hvalue⟩ := Option.bind_eq_some_iff.mp hvalue
    exact ih (h.member hmember) hvalue

def isSmall : Double → Bool
  | .finite x => decide (-2 ^ 63 < x.value ∧ x.value < 2 ^ 63)
  | _ => false

mutual

/-- `SmallNumbers`, computed. -/
def hasSmallNumbers : Json → Bool
  | .array xs => hasSmallElements xs
  | .object ms => hasSmallMembers ms
  | v => (v.asDouble?.map isSmall).getD true

def hasSmallElements : List Json → Bool
  | [] => true
  | x :: xs => hasSmallNumbers x && hasSmallElements xs

def hasSmallMembers : List (Bytes × Json) → Bool
  | [] => true
  | (_, value) :: ms => hasSmallNumbers value && hasSmallMembers ms

end

theorem hasSmallElements_eq (xs : List Json) :
    hasSmallElements xs = xs.all hasSmallNumbers := by
  induction xs with
  | nil => rfl
  | cons x xs ih => rw [hasSmallElements, ih, List.all_cons]

theorem hasSmallMembers_eq (ms : List (Bytes × Json)) :
    hasSmallMembers ms = ms.all fun m => hasSmallNumbers m.2 := by
  induction ms with
  | nil => rfl
  | cons m ms ih => rw [hasSmallMembers, ih, List.all_cons]

theorem SmallNumbers.of_hasSmallNumbers {v : Json} (h : hasSmallNumbers v = true) :
    v.SmallNumbers := by
  have hnumber {w : Json} {x : Double} (hw : w.asDouble? = some x) (h : isSmall x = true) :
      w.SmallNumbers := by
    cases x with
    | finite x => exact .number hw (abs_lt.mpr (of_decide_eq_true h))
    | infinity negative => cases h
    | nan => cases h
  induction v using Json.induct with
  | null => exact .null
  | bool b => exact .bool b
  | int64 n => exact hnumber rfl h
  | uint64 n => exact hnumber rfl h
  | bigint n => exact hnumber rfl h
  | double x => exact hnumber rfl h
  | string s => exact .string s
  | array xs ih =>
    rw [hasSmallNumbers, hasSmallElements_eq, List.all_eq_true] at h
    exact .array fun x hx => ih x hx (h x hx)
  | object ms ih =>
    rw [hasSmallNumbers, hasSmallMembers_eq, List.all_eq_true] at h
    exact .object fun m hm => ih m hm (h m hm)

theorem Narrow.member {v value : Json} {field : String} (h : v.Narrow)
    (hvalue : v.member? field = some value) : value.Narrow := by
  cases h with
  | object values => exact values _ (mem_of_lookup hvalue)
  | _ => cases hvalue

/-- An integer of a text is only stored as a text where it has to be. -/
theorem Denoted.le_bigint {n : Int} (h : Denoted (.bigint n)) : 2 ^ 63 ≤ |n| := by
  obtain ⟨t, ht⟩ := h
  generalize hv : Json.bigint n = v at ht
  cases ht with
  | number k =>
    unfold NumberText.toJson integerJson at hv
    split_ifs at hv with _ _ hmagnitude hmagnitude
    · rw [Json.bigint.inj hv, abs_neg, Nat.abs_cast]
      omega
    · rw [Json.bigint.inj hv, Nat.abs_cast]
      omega
  | object items => cases hv
  | _ => cases hv

/-- A value of a text whose numbers are small has no wide integer. -/
theorem Denoted.narrow {v : Json} (h : Denoted v) (hsmall : v.SmallNumbers) : v.Narrow := by
  induction v using Json.induct with
  | bigint n =>
    cases hsmall with
    | number finite small =>
      have hlarge := le_abs_of_nearest_eq (by decide) h.le_bigint (Option.some.inj finite)
      exact absurd small (not_lt.mpr hlarge)
  | array xs ih =>
    have hsmalls : ∀ x ∈ xs, x.SmallNumbers := by
      cases hsmall with
      | number finite => cases finite
      | array elements => exact elements
    exact .array fun x hx => ih x hx (h.element hx) (hsmalls x hx)
  | object ms ih =>
    have hsmalls : ∀ m ∈ ms, m.2.SmallNumbers := by
      cases hsmall with
      | number finite => cases finite
      | object values => exact values
    exact .object fun m hm => ih m hm (h.of_mem hm) (hsmalls m hm)
  | _ => constructor

/-- Values of texts with the same data, of which one has small numbers. -/
theorem SameNarrowData.of_small {v w : Json} (hv : Denoted v) (hw : Denoted w)
    (h : SameData v w) (hsmall : w.SmallNumbers) : SameNarrowData v w :=
  ⟨h, hv.narrow (hsmall.of_data h), hw.narrow hsmall⟩

/-! ## Members from their lookup -/

theorem mem_iff_lookup {α : Type} {ms : List (Bytes × α)} (h : SortedMembers ms)
    {m : Bytes × α} : m ∈ ms ↔ lookup m.1 ms = some m.2 := by
  constructor
  · intro hm
    induction ms with
    | nil => cases hm
    | cons n ms ih =>
      rcases List.mem_cons.mp hm with rfl | hm
      · exact lookup_cons_self rfl
      · have hne : n.1 ≠ m.1 := by
          have hnodup := h.nodup
          rw [List.map_cons, List.nodup_cons] at hnodup
          intro heq
          exact hnodup.1 (heq ▸ List.mem_map_of_mem hm)
        rw [lookup_cons_of_ne hne, ih h.tail hm]
  · exact mem_of_lookup

/-- Sorted members with one lookup are the same. -/
theorem SortedMembers.eq_of_lookup {α : Type} {ms ns : List (Bytes × α)} (hms : SortedMembers ms)
    (hns : SortedMembers ns) (h : ∀ name, lookup name ms = lookup name ns) : ms = ns := by
  apply hms.eq_of_perm hns
  refine (List.perm_ext_iff_of_nodup hms.nodup.of_map hns.nodup.of_map).mpr ?_
  intro m
  rw [mem_iff_lookup hms, mem_iff_lookup hns, h]

theorem mem_names_iff {α : Type} {ms : List (Bytes × α)} {name : Bytes} :
    name ∈ ms.map Prod.fst ↔ lookup name ms ≠ none := by
  rw [ne_eq, lookup_eq_none]
  simp

/-- An object with the given members and no others. -/
theorem eq_ofMembers {v : Json} {ns : List (Bytes × Json)} (hv : v.Ordered)
    (hobject : v.isObject = true) (hnodup : (ns.map Prod.fst).Nodup)
    (hnames : ∀ name, name ∈ v.members.map Prod.fst ↔ name ∈ ns.map Prod.fst)
    (hvalues : ∀ n ∈ ns, lookup n.1 v.members = some n.2) : v = ofMembers ns := by
  cases v with
  | object ms =>
    have hms : SortedMembers ms := by
      cases hv with
      | leaf _ object => cases object
      | object sorted _ => exact sorted
    have hperm := perm_ofMembers hnodup
    rw [ofMembers_eq]
    congr 1
    apply hms.eq_of_lookup (sorted_ofMembers ns)
    intro name
    by_cases hname : name ∈ ns.map Prod.fst
    · obtain ⟨n, hn, rfl⟩ := List.mem_map.mp hname
      have hmem : n ∈ (ofMembers ns).members := hperm.mem_iff.mpr hn
      rw [(mem_iff_lookup (sorted_ofMembers ns)).mp hmem]
      exact hvalues n hn
    · have hms' := (hnames name).not.mpr hname
      rw [← (hperm.map Prod.fst).mem_iff] at hname
      rw [mem_names_iff, not_not] at hms' hname
      rw [hname]
      exact hms'
  | _ => cases hobject

theorem lookup_filter_ne {α : Type} {ms : List (Bytes × α)} {name other : Bytes}
    (hne : name ≠ other) : lookup name (ms.filter fun m => m.1 != other) = lookup name ms := by
  induction ms with
  | nil => rfl
  | cons m ms ih =>
    by_cases hm : m.1 = other
    · rw [List.filter_cons_of_neg (by simpa using hm), ih,
        lookup_cons_of_ne fun h => hne (h.symm.trans hm)]
    · rw [List.filter_cons_of_pos (by simpa using hm)]
      by_cases hname : m.1 = name
      · rw [lookup_cons_self hname, lookup_cons_self hname]
      · rw [lookup_cons_of_ne hname, lookup_cons_of_ne hname, ih]

theorem member?_erase_of_ne {field other : String} (v : Json) (hne : other ≠ field) :
    (v.erase field).member? other = v.member? other := by
  cases v with
  | object ms => exact lookup_filter_ne fun h => hne (ascii_inj.mp h)
  | _ => rfl

theorem member?_erase_self (v : Json) (field : String) : (v.erase field).member? field = none := by
  cases v with
  | object ms =>
    rw [member?_eq_lookup, lookup_eq_none]
    exact fun m hm => bne_iff_ne.mp (List.mem_filter.mp hm).2
  | _ => rfl

/-- A member that is erased and set again is where it was. -/
theorem set_erase {v value : Json} {field : String} (hv : v.Ordered)
    (hmember : v.member? field = some value) : (v.erase field).set field value = v := by
  cases v with
  | object ms =>
    have hsorted : SortedMembers ms := by
      cases hv with
      | leaf _ object => cases object
      | object sorted _ => exact sorted
    rw [erase, set, members]
    congr 1
    apply (sorted_insertMember (hsorted.filter _)).eq_of_lookup hsorted
    intro name
    by_cases hname : ascii field = name
    · rw [← hname, lookup_insertMember_self]
      exact hmember.symm
    · rw [lookup_insertMember_of_ne _ _ hname, lookup_filter_ne (Ne.symm hname)]
  | _ => cases hmember

/-- Objects with the same data in one member, and without it, have the same
data. -/
theorem data_eq_of_erase {v w : Json} {field : String} (hv : v.Ordered) (hw : w.Ordered)
    (hobject : v.isObject = true) (hobject' : w.isObject = true)
    (herase : (w.erase field).data = (v.erase field).data)
    (hmember : (w.member? field).map data = (v.member? field).map data) : w.data = v.data := by
  cases v with
  | object ms =>
    cases w with
    | object ns =>
      have hsorted {l : List (Bytes × Json)} (hl : (Json.object l).Ordered) :
          SortedMembers (l.map fun m => (m.1, m.2.data)) := by
        cases hl with
        | leaf _ object => cases object
        | object sorted _ => exact List.pairwise_map.mpr sorted
      rw [data, data, dataMembers_eq_map, dataMembers_eq_map]
      congr 1
      apply (hsorted hw).eq_of_lookup (hsorted hv)
      intro name
      rw [lookup_map, lookup_map]
      by_cases hname : name = ascii field
      · rw [hname]
        exact hmember
      · have hfilter := members_of_data herase
        have hlookup := congrArg (lookup name) hfilter
        rw [lookup_map, lookup_map] at hlookup
        rw [← @lookup_filter_ne _ ns _ _ hname, ← @lookup_filter_ne _ ms _ _ hname]
        exact hlookup
    | _ => cases hobject'
  | _ => cases hobject

theorem WellFormed.erase {v : Json} (hv : v.WellFormed) (field : String) :
    (v.erase field).WellFormed := by
  cases hv with
  | object sorted names values =>
    exact .object (sorted.filter _) (fun m hm => names m (List.mem_of_mem_filter hm))
      fun m hm => values m (List.mem_of_mem_filter hm)
  | array elements => exact .array elements
  | string utf8 => exact .string utf8
  | _ => constructor

theorem FiniteNumbers.erase {v : Json} (hv : v.FiniteNumbers) (field : String) :
    (v.erase field).FiniteNumbers := by
  cases hv with
  | object values => exact .object fun m hm => values m (List.mem_of_mem_filter hm)
  | array elements => exact .array elements
  | number finite => cases v <;> first | cases finite; done | exact .number finite
  | string s => exact .string s
  | _ => constructor

end MissionWeave.Json
