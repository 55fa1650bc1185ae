import MissionWeave.Json.Data
import MissionWeave.Json.Strict

/-!
# Members by name

`set`, `erase` and the lookup of a member, as far as the Signed Document codec
uses them on an object.

* `member?_set_self`, `member?_set_of_ne`, `member?_erase_of_ne`: the lookup
  after a change.
* `erase_set`: a member that was set is erased.
* `exists_member?_of_data`, `data_erase`: members are a matter of the data.
-/

namespace MissionWeave

theorem ascii_inj {s t : String} : ascii s = ascii t ↔ s = t := by
  constructor
  · intro h
    apply String.toByteArray_inj.mp
    exact ByteArray.ext (Array.toList_inj.mp h)
  · rintro rfl
    rfl

namespace Json

/-! ## Lookup -/

/-- The lookup in a list of members. -/
def lookup {α : Type} (name : Bytes) (ms : List (Bytes × α)) : Option α :=
  (ms.find? fun m => m.1 == name).map Prod.snd

theorem member?_eq_lookup (v : Json) (field : String) :
    v.member? field = lookup (ascii field) v.members := rfl

section

variable {α : Type} {name : Bytes} {m : Bytes × α} {ms : List (Bytes × α)}

theorem lookup_cons_self (h : m.1 = name) : lookup name (m :: ms) = some m.2 := by
  rw [lookup, List.find?_cons_of_pos (by simpa using h)]
  rfl

theorem lookup_cons_of_ne (h : m.1 ≠ name) : lookup name (m :: ms) = lookup name ms := by
  rw [lookup, List.find?_cons_of_neg (by simpa using h), lookup]

theorem lookup_eq_none : lookup name ms = none ↔ ∀ m ∈ ms, m.1 ≠ name := by
  rw [lookup, Option.map_eq_none_iff, List.find?_eq_none]
  simp only [beq_iff_eq]

theorem mem_of_lookup {value : α} (h : lookup name ms = some value) : (name, value) ∈ ms := by
  obtain ⟨m, hm, rfl⟩ := Option.map_eq_some_iff.mp h
  obtain rfl : m.1 = name := by simpa using List.find?_some hm
  exact List.mem_of_find?_eq_some hm

theorem lookup_map {β : Type} (f : α → β) :
    lookup name (ms.map fun m => (m.1, f m.2)) = (lookup name ms).map f := by
  induction ms with
  | nil => rfl
  | cons m ms ih =>
    rw [List.map_cons]
    by_cases h : m.1 = name
    · rw [lookup_cons_self h, lookup_cons_self (m := (m.1, f m.2)) h]
      rfl
    · rw [lookup_cons_of_ne h, lookup_cons_of_ne (m := (m.1, f m.2)) h, ih]

end

theorem lookup_insertMember_self (name : Bytes) (value : Json) (ms : List (Bytes × Json)) :
    lookup name (insertMember name value ms) = some value := by
  induction ms with
  | nil => exact lookup_cons_self rfl
  | cons m ms ih =>
    rw [insertMember]
    split
    · exact lookup_cons_self rfl
    · exact lookup_cons_self rfl
    · rename_i hgt
      have hne : m.1 ≠ name := by
        intro heq
        have hself : compare name name = .eq := Std.ReflCmp.compare_self
        rw [heq, hself] at hgt
        cases hgt
      rw [lookup_cons_of_ne hne, ih]

theorem lookup_insertMember_of_ne {name other : Bytes} (value : Json) (ms : List (Bytes × Json))
    (hne : name ≠ other) : lookup other (insertMember name value ms) = lookup other ms := by
  induction ms with
  | nil => exact lookup_cons_of_ne hne
  | cons m ms ih =>
    rw [insertMember]
    split
    · exact lookup_cons_of_ne hne
    · rename_i heq
      have hname : m.1 ≠ other := by
        rw [← Std.LawfulEqCmp.eq_of_compare heq]
        exact hne
      rw [lookup_cons_of_ne hne, lookup_cons_of_ne hname]
    · by_cases hm : m.1 = other
      · rw [lookup_cons_self hm, lookup_cons_self hm]
      · rw [lookup_cons_of_ne hm, lookup_cons_of_ne hm, ih]

variable {field other : String}

theorem member?_set_self (v value : Json) : (v.set field value).member? field = some value :=
  lookup_insertMember_self _ _ _

theorem member?_set_of_ne (v value : Json) (hne : field ≠ other) :
    (v.set field value).member? other = v.member? other :=
  lookup_insertMember_of_ne _ _ fun h => hne (ascii_inj.mp h)

/-! ## Setting and erasing -/

theorem filter_insertMember {name : Bytes} {value : Json} {ms : List (Bytes × Json)}
    (h : ∀ m ∈ ms, m.1 ≠ name) :
    (insertMember name value ms).filter (fun m => m.1 != name) = ms := by
  have hkeep {ns : List (Bytes × Json)} (hns : ∀ m ∈ ns, m.1 ≠ name) :
      ns.filter (fun m => m.1 != name) = ns :=
    List.filter_eq_self.mpr fun m hm => bne_iff_ne.mpr (hns m hm)
  have hdrop (ns : List (Bytes × Json)) :
      ((name, value) :: ns).filter (fun m => m.1 != name) = ns.filter fun m => m.1 != name :=
    List.filter_cons_of_neg (by simp)
  induction ms with
  | nil => exact hdrop []
  | cons m ms ih =>
    obtain ⟨hm, hms⟩ := List.forall_mem_cons.mp h
    rw [insertMember]
    split
    · rw [hdrop, hkeep h]
    · rename_i heq
      exact absurd (Std.LawfulEqCmp.eq_of_compare heq).symm hm
    · rw [List.filter_cons_of_pos (by simpa using hm), ih hms]

/-- A member that was set is erased. -/
theorem erase_set {v : Json} (value : Json) (hobject : v.isObject = true)
    (h : v.contains field = false) : (v.set field value).erase field = v := by
  cases v with
  | object ms =>
    rw [contains, Option.isSome_eq_false_iff, Option.isNone_iff_eq_none, member?_eq_lookup,
      lookup_eq_none] at h
    exact congrArg Json.object (filter_insertMember h)
  | _ => cases hobject

/-! ## Members are a matter of the data -/

theorem isObject_of_data {v w : Json} (h : w.data = v.data) (hv : v.isObject = true) :
    w.isObject = true := by
  cases v with
  | object ms =>
    obtain ⟨ns, rfl, _⟩ := eq_object_of_data h
    rfl
  | _ => cases hv

/-- The members of values with the same data have the same data. -/
theorem members_of_data {v w : Json} (h : w.data = v.data) :
    (w.members.map fun m => (m.1, m.2.data)) = v.members.map fun m => (m.1, m.2.data) := by
  cases v with
  | object ms =>
    obtain ⟨ns, rfl, hmap⟩ := eq_object_of_data h
    exact hmap
  | null => rw [eq_null_of_data h]
  | bool b => rw [eq_bool_of_data h]
  | string s => rw [eq_string_of_data h]
  | array xs =>
    obtain ⟨ys, rfl, _⟩ := eq_array_of_data h
    rfl
  | _ => cases w <;> first | cases h; done | rfl

theorem member?_of_data {v w : Json} (h : w.data = v.data) (field : String) :
    (w.member? field).map data = (v.member? field).map data := by
  rw [member?_eq_lookup, member?_eq_lookup, ← lookup_map, ← lookup_map, members_of_data h]

theorem exists_member?_of_data {v w value : Json} (h : w.data = v.data)
    (hmember : v.member? field = some value) :
    ∃ value', w.member? field = some value' ∧ value'.data = value.data := by
  have hmap := member?_of_data h field
  rw [hmember, Option.map_some, Option.map_eq_some_iff] at hmap
  exact hmap

/-- The value that a path of member names leads to. -/
def memberAt? (v : Json) : List String → Option Json
  | [] => some v
  | field :: path => (v.member? field).bind fun value => value.memberAt? path

theorem exists_memberAt?_of_data {v w value : Json} {path : List String} (h : w.data = v.data)
    (hvalue : v.memberAt? path = some value) :
    ∃ value', w.memberAt? path = some value' ∧ value'.data = value.data := by
  induction path generalizing v w with
  | nil =>
    rw [memberAt?, Option.some.injEq] at hvalue
    exact ⟨w, rfl, by rw [h, hvalue]⟩
  | cons field path ih =>
    obtain ⟨member, hmember, hvalue⟩ := Option.bind_eq_some_iff.mp hvalue
    obtain ⟨member', hmember', hdata⟩ := exists_member?_of_data h hmember
    obtain ⟨value', hvalue', hsame⟩ := ih hdata hvalue
    exact ⟨value', Option.bind_eq_some_iff.mpr ⟨member', hmember', hvalue'⟩, hsame⟩

/-- A string member is a matter of the data. -/
theorem member?_string_of_data {v w : Json} {text : Bytes} (h : w.data = v.data)
    (hmember : v.member? field = some (.string text)) : w.member? field = some (.string text) := by
  obtain ⟨value, hvalue, hdata⟩ := exists_member?_of_data h hmember
  rw [hvalue, eq_string_of_data hdata]

theorem data_erase {v w : Json} (h : w.data = v.data) (field : String) :
    (w.erase field).data = (v.erase field).data := by
  have hfilter (ms : List (Bytes × Json)) :
      ((ms.filter fun m => m.1 != ascii field).map fun m => (m.1, m.2.data)) =
        (ms.map fun m => (m.1, m.2.data)).filter fun m => m.1 != ascii field := by
    rw [List.filter_map]
    rfl
  cases v with
  | object ms =>
    obtain ⟨ns, rfl, hmap⟩ := eq_object_of_data h
    rw [erase, erase, data, data, dataMembers_eq_map, dataMembers_eq_map, hfilter, hfilter, hmap]
  | array xs =>
    obtain ⟨ys, rfl, _⟩ := eq_array_of_data h
    exact h
  | null => rw [eq_null_of_data h]
  | bool b => rw [eq_bool_of_data h]
  | string s => rw [eq_string_of_data h]
  | _ => cases w <;> first | cases h; done | exact h

/-! ## Conditions on the values -/

theorem Ordered.set {v value : Json} (hv : v.Ordered) (hvalue : value.Ordered) :
    (v.set field value).Ordered := by
  have hmembers : SortedMembers v.members ∧ ∀ m ∈ v.members, m.2.Ordered := by
    cases hv with
    | object sorted values => exact ⟨sorted, values⟩
    | array elements => exact ⟨List.Pairwise.nil, by simp [members]⟩
    | leaf array object => cases v <;> first | cases object; done | simp [members, SortedMembers]
  refine .object (sorted_insertMember hmembers.1) fun m hm => ?_
  rcases mem_insertMember hm with rfl | hm
  · exact hvalue
  · exact hmembers.2 m hm

theorem Ordered.erase {v : Json} (hv : v.Ordered) (field : String) : (v.erase field).Ordered := by
  cases hv with
  | object sorted values =>
    exact .object (sorted.filter _) fun m hm => values m (List.mem_of_mem_filter hm)
  | array elements => exact .array elements
  | leaf array object => cases v <;> first | cases object; done | exact .leaf array object

theorem nesting_erase_le (v : Json) (field : String) : (v.erase field).nesting ≤ v.nesting := by
  cases v with
  | object ms =>
    rw [Json.erase, nesting, nesting, nestingMembers_le]
    intro m hm
    exact nestingMembers_le.mp (Nat.le_refl _) m (List.mem_of_mem_filter hm)
  | _ => exact Nat.le_refl _

theorem nesting_set_le {v value : Json} {depth : Nat} (hv : v.nesting ≤ depth)
    (hvalue : value.nesting + 1 ≤ depth) : (v.set field value).nesting ≤ depth := by
  have hmembers : ∀ m ∈ v.members, m.2.nesting + 1 ≤ depth := by
    cases v with
    | object ms => exact nestingMembers_le.mp hv
    | _ => simp [members]
  rw [Json.set, nesting, nestingMembers_le]
  intro m hm
  rcases mem_insertMember hm with rfl | hm
  · exact hvalue
  · exact hmembers m hm

theorem WellFormed.set {v value : Json} (hv : v.WellFormed) (hobject : v.isObject = true)
    (hname : Utf8.WellFormed (ascii field)) (hvalue : value.WellFormed) :
    (v.set field value).WellFormed := by
  cases hv with
  | object sorted names values =>
    refine .object (sorted_insertMember sorted) (fun m hm => ?_) (fun m hm => ?_)
    · rcases mem_insertMember hm with rfl | hm
      · exact hname
      · exact names m hm
    · rcases mem_insertMember hm with rfl | hm
      · exact hvalue
      · exact values m hm
  | _ => cases hobject

theorem FiniteNumbers.set {v value : Json} (hv : v.FiniteNumbers) (hobject : v.isObject = true)
    (hvalue : value.FiniteNumbers) : (v.set field value).FiniteNumbers := by
  cases hv with
  | object values =>
    refine .object fun m hm => ?_
    rcases mem_insertMember hm with rfl | hm
    · exact hvalue
    · exact values m hm
  | number finite => cases v <;> first | cases hobject; done | cases finite
  | _ => cases hobject

/-! ## Objects of texts -/

/-- A text, or an object of such values. -/
inductive Textual : Json → Prop
  | string {s : Bytes} (utf8 : Utf8.WellFormed s) : Textual (.string s)
  | object {ms : List (Bytes × Json)} (sorted : SortedMembers ms)
      (names : ∀ m ∈ ms, Utf8.WellFormed m.1) (values : ∀ m ∈ ms, Textual m.2) :
      Textual (.object ms)

theorem textual_empty : Textual (.object []) :=
  .object List.Pairwise.nil (by simp) (by simp)

/-- A member with a name in ASCII is set. -/
theorem Textual.set {v value : Json} (hv : v.Textual) (hobject : v.isObject = true)
    (hname : (ascii field).all (fun b => decide (b < 0x80)) = true) (hvalue : value.Textual) :
    (v.set field value).Textual := by
  cases hv with
  | object sorted names values =>
    refine .object (sorted_insertMember sorted) (fun m hm => ?_) (fun m hm => ?_)
    · rcases mem_insertMember hm with rfl | hm
      · exact .ascii (forall_mem_of_all hname)
      · exact names m hm
    · rcases mem_insertMember hm with rfl | hm
      · exact hvalue
      · exact values m hm
  | string utf8 => cases hobject

theorem Textual.wellFormed {v : Json} (h : v.Textual) : v.WellFormed := by
  induction h with
  | string utf8 => exact .string utf8
  | object sorted names _ ih => exact .object sorted names ih

theorem Textual.finiteNumbers {v : Json} (h : v.Textual) : v.FiniteNumbers := by
  induction h with
  | string _ => exact .string _
  | object _ _ _ ih => exact .object ih

/-- It is determined by its data. -/
theorem Textual.eq_of_data {v : Json} (h : v.Textual) {w : Json} (hdata : w.data = v.data) :
    w = v := by
  induction h generalizing w with
  | string _ => exact eq_string_of_data hdata
  | @object ms sorted names values ih =>
    obtain ⟨ns, rfl, hmap⟩ := eq_object_of_data hdata
    clear hdata sorted names values
    refine congrArg Json.object ?_
    induction ms generalizing ns with
    | nil => exact List.map_eq_nil_iff.mp hmap
    | cons m ms ihm =>
      obtain ⟨n, ns, rfl, hn, hns⟩ := List.map_eq_cons_iff.mp hmap
      obtain ⟨hname, hvalue⟩ := Prod.mk.inj hn
      rw [Prod.ext hname (ih m List.mem_cons_self hvalue),
        ihm (fun z hz => ih z (List.mem_cons_of_mem _ hz)) ns hns]

end Json

end MissionWeave
