import MissionWeave.Json.Members
import MissionWeave.Json.Grammar

/-!
# The data of a value

What the RFC 8785 data of a value determines.

* `eq_null_of_data` and its companions recover the shape of a value from its
  data.
* `nesting_eq_of_data`: values with the same data are nested alike.
* `equals_of_data`: values with the same data are equal under `operator==`
  when their integers are safe.
* `data_toJson`: the data of a number text is its nearest `double`.
-/

namespace MissionWeave.Json

theorem dataElements_eq_map (xs : List Json) : dataElements xs = xs.map data := by
  induction xs with
  | nil => rfl
  | cons x xs ih => rw [dataElements, ih, List.map_cons]

theorem dataMembers_eq_map (ms : List (Bytes × Json)) :
    dataMembers ms = ms.map fun m => (m.1, m.2.data) := by
  induction ms with
  | nil => rfl
  | cons m ms ih => rw [dataMembers, ih, List.map_cons]

/-! ## The shape of a value with given data -/

theorem eq_null_of_data {v : Json} (h : v.data = .null) : v = .null := by
  cases v <;> cases h
  rfl

theorem eq_bool_of_data {v : Json} {b : Bool} (h : v.data = .bool b) : v = .bool b := by
  cases v <;> cases h
  rfl

theorem eq_string_of_data {v : Json} {s : Bytes} (h : v.data = .string s) : v = .string s := by
  cases v <;> cases h
  rfl

theorem asDouble?_of_data {v : Json} {x : Double} (h : v.data = .number x) :
    v.asDouble? = some x := by
  cases v <;> cases h <;> rfl

theorem data_of_asDouble? {v : Json} {x : Double} (h : v.asDouble? = some x) :
    v.data = .number x := by
  cases v <;> cases h <;> rfl

theorem eq_array_of_data {v : Json} {xs : List Json} (h : v.data = (Json.array xs).data) :
    ∃ ys, v = .array ys ∧ ys.map data = xs.map data := by
  cases v with
  | array ys =>
    have helements : dataElements ys = dataElements xs := Data.array.inj h
    rw [dataElements_eq_map, dataElements_eq_map] at helements
    exact ⟨ys, rfl, helements⟩
  | _ => cases h

theorem eq_object_of_data {v : Json} {ms : List (Bytes × Json)}
    (h : v.data = (Json.object ms).data) :
    ∃ ns, v = .object ns ∧
      (ns.map fun m => (m.1, m.2.data)) = ms.map fun m => (m.1, m.2.data) := by
  cases v with
  | object ns =>
    have hmembers : dataMembers ns = dataMembers ms := Data.object.inj h
    rw [dataMembers_eq_map, dataMembers_eq_map] at hmembers
    exact ⟨ns, rfl, hmembers⟩
  | _ => cases h

/-! ## Nesting -/

/-- Values with the same data are inside the same number of containers. -/
theorem nesting_eq_of_data {v w : Json} (h : w.data = v.data) : w.nesting = v.nesting := by
  induction v using Json.induct generalizing w with
  | null => rw [eq_null_of_data h]
  | bool b => rw [eq_bool_of_data h]
  | string s => rw [eq_string_of_data h]
  | int64 n => cases w <;> first | rfl | cases h
  | uint64 n => cases w <;> first | rfl | cases h
  | bigint n => cases w <;> first | rfl | cases h
  | double x => cases w <;> first | rfl | cases h
  | array xs ih =>
    obtain ⟨ys, rfl, hmap⟩ := eq_array_of_data h
    clear h
    rw [nesting, nesting]
    induction xs generalizing ys with
    | nil => rw [List.map_eq_nil_iff.mp hmap]
    | cons x xs ihx =>
      obtain ⟨y, ys, rfl, hy, hys⟩ := List.map_eq_cons_iff.mp hmap
      rw [nestingElements, nestingElements, ih x List.mem_cons_self hy,
        ihx (fun z hz => ih z (List.mem_cons_of_mem _ hz)) ys hys]
  | object ms ih =>
    obtain ⟨ns, rfl, hmap⟩ := eq_object_of_data h
    clear h
    rw [nesting, nesting]
    induction ms generalizing ns with
    | nil => rw [List.map_eq_nil_iff.mp hmap]
    | cons m ms ihm =>
      obtain ⟨n, ns, rfl, hn, hns⟩ := List.map_eq_cons_iff.mp hmap
      rw [nestingMembers, nestingMembers, ih m List.mem_cons_self (Prod.mk.inj hn).2,
        ihm (fun z hz => ih z (List.mem_cons_of_mem _ hz)) ns hns]

/-! ## Objects from members -/

/-- The data of an object is that of its members in the order of their names,
wherever they come from. -/
theorem data_ofMembers {ms ns : List (Bytes × Json)} (hns : SortedMembers ns)
    (h : (ms.map fun m => (m.1, m.2.data)).Perm (ns.map fun m => (m.1, m.2.data))) :
    (ofMembers ms).data = (Json.object ns).data := by
  have hnames (l : List (Bytes × Json)) :
      (l.map fun m => (m.1, m.2.data)).map Prod.fst = l.map Prod.fst := by
    rw [List.map_map]
    rfl
  have hnodup : (ms.map Prod.fst).Nodup := by
    rw [← hnames, (h.map Prod.fst).nodup_iff, hnames]
    exact hns.nodup
  have hsorted {l : List (Bytes × Json)} (hl : SortedMembers l) :
      SortedMembers (l.map fun m => (m.1, m.2.data)) :=
    List.pairwise_map.mpr hl
  have hperm := ((perm_ofMembers hnodup).map fun m => (m.1, m.2.data)).trans h
  rw [ofMembers_eq, data, data, dataMembers_eq_map, dataMembers_eq_map]
  exact congrArg Data.object ((hsorted (sorted_ofMembers ms)).eq_of_perm (hsorted hns) hperm)

/-! ## Equality -/

theorem integer?_or_double {v : Json} {x : Double} (h : v.asDouble? = some x) :
    (∃ n, v.integer? = some n ∧ x = nearest n) ∨ v.integer? = none ∧ v = .double x := by
  cases v <;> simp [asDouble?] at h
  · exact Or.inl ⟨_, rfl, h.symm⟩
  · exact Or.inl ⟨_, rfl, by rw [← h]; norm_num⟩
  · exact Or.inl ⟨_, rfl, h.symm⟩
  · exact Or.inr ⟨rfl, by rw [h]⟩

/-- Numbers with the same finite nearest `double` are equal, if the first is no
unsafe integer. -/
theorem numbersEqual_of_data {v w : Json} {x : Binary64} (hv : v.asDouble? = some (.finite x))
    (hw : w.asDouble? = some (.finite x)) (hsafe : ∀ n, v.integer? = some n → |n| < 2 ^ 53) :
    numbersEqual v w = true := by
  have hdouble : (Double.finite x).equals (.finite x) = true := beq_self_eq_true x
  rw [numbersEqual]
  rcases integer?_or_double hv with ⟨m, hm, hmx⟩ | ⟨hm, -⟩
  · rcases integer?_or_double hw with ⟨n, hn, hnx⟩ | ⟨hn, -⟩
    · have heq : m = n := eq_of_nearest_eq (hsafe m hm) (by rw [← hmx, ← hnx])
      simp only [hm, hn, heq, beq_self_eq_true]
    · simp only [hm, hn, hv, hw, hdouble]
  · simp only [hm, hv, hw, hdouble]

theorem asDouble?_of_finiteNumbers {v : Json} {x : Double} (h : v.asDouble? = some x)
    (hfinite : v.FiniteNumbers) : ∃ y, x = .finite y := by
  cases hfinite with
  | number finite =>
    rw [h] at finite
    exact ⟨_, Option.some.inj finite⟩
  | _ => cases h

theorem finiteNumbers_of_isFinite {v : Json} {x : Double} (h : v.asDouble? = some x)
    (hfinite : x.isFinite = true) : v.FiniteNumbers := by
  cases x with
  | finite y => exact .number h
  | infinity negative => cases hfinite
  | nan => cases hfinite

theorem safe_of_integer? {v : Json} {n : Int} (h : v.integer? = some n)
    (hsafe : v.SafeIntegers) : |n| < 2 ^ 53 := by
  cases hsafe with
  | integer value safe =>
    rw [h] at value
    rw [Option.some.inj value]
    exact safe
  | _ => cases h

theorem equals_of_number {v w : Json} {x : Double} (hv : v.asDouble? = some x)
    (hfinite : v.FiniteNumbers) (hsafe : v.SafeIntegers) (h : v.data = w.data) :
    equals v w = true := by
  obtain ⟨y, rfl⟩ := asDouble?_of_finiteNumbers hv hfinite
  have hw : w.asDouble? = some (.finite y) := asDouble?_of_data (by rw [← h, data_of_asDouble? hv])
  have hequal := numbersEqual_of_data hv hw fun n hn => safe_of_integer? hn hsafe
  cases v <;> cases w <;> first | cases hv; done | cases hw; done | exact hequal

/-- Values with the same data are equal, if every integer of the first is in
the range that `double` represents exactly. -/
theorem equals_of_data {v w : Json} (hfinite : v.FiniteNumbers) (hsafe : v.SafeIntegers)
    (h : v.data = w.data) : equals v w = true := by
  induction v using Json.induct generalizing w with
  | null => rw [eq_null_of_data h.symm, equals]
  | bool b => rw [eq_bool_of_data h.symm, equals, beq_self_eq_true]
  | string s => rw [eq_string_of_data h.symm, equals, beq_self_eq_true]
  | int64 n => exact equals_of_number rfl hfinite hsafe h
  | uint64 n => exact equals_of_number rfl hfinite hsafe h
  | bigint n => exact equals_of_number rfl hfinite hsafe h
  | double x => exact equals_of_number rfl hfinite hsafe h
  | array xs ih =>
    obtain ⟨ys, rfl, hmap⟩ := eq_array_of_data h.symm
    have hfinites : ∀ x ∈ xs, x.FiniteNumbers := by
      cases hfinite with
      | number finite => cases finite
      | array elements => exact elements
    have hsafes : ∀ x ∈ xs, x.SafeIntegers := by
      cases hsafe with
      | integer value => cases value
      | array elements => exact elements
    clear h hfinite hsafe
    rw [equals]
    induction xs generalizing ys with
    | nil => rw [List.map_eq_nil_iff.mp hmap, equalElements]
    | cons x xs ihx =>
      obtain ⟨y, ys, rfl, hy, hys⟩ := List.map_eq_cons_iff.mp hmap
      rw [equalElements, ih x List.mem_cons_self (hfinites x List.mem_cons_self)
        (hsafes x List.mem_cons_self) hy.symm, Bool.true_and]
      exact ihx (fun z hz => ih z (List.mem_cons_of_mem _ hz)) ys hys
        (fun z hz => hfinites z (List.mem_cons_of_mem _ hz))
        (fun z hz => hsafes z (List.mem_cons_of_mem _ hz))
  | object ms ih =>
    obtain ⟨ns, rfl, hmap⟩ := eq_object_of_data h.symm
    have hfinites : ∀ m ∈ ms, m.2.FiniteNumbers := by
      cases hfinite with
      | number finite => cases finite
      | object values => exact values
    have hsafes : ∀ m ∈ ms, m.2.SafeIntegers := by
      cases hsafe with
      | integer value => cases value
      | object values => exact values
    clear h hfinite hsafe
    rw [equals]
    induction ms generalizing ns with
    | nil => rw [List.map_eq_nil_iff.mp hmap, equalMembers]
    | cons m ms ihm =>
      obtain ⟨n, ns, rfl, hn, hns⟩ := List.map_eq_cons_iff.mp hmap
      obtain ⟨hname, hvalue⟩ := Prod.mk.inj hn
      rw [equalMembers, hname, beq_self_eq_true, Bool.true_and,
        ih m List.mem_cons_self (hfinites m List.mem_cons_self) (hsafes m List.mem_cons_self)
          hvalue.symm, Bool.true_and]
      exact ihm (fun z hz => ih z (List.mem_cons_of_mem _ hz)) ns hns
        (fun z hz => hfinites z (List.mem_cons_of_mem _ hz))
        (fun z hz => hsafes z (List.mem_cons_of_mem _ hz))

/-! ## The data of a number text -/

theorem data_integerJson (negative : Bool) (magnitude : Nat) :
    (integerJson negative magnitude).data =
      .number (nearest (if negative then -(magnitude : ℚ) else magnitude)) := by
  cases negative with
  | true =>
    rw [integerJson, if_pos rfl, if_pos rfl]
    split_ifs with h
    · have hint : (Int64.ofInt (-(magnitude : Int))).toInt = -(magnitude : Int) :=
        Int64.toInt_ofInt_of_le (by omega) (by omega)
      rw [data, hint]
      push_cast
      rfl
    · rw [data]
      push_cast
      rfl
  | false =>
    rw [integerJson, if_neg Bool.false_ne_true, if_neg Bool.false_ne_true]
    split_ifs with h
    · rw [data, UInt64.toNat_ofNat', Nat.mod_eq_of_lt h]
    · rw [data, Int.cast_natCast]

/-- The data of a number text is its nearest `double`. -/
theorem data_toJson (n : NumberText) : n.toJson.data = .number (nearest n.value) := by
  rw [NumberText.toJson]
  split_ifs with h
  · rw [data_integerJson, NumberText.value, NumberText.magnitude, NumberText.power, h.1, h.2]
    simp
  · rw [data]

end MissionWeave.Json
