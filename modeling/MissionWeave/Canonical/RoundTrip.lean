import MissionWeave.Canonical.NumberSpec
import MissionWeave.Canonical.StringSpec
import MissionWeave.Json.Parse

/-!
# Canonical JSON is read back

`serialize` writes a JSON text of the same data, and depends on the data only.
The two together make the canonical text a complete and stable encoding.

* `serialize_congr`: values with the same data have the same text.
* `serialize_spec`: a well-formed value with finite numbers has a text, and
  the text denotes a value with the same data.
* `wellFormed_of_serialize`: a value that has a text is well formed and has
  finite numbers.
* `canonical_json_complete`: the round trip through `parse_strict_json`.
-/

namespace MissionWeave.Canonical

open Json (SameData)
open StrictScanner (maximumDepth)

theorem serializeElements_eq_map (xs : List Json) : serializeElements xs = xs.map serialize := by
  induction xs with
  | nil => rfl
  | cons x xs ih => rw [serializeElements, ih, List.map_cons]

theorem serializeMembers_eq_map (ms : List (Bytes × Json)) :
    serializeMembers ms = ms.map fun m => (m.1, serialize m.2) := by
  induction ms with
  | nil => rfl
  | cons m ms ih => rw [serializeMembers, ih, List.map_cons]

/-! ## The text depends on the data only -/

theorem serialize_of_number {v : Json} {x : Double} (h : v.data = .number x) :
    serialize v = canonicalNumber x := by
  cases v <;> simp [Json.data] at h <;> rw [serialize, h]

/-- Values with the same data have the same text. -/
theorem serialize_congr {v w : Json} (h : w.data = v.data) : serialize w = serialize v := by
  induction v using Json.induct generalizing w with
  | null => rw [Json.eq_null_of_data h]
  | bool b => rw [Json.eq_bool_of_data h]
  | string s => rw [Json.eq_string_of_data h]
  | int64 n => rw [serialize_of_number h, serialize]
  | uint64 n => rw [serialize_of_number h, serialize]
  | bigint n => rw [serialize_of_number h, serialize]
  | double x => rw [serialize_of_number h, serialize]
  | array xs ih =>
    obtain ⟨ys, rfl, hmap⟩ := Json.eq_array_of_data h
    have hitems : serializeElements ys = serializeElements xs := by
      clear h
      induction xs generalizing ys with
      | nil => rw [List.map_eq_nil_iff.mp hmap]
      | cons x xs ihx =>
        obtain ⟨y, ys, rfl, hy, hys⟩ := List.map_eq_cons_iff.mp hmap
        rw [serializeElements, serializeElements, ih x List.mem_cons_self hy,
          ihx (fun z hz => ih z (List.mem_cons_of_mem _ hz)) ys hys]
    rw [serialize, serialize, hitems]
  | object ms ih =>
    obtain ⟨ns, rfl, hmap⟩ := Json.eq_object_of_data h
    have hitems : serializeMembers ns = serializeMembers ms := by
      clear h
      induction ms generalizing ns with
      | nil => rw [List.map_eq_nil_iff.mp hmap]
      | cons m ms ihm =>
        obtain ⟨n, ns, rfl, hn, hns⟩ := List.map_eq_cons_iff.mp hmap
        obtain ⟨hname, hvalue⟩ := Prod.mk.inj hn
        rw [serializeMembers, serializeMembers, hname, ih m List.mem_cons_self hvalue,
          ihm (fun z hz => ih z (List.mem_cons_of_mem _ hz)) ns hns]
    rw [serialize, serialize, hitems]

/-! ## The text denotes the data -/

/-- The value has a text that denotes a value with the same data. -/
def Written (v : Json) : Prop :=
  ∃ t w, serialize v = .ok t ∧ ValueText t w ∧ w.data = v.data

theorem written_number {v : Json} {x : Binary64} (h : v.asDouble? = some (.finite x)) :
    Written v := by
  obtain ⟨t, hvalid, htext, hnearest⟩ := canonicalNumber_spec x
  have hdata := Json.data_of_asDouble? h
  exact ⟨t.render, t.toJson, by rw [serialize_of_number hdata, htext], .number t hvalid,
    by rw [Json.data_toJson, hnearest, hdata]⟩

theorem separated_ok (items : List Bytes) :
    separated (items.map Except.ok) = .ok (commaSeparated items) := by
  induction items with
  | nil => rfl
  | cons item items ih =>
    cases items with
    | nil => rfl
    | cons next items =>
      rw [List.map_cons, List.map_cons, separated, commaSeparated, Except.ok_bind]
      rw [List.map_cons] at ih
      rw [ih, Except.ok_bind]

theorem written_array {xs : List Json} (h : ∀ x ∈ xs, Written x) : Written (.array xs) := by
  have hitems : ∃ items : List ElementText,
      (∀ e ∈ items, Whitespace e.before ∧ Whitespace e.after) ∧
      (∀ e ∈ items, ValueText e.text e.value) ∧
      serializeElements xs = (items.map (·.render)).map Except.ok ∧
      (items.map (·.value)).map Json.data = xs.map Json.data := by
    induction xs with
    | nil => exact ⟨[], by simp, by simp, rfl, rfl⟩
    | cons x xs ih =>
      obtain ⟨hx, hxs⟩ := List.forall_mem_cons.mp h
      obtain ⟨t, w, hserialize, htext, hdata⟩ := hx
      obtain ⟨items, hspace, hvalues, htexts, hdatas⟩ := ih hxs
      let item : ElementText := ⟨[], t, [], w⟩
      have hrender : item.render = t := by simp [ElementText.render, item]
      refine ⟨item :: items, List.forall_mem_cons.mpr ⟨?_, hspace⟩,
        List.forall_mem_cons.mpr ⟨htext, hvalues⟩, ?_, ?_⟩
      · simp [Whitespace, item]
      · rw [serializeElements, hserialize, htexts, List.map_cons, List.map_cons, hrender]
      · rw [List.map_cons, List.map_cons, List.map_cons, hdatas, hdata]
  obtain ⟨items, hspace, hvalues, htexts, hdatas⟩ := hitems
  refine ⟨Ascii.leftBracket :: (commaSeparated (items.map (·.render)) ++ [Ascii.rightBracket]),
    .array (items.map (·.value)), ?_, ?_, ?_⟩
  · rw [serialize, htexts, separated_ok, Except.ok_bind]
  · by_cases hempty : items = []
    · subst hempty
      exact ValueText.emptyArray (w := []) (by simp [Whitespace])
    · exact .array items hempty hspace hvalues
  · rw [Json.data, Json.data, Json.dataElements_eq_map, Json.dataElements_eq_map, hdatas]

/-- A member of an object, what the serializer makes of it, and the text that
it writes for it. -/
structure WrittenMember where
  member : Bytes × Json
  sorted : ObjectMember
  item : MemberText
  key : sorted.key = member.1
  order : utf16Units member.1 = .ok sorted.order
  text : serialize member.2 = sorted.text
  output : sorted.output = .ok item.render
  lexical : item.Lexical
  valueText : ValueText item.text item.value
  name : item.member.1 = member.1
  data : item.value.data = member.2.data

theorem exists_writtenMember {m : Bytes × Json} (hname : Utf8.WellFormed m.1)
    (hvalue : Written m.2) : ∃ w : WrittenMember, w.member = m := by
  obtain ⟨cs, hcs⟩ := hname
  obtain ⟨t, v, hserialize, htext, hdata⟩ := hvalue
  obtain ⟨nameText, hnameText, hescaped⟩ := escapedString_encode cs
  let item : MemberText := ⟨[], nameText, cs, [], [], t, [], v⟩
  have hempty : Whitespace [] := by simp [Whitespace]
  refine ⟨⟨m, ⟨m.1, _, .ok t⟩, item, rfl, hcs ▸ utf16Units_encode cs, hserialize, ?_,
    ⟨hempty, hnameText, hempty, hempty, hempty⟩, htext, hcs.symm, hdata⟩, rfl⟩
  rw [ObjectMember.output, hcs, hescaped, Except.ok_bind, Except.ok_bind]
  simp [MemberText.render, item]

theorem exists_map_eq {α β : Type} {f : α → β} {ys : List β} (h : ∀ y ∈ ys, ∃ x, f x = y) :
    ∃ xs : List α, xs.map f = ys := by
  induction ys with
  | nil => exact ⟨[], rfl⟩
  | cons y ys ih =>
    obtain ⟨⟨x, hx⟩, hys⟩ := List.forall_mem_cons.mp h
    obtain ⟨xs, hxs⟩ := ih hys
    exact ⟨x :: xs, by rw [List.map_cons, hx, hxs]⟩

/-- A permutation of an image is the image of a permutation. -/
theorem exists_perm_map {α β : Type} {f : α → β} {xs : List α} {ys : List β}
    (h : ys.Perm (xs.map f)) : ∃ zs : List α, zs.Perm xs ∧ zs.map f = ys := by
  have hcomp : Relation.Comp (fun l l' => l = List.map f l') List.Perm ys xs := by
    rw [List.eq_map_comp_perm]
    exact h
  obtain ⟨zs, heq, hperm⟩ := hcomp
  exact ⟨zs, hperm, heq.symm⟩

theorem objectMembers_writtenMembers (ws : List WrittenMember) :
    objectMembers (serializeMembers (ws.map (·.member))) = .ok (ws.map (·.sorted)) := by
  induction ws with
  | nil => rfl
  | cons w ws ih =>
    have hsorted : w.sorted = ⟨w.member.1, w.sorted.order, serialize w.member.2⟩ := by
      rw [← w.key, w.text]
    rw [List.map_cons, serializeMembers, objectMembers, w.order, Except.ok_bind, ih,
      Except.ok_bind, List.map_cons, ← hsorted]

theorem written_object {ms : List (Bytes × Json)} (hsorted : Json.SortedMembers ms)
    (hnames : ∀ m ∈ ms, Utf8.WellFormed m.1) (hvalues : ∀ m ∈ ms, Written m.2) :
    Written (.object ms) := by
  obtain ⟨ws, rfl⟩ := exists_map_eq fun m hm => exists_writtenMember (hnames m hm) (hvalues m hm)
  have hperm : (sortMembers (ws.map (·.sorted))).Perm (ws.map (·.sorted)) :=
    List.perm_insertionSort _ _
  obtain ⟨zs, hzs, heq⟩ := exists_perm_map hperm
  obtain ⟨items, hitems⟩ : ∃ items, items = zs.map (·.item) := ⟨_, rfl⟩
  have houtput : (sortMembers (ws.map (·.sorted))).map ObjectMember.output =
      (items.map (·.render)).map Except.ok := by
    rw [← heq]
    rw [hitems, List.map_map, List.map_map, List.map_map]
    exact List.map_congr_left fun z _ => z.output
  have hmembers : items.map (fun m => (m.member.1, m.value.data)) =
      zs.map fun z => (z.member.1, z.member.2.data) := by
    rw [hitems, List.map_map]
    exact List.map_congr_left fun z _ => by
      rw [Function.comp_apply, z.name, z.data]
  have hdata : (Json.ofMembers (items.map (·.member))).data =
      (Json.object (ws.map (·.member))).data := by
    refine Json.data_ofMembers hsorted ?_
    rw [List.map_map, List.map_map]
    change (items.map fun m => (m.member.1, m.value.data)).Perm
      (ws.map fun w => (w.member.1, w.member.2.data))
    rw [hmembers]
    exact hzs.map _
  have hdistinct : (items.map (·.member.1)).Nodup := by
    have hnames : items.map (·.member.1) = zs.map (·.member.1) := by
      have := congrArg (List.map Prod.fst) hmembers
      simpa only [List.map_map, Function.comp_def] using this
    rw [hnames, (hzs.map _).nodup_iff]
    have := hsorted.nodup
    rwa [List.map_map] at this
  refine ⟨Ascii.leftBrace :: (commaSeparated (items.map (·.render)) ++ [Ascii.rightBrace]),
    Json.ofMembers (items.map (·.member)), ?_, ?_, hdata⟩
  · rw [serialize, objectMembers_writtenMembers, Except.ok_bind, houtput, separated_ok,
      Except.ok_bind]
  · by_cases hempty : items = []
    · rw [hempty]
      exact ValueText.emptyObject (w := []) (by simp [Whitespace])
    · refine .object items hempty ?_ ?_ hdistinct
      · exact hitems ▸ List.forall_mem_map.mpr fun z _ => z.lexical
      · exact hitems ▸ List.forall_mem_map.mpr fun z _ => z.valueText

/-- A well-formed value with finite numbers has a text, and the text denotes a
value with the same data. -/
theorem serialize_spec {v : Json} (hv : v.WellFormed) (hfinite : v.FiniteNumbers) :
    Written v := by
  induction v using Json.induct with
  | null => exact ⟨_, _, rfl, .null, rfl⟩
  | bool b =>
    cases b with
    | true => exact ⟨_, _, rfl, .true, rfl⟩
    | false => exact ⟨_, _, rfl, .false, rfl⟩
  | string s =>
    cases hv with
    | string utf8 =>
      obtain ⟨cs, rfl⟩ := utf8
      obtain ⟨t, htext, hescaped⟩ := escapedString_encode cs
      exact ⟨_, _, hescaped, .string htext, rfl⟩
  | int64 n =>
    obtain ⟨x, hx⟩ := Json.asDouble?_of_finiteNumbers rfl hfinite
    exact written_number (congrArg some hx)
  | uint64 n =>
    obtain ⟨x, hx⟩ := Json.asDouble?_of_finiteNumbers rfl hfinite
    exact written_number (congrArg some hx)
  | bigint n =>
    obtain ⟨x, hx⟩ := Json.asDouble?_of_finiteNumbers rfl hfinite
    exact written_number (congrArg some hx)
  | double x =>
    obtain ⟨y, hy⟩ := Json.asDouble?_of_finiteNumbers rfl hfinite
    exact written_number (congrArg some hy)
  | array xs ih =>
    cases hv with
    | array elements =>
      cases hfinite with
      | number finite => cases finite
      | array finite => exact written_array fun x hx => ih x hx (elements x hx) (finite x hx)
  | object ms ih =>
    cases hv with
    | object sorted names values =>
      cases hfinite with
      | number finite => cases finite
      | object finite =>
        exact written_object sorted names fun m hm => ih m hm (values m hm) (finite m hm)

/-! ## What has a text -/

theorem isFinite_of_canonicalNumber {x : Double} {t : Bytes} (h : canonicalNumber x = .ok t) :
    x.isFinite = true := by
  cases x with
  | finite y => rfl
  | infinity negative => cases h
  | nan => cases h

theorem finiteNumbers_of_number {v : Json} {x : Double} {t : Bytes} (h : v.asDouble? = some x)
    (htext : canonicalNumber x = .ok t) : v.FiniteNumbers :=
  Json.finiteNumbers_of_isFinite h (isFinite_of_canonicalNumber htext)

theorem ok_of_separated {items : List (Except Thrown Bytes)} {t : Bytes}
    (h : separated items = .ok t) : ∀ item ∈ items, ∃ text, item = .ok text := by
  induction items generalizing t with
  | nil => simp
  | cons item items ih =>
    cases items with
    | nil =>
      intro i hi
      rw [List.mem_singleton] at hi
      rw [hi]
      exact ⟨t, h⟩
    | cons next items =>
      obtain ⟨first, hfirst, h⟩ := Except.bind_eq_ok.mp h
      obtain ⟨output, houtput, _⟩ := Except.bind_eq_ok.mp h
      exact List.forall_mem_cons.mpr ⟨⟨first, hfirst⟩, ih houtput⟩

theorem mem_of_objectMembers {ms : List (Bytes × Except Thrown Bytes)}
    {members : List ObjectMember} (h : objectMembers ms = .ok members) :
    ∀ m ∈ ms, ∃ member ∈ members, member.key = m.1 ∧ member.text = m.2 := by
  induction ms generalizing members with
  | nil => simp
  | cons m ms ih =>
    obtain ⟨order, _, h⟩ := Except.bind_eq_ok.mp h
    obtain ⟨rest, hrest, h⟩ := Except.bind_eq_ok.mp h
    rw [← Except.ok.inj h]
    refine List.forall_mem_cons.mpr ⟨⟨_, List.mem_cons_self, rfl, rfl⟩, fun n hn => ?_⟩
    obtain ⟨member, hmember, heq⟩ := ih hrest n hn
    exact ⟨member, List.mem_cons_of_mem _ hmember, heq⟩

/-- Every member of an object that has a text has a name in UTF-8 and a value
that has a text. -/
theorem members_of_serialize {ms : List (Bytes × Json)} {t : Bytes}
    (h : serialize (.object ms) = .ok t) :
    ∀ m ∈ ms, Utf8.WellFormed m.1 ∧ ∃ text, serialize m.2 = .ok text := by
  intro m hm
  rw [serialize] at h
  obtain ⟨members, hmembers, h⟩ := Except.bind_eq_ok.mp h
  obtain ⟨output, houtput, _⟩ := Except.bind_eq_ok.mp h
  obtain ⟨member, hmember, hkey, htext⟩ := mem_of_objectMembers hmembers (m.1, serialize m.2)
    (by rw [serializeMembers_eq_map]; exact List.mem_map.mpr ⟨m, hm, rfl⟩)
  have hsorted : member ∈ sortMembers members :=
    (List.perm_insertionSort _ _).mem_iff.mpr hmember
  obtain ⟨text, houtput⟩ := ok_of_separated houtput _ (List.mem_map.mpr ⟨member, hsorted, rfl⟩)
  obtain ⟨key, hescaped, houtput⟩ := Except.bind_eq_ok.mp houtput
  obtain ⟨value, hvalue, _⟩ := Except.bind_eq_ok.mp houtput
  rw [hkey] at hescaped
  rw [htext] at hvalue
  exact ⟨escapedString_sound hescaped, value, hvalue⟩

/-- A value that has a text is well formed and has finite numbers. -/
theorem wellFormed_of_serialize {v : Json} {t : Bytes} (hv : v.Ordered)
    (h : serialize v = .ok t) : v.WellFormed ∧ v.FiniteNumbers := by
  induction v using Json.induct generalizing t with
  | null => exact ⟨.null, .null⟩
  | bool b => exact ⟨.bool b, .bool b⟩
  | string s => exact ⟨.string (escapedString_sound h), .string s⟩
  | int64 n => exact ⟨.int64 n, finiteNumbers_of_number rfl h⟩
  | uint64 n => exact ⟨.uint64 n, finiteNumbers_of_number rfl h⟩
  | bigint n => exact ⟨.bigint n, finiteNumbers_of_number rfl h⟩
  | double x => exact ⟨.double x, finiteNumbers_of_number rfl h⟩
  | array xs ih =>
    have hxs : ∀ x ∈ xs, x.Ordered := by
      cases hv with
      | leaf array => cases array
      | array elements => exact elements
    rw [serialize] at h
    obtain ⟨output, houtput, _⟩ := Except.bind_eq_ok.mp h
    rw [serializeElements_eq_map] at houtput
    have hboth : ∀ x ∈ xs, x.WellFormed ∧ x.FiniteNumbers := by
      intro x hx
      obtain ⟨text, htext⟩ := ok_of_separated houtput _ (List.mem_map.mpr ⟨x, hx, rfl⟩)
      exact ih x hx (hxs x hx) htext
    exact ⟨.array fun x hx => (hboth x hx).1, .array fun x hx => (hboth x hx).2⟩
  | object ms ih =>
    have hms : Json.SortedMembers ms ∧ ∀ m ∈ ms, m.2.Ordered := by
      cases hv with
      | leaf _ object => cases object
      | object sorted values => exact ⟨sorted, values⟩
    have hmembers := members_of_serialize h
    have hboth : ∀ m ∈ ms, m.2.WellFormed ∧ m.2.FiniteNumbers := by
      intro m hm
      obtain ⟨_, text, htext⟩ := hmembers m hm
      exact ih m hm (hms.2 m hm) htext
    exact ⟨.object hms.1 (fun m hm => (hmembers m hm).1) fun m hm => (hboth m hm).1,
      .object fun m hm => (hboth m hm).2⟩

/-! ## The round trip -/

variable {jsonParse : Bytes → Except Thrown Json}

/-- The parser reads the canonical text of a value back to the same data. -/
theorem parse_canonicalJson (hparse : DecodesJson jsonParse) {v : Json} {t : Bytes}
    (hv : v.Ordered) (hdepth : v.nesting ≤ maximumDepth) (h : canonicalJson v = .ok t) :
    ∃ w, parseStrictJson jsonParse t = .ok w ∧ SameData w v := by
  obtain ⟨hwf, hfinite⟩ := wellFormed_of_serialize hv h
  obtain ⟨t', w, htext, hvalue, hdata⟩ := serialize_spec hwf hfinite
  rw [canonicalJson, htext, Except.ok.injEq] at h
  subst h
  refine ⟨w, (parseStrictJson_eq_ok hparse).mpr ⟨?_, ?_⟩, hdata⟩
  · exact ⟨[], t', [], by simp [Whitespace], hvalue, by simp [Whitespace], by simp⟩
  · rwa [Json.nesting_eq_of_data hdata]

/-- Values with the same canonical text have the same data. -/
theorem sameData_of_canonicalJson {v w : Json} {t : Bytes} (hv : v.Ordered) (hw : w.Ordered)
    (hdepth : v.nesting ≤ maximumDepth) (hdepth' : w.nesting ≤ maximumDepth)
    (h : canonicalJson v = .ok t) (h' : canonicalJson w = .ok t) : SameData v w := by
  obtain ⟨x, hx, hxv⟩ := parse_canonicalJson decodesJson_referenceParse hv hdepth h
  obtain ⟨y, hy, hyw⟩ := parse_canonicalJson decodesJson_referenceParse hw hdepth' h'
  rw [hx, Except.ok.injEq] at hy
  subst hy
  exact hxv.symm.trans hyw

theorem ordered_of_wellFormed {v : Json} (h : v.WellFormed) : v.Ordered := by
  induction h with
  | array elements ih => exact .array ih
  | object sorted names values ih => exact .object sorted ih
  | _ => exact .leaf rfl rfl

/-- Canonical JSON is a complete and stable encoding of JSON data: every value
has a canonical text, which is parsed to the same data and is the canonical
text of what it is parsed to, and two values have the same text exactly when
they have the same data. -/
theorem canonical_json_complete (hparse : DecodesJson jsonParse) :
    (∀ v : Json, v.WellFormed → v.FiniteNumbers → v.nesting ≤ maximumDepth →
      ∃ t w, canonicalJson v = .ok t ∧ parseStrictJson jsonParse t = .ok w ∧ SameData w v ∧
        canonicalJson w = .ok t) ∧
    (∀ v w : Json, v.WellFormed → v.FiniteNumbers → v.nesting ≤ maximumDepth →
      w.WellFormed → w.FiniteNumbers → w.nesting ≤ maximumDepth →
        (canonicalJson v = canonicalJson w ↔ SameData v w)) := by
  constructor
  · intro v hv hfinite hdepth
    obtain ⟨t, _, htext, _, _⟩ := serialize_spec hv hfinite
    obtain ⟨w, hw, hdata⟩ := parse_canonicalJson hparse (ordered_of_wellFormed hv) hdepth htext
    exact ⟨t, w, htext, hw, hdata, by rw [canonicalJson, serialize_congr hdata, htext]⟩
  · intro v w hv hfinite hdepth hw _ hdepth'
    obtain ⟨t, _, htext, _, _⟩ := serialize_spec hv hfinite
    refine ⟨fun h => ?_, fun h => (serialize_congr h.symm).symm⟩
    exact sameData_of_canonicalJson (ordered_of_wellFormed hv) (ordered_of_wellFormed hw) hdepth
      hdepth' htext (by rw [← h]; exact htext)

theorem canonical_json_complete_reference :
    ∃ t w, canonicalJson (.array [.int64 (-1), .string (ascii "a")]) = .ok t ∧
      parseStrictJson referenceParse t = .ok w ∧
      SameData w (.array [.int64 (-1), .string (ascii "a")]) ∧ canonicalJson w = .ok t := by
  have hutf8 : Utf8.WellFormed (ascii "a") := ⟨['a'], by decide⟩
  have hnumber : (Json.int64 (-1)).FiniteNumbers :=
    Json.finiteNumbers_of_isFinite rfl (by decide +kernel)
  refine (canonical_json_complete decodesJson_referenceParse).1 _ (.array ?_) (.array ?_)
    (by decide)
  · exact List.forall_mem_cons.mpr ⟨.int64 _, List.forall_mem_singleton.mpr (.string hutf8)⟩
  · exact List.forall_mem_cons.mpr ⟨hnumber, List.forall_mem_singleton.mpr (.string _)⟩

end MissionWeave.Canonical
