import MissionWeave.Json.Spelling

/-!
# The names in what is read

The reader takes a spelling off the text in one way only, so it comes past
every name of every object.

* `distinct_of_decode`: what is decoded has distinct names.
* `decode_iff_distinct`: a spelling is decoded exactly if its names are
  distinct, as deep as the scanner lets it.
-/

namespace MissionWeave

open Decoder
open StrictScanner (isWhitespace maximumDepth)

/-! ## Strings -/

section

variable {fuel loop depth : Nat} {decoded s t rest after : Bytes} {cs : List Char}

theorem stringLoop_reads (h : StringText t cs)
    (hread : stringLoop fuel decoded (t ++ Ascii.quote :: rest) = some (s, after)) :
    s = decoded ++ Utf8.encodeAll cs ∧ after = rest := by
  induction h generalizing fuel decoded with
  | nil =>
    cases fuel with
    | zero => cases hread
    | succ fuel =>
      rw [List.nil_append, stringLoop, if_pos rfl, Option.some.injEq, Prod.mk.injEq] at hread
      rw [Utf8.encodeAll_nil, List.append_nil]
      exact ⟨hread.1.symm, hread.2.symm⟩
  | cons head tail ih =>
    cases fuel with
    | zero => cases hread
    | succ fuel =>
      rw [List.append_assoc, stringLoop_char head] at hread
      rw [Utf8.encodeAll_cons, ← List.append_assoc]
      exact ih hread

theorem string_reads (h : StringText t cs)
    (hread : string loop (Ascii.quote :: (t ++ Ascii.quote :: rest)) = some (s, after)) :
    s = Utf8.encodeAll cs ∧ after = rest := by
  rw [string, byte_cons, Option.bind_eq_bind, Option.bind_some] at hread
  exact stringLoop_reads h hread

end

/-! ## Values -/

/-- Whatever the reader returns in front of the text, it has taken the text off
and found the property. -/
def ReadsOnly (loop : Nat) (t : Bytes) (p : Prop) : Prop :=
  ∀ (fuel depth : Nat) (w rest after : Bytes) (v : Json), Whitespace w → Follows rest →
    value loop fuel depth (w ++ (t ++ rest)) = some (v, after) → p ∧ after = rest

section

variable {fuel loop depth : Nat} {rest after : Bytes}

/-- The text stands before whitespace and a delimiter. -/
theorem ReadsOnly.before {t w w' : Bytes} {p : Prop} {b : UInt8} {v : Json}
    (h : ReadsOnly loop t p) (hw : Whitespace w) (hw' : Whitespace w')
    (hb : continuesNumber b = false)
    (hread : value loop fuel depth (w ++ (t ++ (w' ++ b :: rest))) = some (v, after)) :
    p ∧ after = w' ++ b :: rest :=
  h _ _ _ _ _ _ hw (follows_append hw' (startsNot_cons.mpr hb)) hread

theorem ReadsOnly.imp {t : Bytes} {p q : Prop} (h : ReadsOnly loop t p) (hpq : p → q) :
    ReadsOnly loop t q := fun _ _ _ _ _ _ hw hrest hread =>
  ⟨hpq (h _ _ _ _ _ _ hw hrest hread).1, (h _ _ _ _ _ _ hw hrest hread).2⟩

/-- It is enough to read a value from where it starts. -/
theorem ReadsOnly.of_start {b : UInt8} {t : Bytes} {p : Prop} (hb : isWhitespace b = false)
    (h : ∀ fuel depth rest after v, depth ≤ maximumDepth → Follows rest →
      value loop (fuel + 1) depth (b :: (t ++ rest)) = some (v, after) → p ∧ after = rest) :
    ReadsOnly loop (b :: t) p := by
  intro fuel depth w rest after v hw hrest hread
  rw [← value_skipWhitespace, List.cons_append,
    skipWhitespace_append hw (startsNot_cons.mpr hb)] at hread
  cases fuel with
  | zero =>
    rw [value] at hread
    cases hread
  | succ fuel =>
    by_cases hdepth : maximumDepth < depth
    · rw [value, if_pos hdepth] at hread
      cases hread
    · exact h fuel depth rest after v (Nat.not_lt.mp hdepth) hrest hread

theorem readsOnly_literal {b : UInt8} {t : Bytes} {v : Json} (hb : isWhitespace b = false)
    (h : ∀ fuel depth rest, depth ≤ maximumDepth →
      value loop (fuel + 1) depth (b :: (t ++ rest)) = literal (b :: t) v (b :: (t ++ rest))) :
    ReadsOnly loop (b :: t) True := by
  refine ReadsOnly.of_start hb fun fuel depth rest after w hdepth _ hread => ?_
  have hliteral : literal (b :: t) v (b :: (t ++ rest)) = some (v, rest) := literal_complete
  rw [h fuel depth rest hdepth, hliteral, Option.some.injEq, Prod.mk.injEq] at hread
  exact ⟨trivial, hread.2.symm⟩

theorem readsOnly_number {n : NumberText} (h : n.Valid) : ReadsOnly loop n.render True := by
  obtain ⟨b, t, heq, hb⟩ := valueText_head (.number n h)
  have hvalue (fuel depth : Nat) (rest : Bytes) (hdepth : depth ≤ maximumDepth)
      (hrest : Follows rest) :
      value loop (fuel + 1) depth (n.render ++ rest) = some (n.toJson, rest) :=
    value_number h hdepth hrest
  rw [heq] at hvalue ⊢
  refine ReadsOnly.of_start (startsValue_spec hb).1 ?_
  intro fuel depth rest after v hdepth hrest hread
  rw [← List.cons_append, hvalue fuel depth rest hdepth hrest, Option.some.injEq,
    Prod.mk.injEq] at hread
  exact ⟨trivial, hread.2.symm⟩

theorem readsOnly_string {t : Bytes} {cs : List Char} (h : StringText t cs) :
    ReadsOnly loop (Ascii.quote :: (t ++ [Ascii.quote])) True := by
  refine ReadsOnly.of_start rfl fun fuel depth rest after v hdepth _ hread => ?_
  rw [value_string hdepth, List.append_assoc, List.singleton_append,
    Option.map_eq_some_iff] at hread
  obtain ⟨⟨s, after'⟩, hstring, heq⟩ := hread
  rw [Prod.mk.injEq] at heq
  rw [← heq.2]
  exact ⟨trivial, (string_reads h hstring).2⟩

theorem readsOnly_emptyArray {w : Bytes} (hw : Whitespace w) :
    ReadsOnly loop (Ascii.leftBracket :: (w ++ [Ascii.rightBracket])) True := by
  refine ReadsOnly.of_start rfl fun fuel depth rest after v hdepth _ hread => ?_
  rw [value_array hdepth, List.append_assoc, List.singleton_append] at hread
  cases fuel with
  | zero =>
    rw [array] at hread
    cases hread
  | succ fuel =>
    rw [array_empty hw, Option.map_some, Option.some.injEq, Prod.mk.injEq] at hread
    exact ⟨trivial, hread.2.symm⟩

theorem readsOnly_emptyObject {w : Bytes} (hw : Whitespace w) :
    ReadsOnly loop (Ascii.leftBrace :: (w ++ [Ascii.rightBrace])) True := by
  refine ReadsOnly.of_start rfl fun fuel depth rest after v hdepth _ hread => ?_
  rw [value_object hdepth, List.append_assoc, List.singleton_append] at hread
  cases fuel with
  | zero =>
    rw [object] at hread
    cases hread
  | succ fuel =>
    rw [object_empty hw, Option.map_some, Option.some.injEq, Prod.mk.injEq] at hread
    exact ⟨trivial, hread.2.symm⟩

end

/-! ## Elements and members -/

section

variable {σ : Type} {fuel loop depth : Nat} {names : List Bytes} {rest after : Bytes}

/-- One element is taken off, and the array is closed or goes on. -/
theorem element_reads {e : SpelledElement σ} {p : Prop} {b : UInt8} {tail : Bytes} {xs : List Json}
    (hspace : Whitespace e.before ∧ Whitespace e.after) (h : ReadsOnly loop e.text p)
    (hb : b = Ascii.rightBracket ∨ b = Ascii.comma)
    (hread : elements loop (fuel + 1) depth (e.render ++ b :: tail) = some (xs, after)) :
    p ∧ (b = Ascii.rightBracket → after = tail) ∧
      (b = Ascii.comma → ∃ xs', elements loop fuel depth tail = some (xs', after)) := by
  obtain ⟨hbefore, hafter⟩ := hspace
  have hrender : e.render ++ b :: tail = e.before ++ (e.text ++ (e.after ++ b :: tail)) := by
    simp [SpelledElement.render]
  rw [hrender, elements] at hread
  obtain ⟨⟨v, rest⟩, hvalue, hread⟩ := Option.bind_eq_some_iff.mp hread
  dsimp only at hread
  rcases hb with rfl | rfl
  · obtain ⟨hp, rfl⟩ := h.before hbefore hafter rfl hvalue
    rw [byte_skipWhitespace hafter rfl, Option.some.injEq, Prod.mk.injEq] at hread
    exact ⟨hp, fun _ => hread.2.symm, fun h => absurd h (by decide)⟩
  · obtain ⟨hp, rfl⟩ := h.before hbefore hafter rfl hvalue
    rw [byte_skipWhitespace_none hafter rfl (by decide)] at hread
    dsimp only at hread
    rw [byte_skipWhitespace hafter rfl, Option.bind_eq_bind, Option.bind_some] at hread
    obtain ⟨⟨vs, rest⟩, hmore, hread⟩ := Option.bind_eq_some_iff.mp hread
    rw [Option.some.injEq, Prod.mk.injEq] at hread
    obtain ⟨_, rfl⟩ := hread
    exact ⟨hp, fun h => absurd h (by decide), fun _ => ⟨vs, hmore⟩⟩

theorem elements_reads {items : List (SpelledElement σ)} {p : SpelledElement σ → Prop}
    {xs : List Json} (hnonempty : items ≠ [])
    (hspace : ∀ e ∈ items, Whitespace e.before ∧ Whitespace e.after)
    (hreads : ∀ e ∈ items, ReadsOnly loop e.text (p e))
    (hread : elements loop fuel depth
      (commaSeparated (items.map (·.render)) ++ Ascii.rightBracket :: rest) = some (xs, after)) :
    (∀ e ∈ items, p e) ∧ after = rest := by
  induction items generalizing fuel xs with
  | nil => exact absurd rfl hnonempty
  | cons e items ih =>
    obtain ⟨hfirst, hspaces⟩ := List.forall_mem_cons.mp hspace
    obtain ⟨hvalue, hmore⟩ := List.forall_mem_cons.mp hreads
    cases fuel with
    | zero =>
      rw [elements] at hread
      cases hread
    | succ fuel =>
      by_cases hlast : items = []
      · subst hlast
        obtain ⟨hp, hclosed, _⟩ := element_reads hfirst hvalue (.inl rfl) hread
        exact ⟨List.forall_mem_singleton.mpr hp, hclosed rfl⟩
      · have hmap : items.map (·.render) ≠ [] := by simpa using hlast
        rw [List.map_cons, commaSeparated_cons hmap, List.append_assoc, List.cons_append] at hread
        obtain ⟨hp, _, hcomma⟩ := element_reads hfirst hvalue (.inr rfl) hread
        obtain ⟨xs', hread⟩ := hcomma rfl
        obtain ⟨hall, hrest⟩ := ih hlast hspaces hmore hread
        exact ⟨List.forall_mem_cons.mpr ⟨hp, hall⟩, hrest⟩

variable {Text : Bytes → σ → Prop} {chars : σ → List Char}

/-- One member is taken off, and the object is closed or goes on with its name
among those that were seen. -/
theorem member_reads (hText : ∀ t s, Text t s → StringText t (chars s)) {m : SpelledMember σ}
    {p : Prop} {b : UInt8} {tail : Bytes} {ms : List (Bytes × Json)} (hlexical : m.Lexical Text)
    (h : ReadsOnly loop m.text p) (hb : b = Ascii.rightBrace ∨ b = Ascii.comma)
    (hread : members loop (fuel + 1) depth names (m.render ++ b :: tail) = some (ms, after)) :
    p ∧ Utf8.encodeAll (chars m.name) ∉ names ∧ (b = Ascii.rightBrace → after = tail) ∧
      (b = Ascii.comma → ∃ ms',
        members loop fuel depth (Utf8.encodeAll (chars m.name) :: names) tail =
          some (ms', after)) := by
  obtain ⟨hbeforeName, hname, hafterName, hbeforeValue, hafterValue⟩ := hlexical
  have hrender : m.render ++ b :: tail =
      m.beforeName ++ Ascii.quote :: (m.nameText ++ Ascii.quote :: (m.afterName ++
        Ascii.colon :: (m.beforeValue ++ (m.text ++ (m.afterValue ++ b :: tail))))) := by
    simp [SpelledMember.render]
  rw [hrender, members, skipWhitespace_append hbeforeName (startsNot_cons.mpr rfl)] at hread
  obtain ⟨⟨name, rest⟩, hstring, hread⟩ := Option.bind_eq_some_iff.mp hread
  obtain ⟨rfl, rfl⟩ := string_reads (hText _ _ hname) hstring
  dsimp only at hread
  by_cases hseen : Utf8.encodeAll (chars m.name) ∈ names
  · rw [if_pos hseen] at hread
    cases hread
  rw [if_neg hseen, byte_skipWhitespace hafterName rfl, Option.bind_eq_bind,
    Option.bind_some] at hread
  obtain ⟨⟨v, rest⟩, hvalue, hread⟩ := Option.bind_eq_some_iff.mp hread
  dsimp only at hread
  rcases hb with rfl | rfl
  · obtain ⟨hp, rfl⟩ := h.before hbeforeValue hafterValue rfl hvalue
    rw [byte_skipWhitespace hafterValue rfl, Option.some.injEq, Prod.mk.injEq] at hread
    exact ⟨hp, hseen, fun _ => hread.2.symm, fun h => absurd h (by decide)⟩
  · obtain ⟨hp, rfl⟩ := h.before hbeforeValue hafterValue rfl hvalue
    rw [byte_skipWhitespace_none hafterValue rfl (by decide)] at hread
    dsimp only at hread
    rw [byte_skipWhitespace hafterValue rfl, Option.bind_eq_bind, Option.bind_some] at hread
    obtain ⟨⟨vs, rest⟩, hmore, hread⟩ := Option.bind_eq_some_iff.mp hread
    rw [Option.some.injEq, Prod.mk.injEq] at hread
    obtain ⟨_, rfl⟩ := hread
    exact ⟨hp, hseen, fun h => absurd h (by decide), fun _ => ⟨vs, hmore⟩⟩

theorem members_reads (hText : ∀ t s, Text t s → StringText t (chars s))
    {items : List (SpelledMember σ)} {p : SpelledMember σ → Prop} {ms : List (Bytes × Json)}
    (hnonempty : items ≠ []) (hlexical : ∀ m ∈ items, m.Lexical Text)
    (hreads : ∀ m ∈ items, ReadsOnly loop m.text (p m))
    (hread : members loop fuel depth names
      (commaSeparated (items.map (·.render)) ++ Ascii.rightBrace :: rest) = some (ms, after)) :
    (∀ m ∈ items, p m) ∧ (items.map fun m => chars m.name).Nodup ∧
      (∀ m ∈ items, Utf8.encodeAll (chars m.name) ∉ names) ∧ after = rest := by
  induction items generalizing fuel names ms with
  | nil => exact absurd rfl hnonempty
  | cons m items ih =>
    obtain ⟨hfirst, hlexicals⟩ := List.forall_mem_cons.mp hlexical
    obtain ⟨hvalue, hmore⟩ := List.forall_mem_cons.mp hreads
    cases fuel with
    | zero =>
      rw [members] at hread
      cases hread
    | succ fuel =>
      by_cases hlast : items = []
      · subst hlast
        obtain ⟨hp, hseen, hclosed, _⟩ := member_reads hText hfirst hvalue (.inl rfl) hread
        exact ⟨List.forall_mem_singleton.mpr hp, List.nodup_singleton _,
          List.forall_mem_singleton.mpr hseen, hclosed rfl⟩
      · have hmap : items.map (·.render) ≠ [] := by simpa using hlast
        rw [List.map_cons, commaSeparated_cons hmap, List.append_assoc, List.cons_append] at hread
        obtain ⟨hp, hseen, _, hcomma⟩ := member_reads hText hfirst hvalue (.inr rfl) hread
        obtain ⟨ms', hread⟩ := hcomma rfl
        obtain ⟨hall, hnodup, hfresh, hrest⟩ := ih hlast hlexicals hmore hread
        -- the name at hand was among those that the later ones were compared with
        have hnew : chars m.name ∉ items.map fun m => chars m.name := by
          intro hmem
          obtain ⟨other, hother, heq⟩ := List.mem_map.mp hmem
          refine hfresh other hother ?_
          rw [heq]
          exact List.mem_cons_self
        exact ⟨List.forall_mem_cons.mpr ⟨hp, hall⟩, List.nodup_cons.mpr ⟨hnew, hnodup⟩,
          List.forall_mem_cons.mpr
            ⟨hseen, fun x hx hmem => hfresh x hx (List.mem_cons_of_mem _ hmem)⟩, hrest⟩

end

/-! ## Whole texts -/

section

variable {σ : Type} {Text : Bytes → σ → Prop} {chars : σ → List Char} {t text : Bytes}
  {r : Spelling σ} {loop : Nat}

theorem spells_head (h : Spells Text t r) : ∃ b t', t = b :: t' ∧ startsValue b = true := by
  cases h with
  | number n valid => exact valueText_head (.number n valid)
  | _ => exact ⟨_, _, rfl, rfl⟩

theorem readsOnly_array {items : List (SpelledElement σ)} (hnonempty : items ≠ [])
    (hspace : ∀ e ∈ items, Whitespace e.before ∧ Whitespace e.after)
    (hvalues : ∀ e ∈ items, Spells Text e.text e.value)
    (hreads : ∀ e ∈ items, ReadsOnly loop e.text (e.value.Distinct chars)) :
    ReadsOnly loop
      (Ascii.leftBracket :: (commaSeparated (items.map (·.render)) ++ [Ascii.rightBracket]))
      ((Spelling.array (items.map (·.value))).Distinct chars) := by
  refine ReadsOnly.of_start rfl fun fuel depth rest after v hdepth _ hread => ?_
  have hopen : byte Ascii.rightBracket
      (skipWhitespace (commaSeparated (items.map (·.render)) ++ Ascii.rightBracket :: rest)) =
        none := by
    obtain ⟨e, items, rfl⟩ := List.exists_cons_of_ne_nil hnonempty
    obtain ⟨more, hmore⟩ := commaSeparated_head e.render (items.map (·.render))
    obtain ⟨b, t, ht, hb⟩ := spells_head (hvalues e List.mem_cons_self)
    rw [List.map_cons, hmore, SpelledElement.render, ht, List.append_assoc, List.append_assoc,
      List.append_assoc]
    exact byte_of_elements (hspace e List.mem_cons_self).1 hb
  rw [value_array hdepth, List.append_assoc, List.singleton_append,
    Option.map_eq_some_iff] at hread
  obtain ⟨⟨xs, after'⟩, harray, heq⟩ := hread
  cases fuel with
  | zero =>
    rw [array] at harray
    cases harray
  | succ fuel =>
    rw [array_open hopen] at harray
    obtain ⟨hall, hrest⟩ := elements_reads hnonempty hspace hreads harray
    rw [Prod.mk.injEq] at heq
    exact ⟨.array (List.forall_mem_map.mpr hall), heq.2.symm.trans hrest⟩

theorem readsOnly_object (hText : ∀ t s, Text t s → StringText t (chars s))
    {items : List (SpelledMember σ)} (hnonempty : items ≠ [])
    (hlexical : ∀ m ∈ items, m.Lexical Text)
    (hreads : ∀ m ∈ items, ReadsOnly loop m.text (m.value.Distinct chars)) :
    ReadsOnly loop
      (Ascii.leftBrace :: (commaSeparated (items.map (·.render)) ++ [Ascii.rightBrace]))
      ((Spelling.object (items.map (·.member))).Distinct chars) := by
  refine ReadsOnly.of_start rfl fun fuel depth rest after v hdepth _ hread => ?_
  have hopen : byte Ascii.rightBrace
      (skipWhitespace (commaSeparated (items.map (·.render)) ++ Ascii.rightBrace :: rest)) =
        none := by
    obtain ⟨m, items, rfl⟩ := List.exists_cons_of_ne_nil hnonempty
    obtain ⟨more, hmore⟩ := commaSeparated_head m.render (items.map (·.render))
    rw [List.map_cons, hmore, SpelledMember.render]
    simp only [List.append_assoc, List.cons_append]
    exact byte_skipWhitespace_none (hlexical m List.mem_cons_self).beforeName rfl (by decide)
  rw [value_object hdepth, List.append_assoc, List.singleton_append,
    Option.map_eq_some_iff] at hread
  obtain ⟨⟨ms, after'⟩, hobject, heq⟩ := hread
  cases fuel with
  | zero =>
    rw [object] at hobject
    cases hobject
  | succ fuel =>
    rw [object_open hopen] at hobject
    obtain ⟨hall, hnodup, _, hrest⟩ := members_reads hText hnonempty hlexical hreads hobject
    rw [Prod.mk.injEq] at heq
    refine ⟨.object ?_ (List.forall_mem_map.mpr hall), heq.2.symm.trans hrest⟩
    rw [List.map_map]
    exact hnodup

/-- The reader comes past every name. -/
theorem readsOnly_of_spells (hText : ∀ t s, Text t s → StringText t (chars s))
    (h : Spells Text t r) : ReadsOnly loop t (r.Distinct chars) := by
  induction h with
  | null =>
    exact (readsOnly_literal rfl fun _ _ _ hdepth => value_null hdepth).imp fun _ => .null
  | true =>
    exact (readsOnly_literal rfl fun _ _ _ hdepth => value_true hdepth).imp fun _ => .bool _
  | false =>
    exact (readsOnly_literal rfl fun _ _ _ hdepth => value_false hdepth).imp fun _ => .bool _
  | number n valid => exact (readsOnly_number valid).imp fun _ => .number n
  | string text => exact (readsOnly_string (hText _ _ text)).imp fun _ => .string _
  | emptyArray space => exact (readsOnly_emptyArray space).imp fun _ => .array (by simp)
  | emptyObject space =>
    exact (readsOnly_emptyObject space).imp fun _ => .object (by simp) (by simp)
  | array items nonempty space values ih => exact readsOnly_array nonempty space values ih
  | object items nonempty lexical values ih => exact readsOnly_object hText nonempty lexical ih

/-- What is decoded has distinct names. -/
theorem SpelledJson.distinct_of_decode (hText : ∀ t s, Text t s → StringText t (chars s))
    (h : SpelledJson Text text r) {v : Json} (hdecode : decode text = some v) :
    r.Distinct chars := by
  obtain ⟨before, t, after, hbefore, ht, hafter, rfl⟩ := h
  have hfollows : Follows after := by
    have := follows_append hafter (StartsNot.nil continuesNumber)
    rwa [List.append_nil] at this
  rw [decode, value_skipWhitespace] at hdecode
  obtain ⟨⟨w, rest⟩, hvalue, _⟩ := Option.bind_eq_some_iff.mp hdecode
  exact (readsOnly_of_spells hText ht _ _ _ _ _ _ hbefore hfollows hvalue).1

/-- A spelling that is not too deep is decoded exactly if its names are
distinct. -/
theorem SpelledJson.decode_iff_distinct (hText : ∀ t s, Text t s → StringText t (chars s))
    (h : SpelledJson Text text r) (hdepth : r.nesting ≤ maximumDepth) :
    (∃ v, decode text = some v) ↔ r.Distinct chars := by
  constructor
  · intro hdecode
    obtain ⟨v, hdecode⟩ := hdecode
    exact h.distinct_of_decode hText hdecode
  · intro hdistinct
    obtain ⟨before, t, after, hbefore, ht, hafter, rfl⟩ := h
    obtain ⟨v, hv, hnesting⟩ := ht.exists_valueText hText hdistinct
    exact ⟨v, decode_complete ⟨before, t, after, hbefore, hv, hafter, rfl⟩ (hnesting.trans hdepth)⟩

end

end MissionWeave
