import MissionWeave.Json.Data
import MissionWeave.Json.Strict

/-!
# The grammar over other strings

The grammar of `Json.Grammar` with another notion of a string, and without the
condition that names are distinct.  A text determines more than a value then:
`Spelling` keeps the members of an object in the order of the text, a repeated
name included.

* `exists_valueText`: a spelling with distinct names denotes a value, if its
  strings are those of JSON.
-/

namespace MissionWeave

/-- A value as a text spells it. -/
inductive Spelling (σ : Type)
  | null
  | bool (value : Bool)
  | number (n : NumberText)
  | string (s : σ)
  | array (elements : List (Spelling σ))
  | object (members : List (σ × Spelling σ))

/-- An element of an array, with the whitespace around it. -/
structure SpelledElement (σ : Type) where
  before : Bytes
  text : Bytes
  after : Bytes
  value : Spelling σ

/-- A member of an object, with the whitespace around its name and its value. -/
structure SpelledMember (σ : Type) where
  beforeName : Bytes
  nameText : Bytes
  name : σ
  afterName : Bytes
  beforeValue : Bytes
  text : Bytes
  afterValue : Bytes
  value : Spelling σ

namespace Spelling

variable {σ κ : Type}

/-! ## Conditions on spellings -/

mutual

/-- The greatest number of containers around a value in it. -/
def nesting : Spelling σ → Nat
  | .array xs => nestingElements xs
  | .object ms => nestingMembers ms
  | _ => 0

def nestingElements : List (Spelling σ) → Nat
  | [] => 0
  | x :: xs => max (nesting x + 1) (nestingElements xs)

def nestingMembers : List (σ × Spelling σ) → Nat
  | [] => 0
  | (_, value) :: ms => max (nesting value + 1) (nestingMembers ms)

end

theorem nestingElements_le {xs : List (Spelling σ)} {n : Nat} :
    nestingElements xs ≤ n ↔ ∀ x ∈ xs, x.nesting + 1 ≤ n := by
  induction xs with
  | nil => simp [nestingElements]
  | cons x xs ih => rw [nestingElements, max_le_iff, ih, List.forall_mem_cons]

theorem nestingMembers_le {ms : List (σ × Spelling σ)} {n : Nat} :
    nestingMembers ms ≤ n ↔ ∀ m ∈ ms, m.2.nesting + 1 ≤ n := by
  induction ms with
  | nil => simp [nestingMembers]
  | cons m ms ih => rw [nestingMembers, max_le_iff, ih, List.forall_mem_cons]

/-- The names of every object are distinct under a key. -/
inductive Distinct (key : σ → κ) : Spelling σ → Prop
  | null : Distinct key .null
  | bool (b : Bool) : Distinct key (.bool b)
  | number (n : NumberText) : Distinct key (.number n)
  | string (s : σ) : Distinct key (.string s)
  | array {xs : List (Spelling σ)} (elements : ∀ x ∈ xs, Distinct key x) : Distinct key (.array xs)
  | object {ms : List (σ × Spelling σ)} (names : (ms.map fun m => key m.1).Nodup)
      (values : ∀ m ∈ ms, Distinct key m.2) : Distinct key (.object ms)

/-- Some string or name has the property. -/
inductive Mentions (p : σ → Prop) : Spelling σ → Prop
  | string {s : σ} (holds : p s) : Mentions p (.string s)
  | element {xs : List (Spelling σ)} {x : Spelling σ} (mem : x ∈ xs) (inside : Mentions p x) :
      Mentions p (.array xs)
  | name {ms : List (σ × Spelling σ)} {m : σ × Spelling σ} (mem : m ∈ ms) (holds : p m.1) :
      Mentions p (.object ms)
  | value {ms : List (σ × Spelling σ)} {m : σ × Spelling σ} (mem : m ∈ ms)
      (inside : Mentions p m.2) : Mentions p (.object ms)

end Spelling

/-! ## The grammar -/

section

variable {σ : Type}

def SpelledElement.render (e : SpelledElement σ) : Bytes := e.before ++ (e.text ++ e.after)

def SpelledMember.render (m : SpelledMember σ) : Bytes :=
  m.beforeName ++ Ascii.quote :: (m.nameText ++ Ascii.quote ::
    (m.afterName ++ Ascii.colon :: (m.beforeValue ++ (m.text ++ m.afterValue))))

def SpelledMember.member (m : SpelledMember σ) : σ × Spelling σ := (m.name, m.value)

variable (Text : Bytes → σ → Prop)

/-- The parts of a member that are not its value. -/
structure SpelledMember.Lexical (m : SpelledMember σ) : Prop where
  beforeName : Whitespace m.beforeName
  name : Text m.nameText m.name
  afterName : Whitespace m.afterName
  beforeValue : Whitespace m.beforeValue
  afterValue : Whitespace m.afterValue

/-- `value`, over the strings of `Text`. -/
inductive Spells : Bytes → Spelling σ → Prop
  | null : Spells (ascii "null") .null
  | true : Spells (ascii "true") (.bool true)
  | false : Spells (ascii "false") (.bool false)
  | number (n : NumberText) (valid : n.Valid) : Spells n.render (.number n)
  | string {t : Bytes} {s : σ} (text : Text t s) :
      Spells (Ascii.quote :: (t ++ [Ascii.quote])) (.string s)
  | emptyArray {w : Bytes} (space : Whitespace w) :
      Spells (Ascii.leftBracket :: (w ++ [Ascii.rightBracket])) (.array [])
  | array (items : List (SpelledElement σ)) (nonempty : items ≠ [])
      (space : ∀ e ∈ items, Whitespace e.before ∧ Whitespace e.after)
      (values : ∀ e ∈ items, Spells e.text e.value) :
      Spells
        (Ascii.leftBracket :: (commaSeparated (items.map (·.render)) ++ [Ascii.rightBracket]))
        (.array (items.map (·.value)))
  | emptyObject {w : Bytes} (space : Whitespace w) :
      Spells (Ascii.leftBrace :: (w ++ [Ascii.rightBrace])) (.object [])
  | object (items : List (SpelledMember σ)) (nonempty : items ≠ [])
      (lexical : ∀ m ∈ items, m.Lexical Text) (values : ∀ m ∈ items, Spells m.text m.value) :
      Spells
        (Ascii.leftBrace :: (commaSeparated (items.map (·.render)) ++ [Ascii.rightBrace]))
        (.object (items.map (·.member)))

/-- `JSON-text = ws value ws`, over the strings of `Text`. -/
def SpelledJson (bytes : Bytes) (r : Spelling σ) : Prop :=
  ∃ before text after, Whitespace before ∧ Spells Text text r ∧ Whitespace after ∧
    bytes = before ++ (text ++ after)

end

/-! ## Distinct names -/

section

variable {σ : Type} {Text : Bytes → σ → Prop} {chars : σ → List Char} {t : Bytes} {r : Spelling σ}

theorem exists_arrayText {items : List (SpelledElement σ)} (hnonempty : items ≠ [])
    (hspace : ∀ e ∈ items, Whitespace e.before ∧ Whitespace e.after)
    (hvalues : ∀ e ∈ items, ∃ v, ValueText e.text v ∧ v.nesting ≤ e.value.nesting) :
    ∃ v, ValueText
        (Ascii.leftBracket :: (commaSeparated (items.map (·.render)) ++ [Ascii.rightBracket])) v ∧
      v.nesting ≤ (Spelling.array (items.map (·.value))).nesting := by
  have hnull : Nonempty Json := ⟨.null⟩
  choose! f hf using hvalues
  let texts : List ElementText := items.map fun e => ⟨e.before, e.text, e.after, f e⟩
  have hrender : texts.map (·.render) = items.map (·.render) := List.map_map
  have htext : ValueText _ (.array (texts.map (·.value))) := .array texts
    (by simpa [texts] using hnonempty) (List.forall_mem_map.mpr hspace)
    (List.forall_mem_map.mpr fun e he => (hf e he).1)
  rw [hrender] at htext
  refine ⟨_, htext, ?_⟩
  have hle := Spelling.nestingElements_le.mp
    (Nat.le_refl (Spelling.nestingElements (items.map (·.value))))
  rw [Json.nesting, Json.nestingElements_le, Spelling.nesting]
  refine List.forall_mem_map.mpr (List.forall_mem_map.mpr fun e he => ?_)
  exact (Nat.add_le_add_right (hf e he).2 1).trans (hle _ (List.mem_map_of_mem he))

theorem exists_objectText (hText : ∀ t s, Text t s → StringText t (chars s))
    {items : List (SpelledMember σ)} (hnonempty : items ≠ [])
    (hlexical : ∀ m ∈ items, m.Lexical Text)
    (hvalues : ∀ m ∈ items, ∃ v, ValueText m.text v ∧ v.nesting ≤ m.value.nesting)
    (hnames : ((items.map (·.member)).map fun m => chars m.1).Nodup) :
    ∃ v, ValueText
        (Ascii.leftBrace :: (commaSeparated (items.map (·.render)) ++ [Ascii.rightBrace])) v ∧
      v.nesting ≤ (Spelling.object (items.map (·.member))).nesting := by
  have hnull : Nonempty Json := ⟨.null⟩
  choose! f hf using hvalues
  let texts : List MemberText := items.map fun m =>
    ⟨m.beforeName, m.nameText, chars m.name, m.afterName, m.beforeValue, m.text, m.afterValue, f m⟩
  have hrender : texts.map (·.render) = items.map (·.render) := List.map_map
  have hlexicals : ∀ m ∈ texts, m.Lexical := List.forall_mem_map.mpr fun m hm =>
    ⟨(hlexical m hm).beforeName, hText _ _ (hlexical m hm).name, (hlexical m hm).afterName,
      (hlexical m hm).beforeValue, (hlexical m hm).afterValue⟩
  have hdistinct : (texts.map (·.member.1)).Nodup := by
    have hencoded := hnames.map Utf8.encodeAll_injective
    rw [List.map_map, List.map_map] at hencoded
    rw [List.map_map]
    exact hencoded
  have htext : ValueText _ (Json.ofMembers (texts.map (·.member))) := .object texts
    (by simpa [texts] using hnonempty) hlexicals
    (List.forall_mem_map.mpr fun m hm => (hf m hm).1) hdistinct
  rw [hrender] at htext
  refine ⟨_, htext, Json.nesting_ofMembers_le ?_⟩
  have hle := Spelling.nestingMembers_le.mp
    (Nat.le_refl (Spelling.nestingMembers (items.map (·.member))))
  refine List.forall_mem_map.mpr (List.forall_mem_map.mpr fun m hm => ?_)
  rw [Spelling.nesting]
  exact (Nat.add_le_add_right (hf m hm).2 1).trans (hle m.member (List.mem_map_of_mem hm))

/-- What a spelling with distinct names denotes. -/
theorem Spells.exists_valueText (hText : ∀ t s, Text t s → StringText t (chars s))
    (h : Spells Text t r) (hdistinct : r.Distinct chars) :
    ∃ v, ValueText t v ∧ v.nesting ≤ r.nesting := by
  induction h with
  | null => exact ⟨_, .null, Nat.le_refl 0⟩
  | true => exact ⟨_, .true, Nat.le_refl 0⟩
  | false => exact ⟨_, .false, Nat.le_refl 0⟩
  | number n valid => exact ⟨_, .number n valid, Nat.le_of_eq (Decoder.nesting_toJson n)⟩
  | string text => exact ⟨_, .string (hText _ _ text), Nat.le_refl 0⟩
  | emptyArray space => exact ⟨_, .emptyArray space, Nat.le_refl 0⟩
  | emptyObject space => exact ⟨_, .emptyObject space, Nat.le_refl 0⟩
  | array items nonempty space values ih =>
    cases hdistinct with
    | array elements =>
      exact exists_arrayText nonempty space fun e he =>
        ih e he (elements _ (List.mem_map_of_mem he))
  | object items nonempty lexical values ih =>
    cases hdistinct with
    | object names elements =>
      exact exists_objectText hText nonempty lexical
        (fun m hm => ih m hm (elements m.member (List.mem_map_of_mem hm))) names

end

end MissionWeave
