import MissionWeave.Json.ScannerBounds
import MissionWeave.Json.ScannerLog
import MissionWeave.SignedDocument.Sanitize

/-!
# What the sanitizer touches

`sanitize_unpaired_surrogates` as the source has it, over an index, with a log
of the indices that it reads and of the substrings that it takes.

* `step_returns`: the body of the loop advances, and stays inside the input.
* `sanitize_returns`: the loop ends at the end of the input, with the result of
  `Sanitizer.sanitizeUnpairedSurrogates`.
* `sanitize_settles`: the log is complete.
* `byteScanners_inBounds`: the same for this loop and the strict scanner.
-/

namespace MissionWeave

namespace Sanitizer

def SanitizedJson.push (result : SanitizedJson) (bytes : Bytes) : SanitizedJson :=
  ⟨result.text ++ bytes, result.unpairedSurrogate⟩

/-- The placeholder for an unpaired surrogate, with the flag. -/
def SanitizedJson.replace (result : SanitizedJson) : SanitizedJson :=
  ⟨result.text ++ ascii "\\uE000", true⟩

end Sanitizer

namespace SanitizerTrace

open StrictScanner (isHighSurrogate isLowSurrogate)
open Sanitizer (SanitizedJson sanitizeFrom escapedUnit?)

/-- What a step of the sanitizer touches. -/
inductive Event
  | reads (index : Nat)
  | substring (start count : Nat)
  deriving DecidableEq, Repr

/-- No access outside the input, and no substring that is cut off. -/
def Event.InBounds (input : Bytes) : Event → Prop
  | .reads index => index < input.length
  | .substring start count => start + count ≤ input.length

abbrev Run (α : Type) := Traced Event ScanError α

/-- The variables of the loop. -/
structure State where
  index : Nat
  inString : Bool
  result : SanitizedJson
  deriving DecidableEq, Repr

/-! ## The source -/

def isHex (value : UInt8) : Bool :=
  (0x30 ≤ value && value ≤ 0x39) || (0x61 ≤ value && value ≤ 0x66) ||
    (0x41 ≤ value && value ≤ 0x46)

/-- One round of `hex_quad`, in the arithmetic of `std::uint16_t`. -/
def hexStep (result : Nat) (digit : UInt8) : Nat :=
  if 0x30 ≤ digit ∧ digit ≤ 0x39 then ((result <<< 4) % 2 ^ 16 + digit.toNat - 0x30) % 2 ^ 16
  else if 0x61 ≤ digit ∧ digit ≤ 0x66 then
    ((result <<< 4) % 2 ^ 16 + digit.toNat - 0x61 + 10) % 2 ^ 16
  else ((result <<< 4) % 2 ^ 16 + digit.toNat + 2 ^ 16 - 0x41 + 10) % 2 ^ 16

def hexQuad (value : Bytes) : Nat := value.foldl hexStep 0

section

variable (input : Bytes)

/-- `input[index]`. -/
def read (index : Nat) : Run UInt8 := .log (.reads index) (StrictScanner.read input index)

/-- `input.substr(start, count)`. -/
def substr (start count : Nat) : Run Bytes :=
  .log (.substring start count)
    (if start ≤ input.length then .ok ((input.drop start).take count)
      else .error (.outOfBounds start))

/-- `index + 1 >= input.size() || input[index + 1] != 'u' || index + 6 > input.size() ||
!std::ranges::all_of(input.substr(index + 2, 4), is_hex)`. -/
def lacksUnit (index : Nat) : Run Bool := do
  if input.length ≤ index + 1 then .ok true
  else if (← read input (index + 1)) ≠ Ascii.lowerU then .ok true
  else if input.length < index + 6 then .ok true
  else do
    let digits ← substr input (index + 2) 4
    .ok (!digits.all isHex)

/-- `pair`: an escape of a low surrogate follows the escape at the index. -/
def pairFollows (index : Nat) : Run Bool := do
  if input.length < index + 12 then .ok false
  else if (← read input (index + 6)) ≠ Ascii.backslash then .ok false
  else if (← read input (index + 7)) ≠ Ascii.lowerU then .ok false
  else if (← substr input (index + 8) 4).all isHex = false then .ok false
  else if hexQuad (← substr input (index + 8) 4) < 0xDC00 then .ok false
  else do
    let digits ← substr input (index + 8) 4
    .ok (hexQuad digits ≤ 0xDFFF)

/-- The body of the loop. -/
def step (state : State) : Run State := do
  let value ← read input state.index
  if state.inString = false then
    .ok ⟨state.index + 1, value == Ascii.quote, state.result.push [value]⟩
  else if value = Ascii.quote then .ok ⟨state.index + 1, false, state.result.push [value]⟩
  else if value ≠ Ascii.backslash then
    .ok ⟨state.index + 1, state.inString, state.result.push [value]⟩
  else if ← lacksUnit input state.index then
    if state.index + 1 < input.length then do
      let next ← read input (state.index + 1)
      .ok ⟨state.index + 2, state.inString, (state.result.push [value]).push [next]⟩
    else .ok ⟨state.index + 1, state.inString, state.result.push [value]⟩
  else do
    let digits ← substr input (state.index + 2) 4
    if isHighSurrogate (hexQuad digits) then
      if ← pairFollows input state.index then do
        let pair ← substr input state.index 12
        .ok ⟨state.index + 12, state.inString, state.result.push pair⟩
      else .ok ⟨state.index + 6, state.inString, state.result.replace⟩
    else if isLowSurrogate (hexQuad digits) then
      .ok ⟨state.index + 6, state.inString, state.result.replace⟩
    else do
      let unit ← substr input state.index 6
      .ok ⟨state.index + 6, state.inString, state.result.push unit⟩

/-- `for (std::size_t index = 0; index < input.size();)`. -/
def loop : Nat → State → Run State
  | 0, _ => .throw .outOfFuel
  | fuel + 1, state =>
    if state.index < input.length then do
      let state ← step input state
      loop fuel state
    else .ok state

/-- `sanitize_unpaired_surrogates`, with all variables at its end. -/
def sanitize : Run State := loop input (input.length + 1) ⟨0, false, ⟨[], false⟩⟩

end

/-! ## The digits of an escape -/

theorem isHex_eq (b : UInt8) : isHex b = (Ascii.hexValue? b).isSome := by
  unfold isHex Ascii.hexValue? Ascii.isDigit
  split_ifs with h1 h2 h3
  · simp_all
  · simp_all
  · simp_all
  · simp_all

theorem hexStep_eq {b : UInt8} {v : Nat} (h : Ascii.hexValue? b = some v) {result : Nat}
    (hresult : result < 4096) : hexStep result b = result * 16 + v := by
  have hv := Ascii.hexValue?_lt h
  have hshift : (result <<< 4) % 2 ^ 16 = result * 16 := by
    rw [Nat.shiftLeft_eq, Nat.mod_eq_of_lt (by omega)]
  have hzero : Ascii.zero.toNat = 48 := rfl
  have hnine : Ascii.nine.toNat = 57 := rfl
  unfold Ascii.hexValue? Ascii.isDigit at h
  unfold hexStep
  rw [hshift]
  simp only [Bool.and_eq_true, decide_eq_true_eq, UInt8.le_iff_toNat_le, UInt8.reduceToNat,
    hzero, hnine] at h ⊢
  split_ifs at h ⊢
  · rw [Option.some.injEq] at h
    omega
  · rw [Option.some.injEq] at h
    omega
  · rw [Option.some.injEq] at h
    omega

theorem hexQuad?_eq (a b c d : UInt8) :
    hexQuad? [a, b, c, d] =
      if [a, b, c, d].all isHex = true then some (hexQuad [a, b, c, d]) else none := by
  unfold hexQuad?
  simp only [List.all_cons, List.all_nil, Bool.and_true, Bool.and_eq_true, isHex_eq]
  cases ha : Ascii.hexValue? a with
  | none => simp
  | some va =>
    cases hb : Ascii.hexValue? b with
    | none => simp
    | some vb =>
      cases hc : Ascii.hexValue? c with
      | none => simp
      | some vc =>
        cases hd : Ascii.hexValue? d with
        | none => simp
        | some vd =>
          have hva := Ascii.hexValue?_lt ha
          have hvb := Ascii.hexValue?_lt hb
          have hvc := Ascii.hexValue?_lt hc
          have hquad : hexQuad [a, b, c, d] = ((va * 16 + vb) * 16 + vc) * 16 + vd := by
            show hexStep (hexStep (hexStep (hexStep 0 a) b) c) d = _
            rw [hexStep_eq ha (by omega), hexStep_eq hb (by omega), hexStep_eq hc (by omega),
              hexStep_eq hd (by omega), Nat.zero_mul, Nat.zero_add]
          rw [hquad]
          rfl

/-- An escape of four digits at the index. -/
def EscapeAt (input : Bytes) (index : Nat) : Prop :=
  index + 6 ≤ input.length ∧ input[index]? = some Ascii.backslash ∧
    input[index + 1]? = some Ascii.lowerU ∧ ((input.drop (index + 2)).take 4).all isHex = true

instance (input : Bytes) (index : Nat) : Decidable (EscapeAt input index) :=
  inferInstanceAs (Decidable (_ ∧ _ ∧ _ ∧ _))

/-- What is left of the input at six bytes before its end or earlier. -/
theorem exists_six {input : Bytes} {index : Nat} (h : index + 6 ≤ input.length) :
    ∃ b u h1 h2 h3 h4 rest, input.drop index = b :: u :: h1 :: h2 :: h3 :: h4 :: rest := by
  have hlength : (input.drop index).length = input.length - index := List.length_drop
  match hbytes : input.drop index with
  | b :: u :: h1 :: h2 :: h3 :: h4 :: rest => exact ⟨b, u, h1, h2, h3, h4, rest, rfl⟩
  | [] | [_] | [_, _] | [_, _, _] | [_, _, _, _] | [_, _, _, _, _] =>
    rw [hbytes] at hlength
    simp only [List.length_cons, List.length_nil] at hlength
    omega

theorem escapedUnit?_eq_none_of_short {bytes : Bytes} (h : bytes.length < 6) :
    escapedUnit? bytes = none := by
  match bytes with
  | [] | [_] | [_, _] | [_, _, _] | [_, _, _, _] | [_, _, _, _, _] => rfl
  | _ :: _ :: _ :: _ :: _ :: _ :: _ =>
    simp only [List.length_cons] at h
    omega

/-- The escape in front of a text is the escape at its index. -/
theorem escapedUnit?_drop (input : Bytes) (index : Nat) :
    escapedUnit? (input.drop index) =
      if EscapeAt input index then some (hexQuad ((input.drop (index + 2)).take 4)) else none := by
  by_cases hlength : index + 6 ≤ input.length
  · obtain ⟨b, u, h1, h2, h3, h4, rest, heq⟩ := exists_six hlength
    have hfirst : input[index]? = some b := by
      rw [← List.head?_drop, heq]
      rfl
    have hsecond : input[index + 1]? = some u := by
      rw [← List.getElem?_drop, heq]
      rfl
    have hdigits : (input.drop (index + 2)).take 4 = [h1, h2, h3, h4] := by
      rw [← List.drop_drop, heq]
      rfl
    have hescape : EscapeAt input index ↔
        (b = Ascii.backslash ∧ u = Ascii.lowerU) ∧ [h1, h2, h3, h4].all isHex = true := by
      unfold EscapeAt
      rw [hfirst, hsecond, hdigits, Option.some.injEq, Option.some.injEq, and_iff_right hlength,
        and_assoc]
    rw [heq, hdigits, escapedUnit?, hexQuad?_eq, ← ite_and]
    exact ite_cond_congr (propext hescape.symm)
  · have hlong : ¬EscapeAt input index := fun h => hlength h.1
    rw [if_neg hlong]
    apply escapedUnit?_eq_none_of_short
    rw [List.length_drop]
    omega

/-! ## One round of the loop -/

/-- The computation returns, and touches the input only. -/
abbrev Bounded {α : Type} (input : Bytes) (x : Run α) (q : α → Prop) : Prop :=
  Traced.Returns (Event.InBounds input) x q

open Traced (Returns)

section

variable {input : Bytes} {index : Nat}

theorem read_returns (h : index < input.length) :
    Bounded input (read input index) fun b => input[index]? = some b := by
  have hget : input[index]? = some input[index] := List.getElem?_eq_getElem h
  apply Returns.log (a := input[index])
  · exact h
  · rw [StrictScanner.read, hget]
  · exact hget

theorem substr_returns {start count : Nat} (h : start + count ≤ input.length) :
    Bounded input (substr input start count) (· = (input.drop start).take count) := by
  apply Returns.log (a := (input.drop start).take count)
  · exact h
  · rw [if_pos (by omega)]
  · rfl

/-- A byte of the input is compared. -/
theorem compare_returns {α : Type} {q : α → Prop} {b : UInt8} {x y : Run α}
    (h : index < input.length) (hne : input[index]? ≠ some b → Bounded input x q)
    (heq : input[index]? = some b → Bounded input y q) :
    Bounded input (do if (← read input index) ≠ b then x else y) q := by
  apply (read_returns h).bind
  intro value hvalue
  rw [hvalue] at hne heq
  apply Returns.ite
  · intro hother
    exact hne fun hsame => hother (Option.some.inj hsame)
  · intro hsame
    exact heq (congrArg some (not_not.mp hsame))

/-- A test ends early. -/
theorem true_returns {p : Prop} (h : p) :
    Bounded input (.ok true) fun result => result = true ↔ p :=
  Returns.ok (iff_of_true rfl h)

theorem false_returns {p : Prop} (h : ¬p) :
    Bounded input (.ok false) fun result => result = true ↔ p :=
  Returns.ok (iff_of_false Bool.false_ne_true h)

/-- At a backslash, the test is that for an escape. -/
theorem lacksUnit_returns (h : input[index]? = some Ascii.backslash) :
    Bounded input (lacksUnit input index) fun lacks => lacks = true ↔ ¬EscapeAt input index := by
  apply Returns.ite
  · intro hshort
    apply true_returns
    rintro ⟨hlength, -⟩
    omega
  intro hlong
  apply compare_returns (by omega)
  · intro hother
    apply true_returns
    rintro ⟨-, -, hu, -⟩
    exact hother hu
  intro hsecond
  apply Returns.ite
  · intro hshort
    apply true_returns
    rintro ⟨hlength, -⟩
    omega
  intro hsix
  have hlength : index + 6 ≤ input.length := by omega
  apply (substr_returns (by omega)).bind
  intro digits hdigits
  apply Returns.ok
  rw [Bool.not_eq_true', ← Bool.not_eq_true, not_iff_not, hdigits]
  constructor
  · intro hall
    exact ⟨hlength, h, hsecond, hall⟩
  · rintro ⟨-, -, -, hall⟩
    exact hall

/-- Behind an escape, the test is that for an escape of a low surrogate. -/
theorem pairFollows_returns (input : Bytes) (index : Nat) :
    Bounded input (pairFollows input index) fun pair => pair = true ↔
      EscapeAt input (index + 6) ∧
        isLowSurrogate (hexQuad ((input.drop (index + 8)).take 4)) = true := by
  apply Returns.ite
  · intro hshort
    apply false_returns
    rintro ⟨⟨hlength, -⟩, -⟩
    omega
  intro hlong
  have hlength : index + 6 + 6 ≤ input.length := by omega
  apply compare_returns (by omega)
  · intro hother
    apply false_returns
    rintro ⟨⟨-, hbackslash, -⟩, -⟩
    exact hother hbackslash
  intro hfirst
  apply compare_returns (by omega)
  · intro hother
    apply false_returns
    rintro ⟨⟨-, -, hu, -⟩, -⟩
    exact hother hu
  intro hsecond
  apply (substr_returns (by omega)).bind
  rintro _ rfl
  apply Returns.ite
  · intro hdigits
    apply false_returns
    rintro ⟨⟨-, -, -, hall⟩, -⟩
    exact Bool.eq_false_iff.mp hdigits hall
  intro hdigits
  rw [Bool.not_eq_false] at hdigits
  have hescape : EscapeAt input (index + 6) := ⟨hlength, hfirst, hsecond, hdigits⟩
  rw [and_iff_right hescape]
  unfold isLowSurrogate
  apply (substr_returns (by omega)).bind
  rintro _ rfl
  apply Returns.ite
  · intro hbelow
    apply false_returns
    rw [Bool.and_eq_true, decide_eq_true_eq]
    omega
  · intro habove
    apply (substr_returns (by omega)).bind
    rintro _ rfl
    apply Returns.ok
    rw [Bool.and_eq_true, decide_eq_true_eq, decide_eq_true_eq]
    omega

/-- What the list function makes of the rest, behind what the loop has so far. -/
def complete (input : Bytes) (state : State) : SanitizedJson :=
  let rest := sanitizeFrom 0 state.inString (input.drop state.index)
  ⟨state.result.text ++ rest.text, state.result.unpairedSurrogate || rest.unpairedSurrogate⟩

/-- A round takes at least one byte, none behind the end, and keeps the result. -/
structure Advances (input : Bytes) (state next : State) : Prop where
  lt : state.index < next.index
  le : next.index ≤ input.length
  complete_eq : complete input next = complete input state

theorem sanitizeFrom_skip (skip : Nat) (inString : Bool) (bytes : Bytes) :
    sanitizeFrom skip inString bytes = sanitizeFrom 0 inString (bytes.drop skip) := by
  induction bytes generalizing skip with
  | nil => rw [List.drop_nil, sanitizeFrom, sanitizeFrom]
  | cons b bytes ih =>
    cases skip with
    | zero => rfl
    | succ skip =>
      rw [sanitizeFrom, List.drop_succ_cons]
      exact ih skip

variable {state : State}

/-- A round that takes over what it reads. -/
theorem advances_push {count : Nat} {inString : Bool} {bytes : Bytes} (hpos : 0 < count)
    (hle : state.index + count ≤ input.length)
    (h : sanitizeFrom 0 state.inString (input.drop state.index) =
      (sanitizeFrom 0 inString (input.drop (state.index + count))).after bytes) :
    Advances input state ⟨state.index + count, inString, state.result.push bytes⟩ where
  lt := Nat.lt_add_of_pos_right hpos
  le := hle
  complete_eq := by
    unfold complete
    rw [h]
    dsimp only [SanitizedJson.push, SanitizedJson.after]
    rw [List.append_assoc]

/-- A round that replaces an escape. -/
theorem advances_replace (hle : state.index + 6 ≤ input.length)
    (h : sanitizeFrom 0 state.inString (input.drop state.index) =
      (sanitizeFrom 0 state.inString (input.drop (state.index + 6))).afterPlaceholder) :
    Advances input state ⟨state.index + 6, state.inString, state.result.replace⟩ where
  lt := Nat.lt_add_of_pos_right (by omega)
  le := hle
  complete_eq := by
    unfold complete
    rw [h]
    dsimp only [SanitizedJson.replace, SanitizedJson.afterPlaceholder]
    rw [List.append_assoc, Bool.or_true, Bool.true_or]

/-- The list function at a backslash. -/
theorem sanitizeFrom_at (h : input[index]? = some Ascii.backslash) :
    sanitizeFrom 0 true (input.drop index) =
      if EscapeAt input index then
        if isHighSurrogate (hexQuad ((input.drop (index + 2)).take 4)) = true then
          if EscapeAt input (index + 6) ∧
              isLowSurrogate (hexQuad ((input.drop (index + 8)).take 4)) = true then
            (sanitizeFrom 0 true (input.drop (index + 12))).after ((input.drop index).take 12)
          else (sanitizeFrom 0 true (input.drop (index + 6))).afterPlaceholder
        else if isLowSurrogate (hexQuad ((input.drop (index + 2)).take 4)) = true then
          (sanitizeFrom 0 true (input.drop (index + 6))).afterPlaceholder
        else (sanitizeFrom 0 true (input.drop (index + 6))).after ((input.drop index).take 6)
      else (sanitizeFrom 0 true (input.drop (index + 2))).after ((input.drop index).take 2) := by
  obtain ⟨hlt, hget⟩ := List.getElem?_eq_some_iff.mp h
  have hcons : input.drop index = Ascii.backslash :: input.drop (index + 1) := by
    rw [List.drop_eq_getElem_cons hlt, hget]
  have hskip (skip : Nat) : sanitizeFrom skip true (input.drop (index + 1)) =
      sanitizeFrom 0 true (input.drop (index + (skip + 1))) := by
    rw [sanitizeFrom_skip, List.drop_drop, Nat.add_assoc, Nat.add_comm 1 skip]
  have hpair : ((escapedUnit? ((input.drop (index + 1)).drop 5)).map isLowSurrogate).getD false =
      true ↔ EscapeAt input (index + 6) ∧
        isLowSurrogate (hexQuad ((input.drop (index + 8)).take 4)) = true := by
    rw [List.drop_drop, escapedUnit?_drop]
    by_cases hescape : EscapeAt input (index + 6)
    · rw [if_pos hescape, and_iff_right hescape]
      rfl
    · rw [if_neg hescape]
      apply iff_of_false Bool.false_ne_true
      rintro ⟨hfollows, -⟩
      exact hescape hfollows
  have hunit := escapedUnit?_drop input index
  rw [hcons, Sanitizer.sanitizeFrom_backslash rfl, ← hcons, hunit]
  simp only [hskip, hpair]
  by_cases hescape : EscapeAt input index
  · rw [if_pos hescape, if_pos hescape]
  · rw [if_neg hescape, if_neg hescape]

/-- The list function at any other byte. -/
theorem sanitizeFrom_byte {inString : Bool} {value : UInt8} (h : input[index]? = some value)
    (hplain : inString = true → value ≠ Ascii.backslash) :
    sanitizeFrom 0 inString (input.drop index) =
      (sanitizeFrom 0 (if value = Ascii.quote then !inString else inString)
        (input.drop (index + 1))).after [value] := by
  obtain ⟨hlt, hget⟩ := List.getElem?_eq_some_iff.mp h
  rw [List.drop_eq_getElem_cons hlt, hget]
  cases inString with
  | false =>
    rw [sanitizeFrom]
    by_cases hquote : value = Ascii.quote
    · rw [if_pos hquote, beq_iff_eq.mpr hquote]
      rfl
    · rw [if_neg hquote, beq_eq_false_iff_ne.mpr hquote]
  | true =>
    by_cases hquote : value = Ascii.quote
    · rw [if_pos hquote, Sanitizer.sanitizeFrom_quote hquote]
      rfl
    · rw [if_neg hquote, Sanitizer.sanitizeFrom_plain hquote (hplain rfl)]

/-- A backslash that starts no escape of four digits, with the byte after it. -/
theorem advances_pair {next : UInt8} (hinString : state.inString = true)
    (hvalue : input[state.index]? = some Ascii.backslash)
    (hnext : input[state.index + 1]? = some next) (hescape : ¬EscapeAt input state.index) :
    Advances input state ⟨state.index + 2, state.inString,
      (state.result.push [Ascii.backslash]).push [next]⟩ := by
  obtain ⟨hlt, hget⟩ := List.getElem?_eq_some_iff.mp hvalue
  obtain ⟨hlt', hget'⟩ := List.getElem?_eq_some_iff.mp hnext
  have hbytes : (input.drop state.index).take 2 = [Ascii.backslash, next] := by
    rw [List.drop_eq_getElem_cons hlt, List.drop_eq_getElem_cons hlt', hget, hget']
    rfl
  have hpush : (state.result.push [Ascii.backslash]).push [next] =
      state.result.push [Ascii.backslash, next] := by
    unfold SanitizedJson.push
    rw [List.append_assoc]
    rfl
  rw [hpush]
  apply advances_push (by omega) (by omega)
  rw [hinString, sanitizeFrom_at hvalue, if_neg hescape, hbytes]

/-- A backslash at the end of the input. -/
theorem advances_last (hinString : state.inString = true)
    (hvalue : input[state.index]? = some Ascii.backslash)
    (hend : ¬state.index + 1 < input.length) (hescape : ¬EscapeAt input state.index) :
    Advances input state ⟨state.index + 1, state.inString,
      state.result.push [Ascii.backslash]⟩ := by
  obtain ⟨hlt, hget⟩ := List.getElem?_eq_some_iff.mp hvalue
  have hone : input.drop (state.index + 1) = [] := List.drop_of_length_le (by omega)
  have htwo : input.drop (state.index + 2) = [] := List.drop_of_length_le (by omega)
  apply advances_push Nat.one_pos hlt
  rw [hinString, sanitizeFrom_at hvalue, if_neg hescape, htwo, hone,
    List.drop_eq_getElem_cons hlt, hget, hone]
  rfl

/-- A byte outside a string. -/
theorem advances_outside {value : UInt8} (houtside : state.inString = false)
    (hvalue : input[state.index]? = some value) (hlt : state.index < input.length) :
    Advances input state ⟨state.index + 1, value == Ascii.quote, state.result.push [value]⟩ := by
  have hstring : (if value = Ascii.quote then !false else false) = (value == Ascii.quote) := by
    by_cases hquote : value = Ascii.quote
    · rw [if_pos hquote, beq_iff_eq.mpr hquote]
      rfl
    · rw [if_neg hquote, beq_eq_false_iff_ne.mpr hquote]
  apply advances_push Nat.one_pos hlt
  rw [houtside, sanitizeFrom_byte hvalue (fun hinside => absurd hinside Bool.false_ne_true),
    hstring]

/-- The quote that ends a string. -/
theorem advances_quote {value : UInt8} (hinString : state.inString = true)
    (hvalue : input[state.index]? = some value) (hlt : state.index < input.length)
    (hquote : value = Ascii.quote) :
    Advances input state ⟨state.index + 1, false, state.result.push [value]⟩ := by
  have hplain : value ≠ Ascii.backslash := by
    rw [hquote]
    decide
  apply advances_push Nat.one_pos hlt
  rw [hinString, sanitizeFrom_byte hvalue fun _ => hplain, if_pos hquote]
  rfl

/-- Two escapes that make up a character. -/
theorem advances_surrogates (hinString : state.inString = true)
    (hvalue : input[state.index]? = some Ascii.backslash) (hescape : EscapeAt input state.index)
    (hhigh : isHighSurrogate (hexQuad ((input.drop (state.index + 2)).take 4)) = true)
    (hlow : EscapeAt input (state.index + 6) ∧
      isLowSurrogate (hexQuad ((input.drop (state.index + 8)).take 4)) = true) :
    Advances input state ⟨state.index + 12, state.inString,
      state.result.push ((input.drop state.index).take 12)⟩ := by
  have htwelve := hlow.1.1
  apply advances_push (by omega) (by omega)
  rw [hinString, sanitizeFrom_at hvalue, if_pos hescape, if_pos hhigh, if_pos hlow]

/-- A high surrogate without its low one. -/
theorem advances_high (hinString : state.inString = true)
    (hvalue : input[state.index]? = some Ascii.backslash) (hescape : EscapeAt input state.index)
    (hhigh : isHighSurrogate (hexQuad ((input.drop (state.index + 2)).take 4)) = true)
    (hlow : ¬(EscapeAt input (state.index + 6) ∧
      isLowSurrogate (hexQuad ((input.drop (state.index + 8)).take 4)) = true)) :
    Advances input state ⟨state.index + 6, state.inString, state.result.replace⟩ := by
  apply advances_replace hescape.1
  rw [hinString, sanitizeFrom_at hvalue, if_pos hescape, if_pos hhigh, if_neg hlow]

/-- A low surrogate behind no high one. -/
theorem advances_low (hinString : state.inString = true)
    (hvalue : input[state.index]? = some Ascii.backslash) (hescape : EscapeAt input state.index)
    (hhigh : ¬isHighSurrogate (hexQuad ((input.drop (state.index + 2)).take 4)) = true)
    (hlow : isLowSurrogate (hexQuad ((input.drop (state.index + 2)).take 4)) = true) :
    Advances input state ⟨state.index + 6, state.inString, state.result.replace⟩ := by
  apply advances_replace hescape.1
  rw [hinString, sanitizeFrom_at hvalue, if_pos hescape, if_neg hhigh, if_pos hlow]

/-- An escape of any other unit. -/
theorem advances_unit (hinString : state.inString = true)
    (hvalue : input[state.index]? = some Ascii.backslash) (hescape : EscapeAt input state.index)
    (hhigh : ¬isHighSurrogate (hexQuad ((input.drop (state.index + 2)).take 4)) = true)
    (hlow : ¬isLowSurrogate (hexQuad ((input.drop (state.index + 2)).take 4)) = true) :
    Advances input state ⟨state.index + 6, state.inString,
      state.result.push ((input.drop state.index).take 6)⟩ := by
  apply advances_push (by omega) hescape.1
  rw [hinString, sanitizeFrom_at hvalue, if_pos hescape, if_neg hhigh, if_neg hlow]

/-- The body of the loop advances, and stays inside the input. -/
theorem step_returns (h : state.index < input.length) :
    Bounded input (step input state) (Advances input state) := by
  apply (read_returns h).bind
  intro value hvalue
  apply Returns.ite
  · intro houtside
    exact Returns.ok (advances_outside houtside hvalue h)
  intro hinString
  rw [Bool.not_eq_false] at hinString
  apply Returns.ite
  · intro hquote
    exact Returns.ok (advances_quote hinString hvalue h hquote)
  intro hquote
  apply Returns.ite
  · intro hplain
    apply Returns.ok
    apply advances_push Nat.one_pos h
    rw [sanitizeFrom_byte hvalue fun _ => hplain, if_neg hquote]
  intro hbackslash
  rw [not_not] at hbackslash
  rw [hbackslash] at hvalue ⊢
  apply (lacksUnit_returns hvalue).bind
  intro lacks hlacks
  apply Returns.ite
  · intro hlacking
    have hescape := hlacks.mp hlacking
    apply Returns.ite
    · intro hnext
      apply (read_returns hnext).bind
      intro next hnext
      exact Returns.ok (advances_pair hinString hvalue hnext hescape)
    · intro hend
      exact Returns.ok (advances_last hinString hvalue hend hescape)
  intro hunit
  have hescape : EscapeAt input state.index := not_not.mp (mt hlacks.mpr hunit)
  have hsix := hescape.1
  apply (substr_returns (by omega)).bind
  rintro _ rfl
  apply Returns.ite
  · intro hhigh
    apply (pairFollows_returns input state.index).bind
    intro pair hpair
    apply Returns.ite
    · intro hfollows
      have hlow := hpair.mp hfollows
      have htwelve := hlow.1.1
      apply (substr_returns (by omega)).bind
      rintro _ rfl
      exact Returns.ok (advances_surrogates hinString hvalue hescape hhigh hlow)
    · intro hunpaired
      exact Returns.ok (advances_high hinString hvalue hescape hhigh (mt hpair.mpr hunpaired))
  intro hhigh
  apply Returns.ite
  · intro hlow
    exact Returns.ok (advances_low hinString hvalue hescape hhigh hlow)
  · intro hlow
    apply (substr_returns hsix).bind
    rintro _ rfl
    exact Returns.ok (advances_unit hinString hvalue hescape hhigh hlow)

/-! ## The loop -/

theorem loop_returns (fuel : Nat) (h : state.index ≤ input.length)
    (hfuel : input.length - state.index < fuel) :
    Bounded input (loop input fuel state) fun final =>
      final.index = input.length ∧ final.result = complete input state := by
  induction fuel generalizing state with
  | zero => omega
  | succ fuel ih =>
    apply Returns.ite
    · intro hlt
      apply (step_returns hlt).bind
      intro next hnext
      have hadvance := hnext.lt
      rw [← hnext.complete_eq]
      exact ih hnext.le (by omega)
    · intro hend
      have hdrop : input.drop state.index = [] := List.drop_of_length_le (by omega)
      apply Returns.ok
      refine ⟨by omega, ?_⟩
      unfold complete
      rw [hdrop, sanitizeFrom]
      dsimp only
      rw [List.append_nil, Bool.or_false]

/-- The loop ends at the end of the input, with the result of the list function. -/
theorem sanitize_returns (input : Bytes) :
    Bounded input (sanitize input) fun final =>
      final.index = input.length ∧ final.result = Sanitizer.sanitizeUnpairedSurrogates input := by
  apply (loop_returns (input.length + 1) (Nat.zero_le _) (by omega)).imp
  rintro final ⟨hindex, hresult⟩
  refine ⟨hindex, ?_⟩
  rw [hresult]
  rfl

end

/-! ## The log is complete -/

/-- The other input has the same bytes where the event reads. -/
def Event.Agrees (input input' : Bytes) : Event → Prop
  | .reads index => input'[index]? = input[index]?
  | .substring start count => (input'.drop start).take count = (input.drop start).take count

/-- The two runs are the same if the inputs agree along the first one. -/
abbrev Settled {α : Type} (input input' : Bytes) (x x' : Run α) : Prop :=
  Traced.Settles (Event.Agrees input input') x x'

section

open Traced (Settles)

variable {input input' : Bytes}

theorem read_settles (index : Nat) :
    Settled input input' (read input index) (read input' index) := by
  apply Settles.log
  intro hagrees
  have hbyte : input'[index]? = input[index]? := hagrees
  rw [StrictScanner.read, StrictScanner.read, hbyte]

variable (hlength : input'.length = input.length)

include hlength

theorem substr_settles (start count : Nat) :
    Settled input input' (substr input start count) (substr input' start count) := by
  apply Settles.log
  intro hagrees
  have hbytes : (input'.drop start).take count = (input.drop start).take count := hagrees
  rw [hlength, hbytes]

theorem lacksUnit_settles (index : Nat) :
    Settled input input' (lacksUnit input index) (lacksUnit input' index) := by
  unfold lacksUnit
  rw [hlength]
  apply (Settles.refl _).ite
  apply (read_settles _).bind
  intro marker
  apply (Settles.refl _).ite
  apply (Settles.refl _).ite
  apply (substr_settles hlength _ _).bind
  intro digits
  exact Settles.refl _

theorem pairFollows_settles (index : Nat) :
    Settled input input' (pairFollows input index) (pairFollows input' index) := by
  unfold pairFollows
  rw [hlength]
  apply (Settles.refl _).ite
  apply (read_settles _).bind
  intro escape
  apply (Settles.refl _).ite
  apply (read_settles _).bind
  intro marker
  apply (Settles.refl _).ite
  apply (substr_settles hlength _ _).bind
  intro digits
  apply (Settles.refl _).ite
  apply (substr_settles hlength _ _).bind
  intro low
  apply (Settles.refl _).ite
  apply (substr_settles hlength _ _).bind
  intro high
  exact Settles.refl _

theorem step_settles (state : State) :
    Settled input input' (step input state) (step input' state) := by
  unfold step
  rw [hlength]
  apply (read_settles _).bind
  intro value
  apply (Settles.refl _).ite
  apply (Settles.refl _).ite
  apply (Settles.refl _).ite
  apply (lacksUnit_settles hlength _).bind
  intro lacks
  apply Settles.ite
  · apply Settles.ite
    · apply (read_settles _).bind
      intro next
      exact Settles.refl _
    · exact Settles.refl _
  apply (substr_settles hlength _ _).bind
  intro digits
  apply Settles.ite
  · apply (pairFollows_settles hlength _).bind
    intro pair
    apply Settles.ite
    · apply (substr_settles hlength _ _).bind
      intro copied
      exact Settles.refl _
    · exact Settles.refl _
  apply (Settles.refl _).ite
  apply (substr_settles hlength _ _).bind
  intro unit
  exact Settles.refl _

theorem loop_settles (fuel : Nat) (state : State) :
    Settled input input' (loop input fuel state) (loop input' fuel state) := by
  induction fuel generalizing state with
  | zero => exact Settles.refl _
  | succ fuel ih =>
    unfold loop
    rw [hlength]
    exact ((step_settles hlength state).bind ih).ite (Settles.refl _)

/-- An input of the same length, with the same bytes where the log reads, is
sanitized alike. -/
theorem sanitize_settles : Settled input input' (sanitize input) (sanitize input') := by
  unfold sanitize
  rw [hlength]
  exact loop_settles hlength _ _

end

end SanitizerTrace

/-- Every access of the two scanners is inside the input, no position of theirs
lies behind it and no difference wraps, `parse_value` is entered at depth 513 at
the most, and both loops end: the scan with success or `StrictJsonError`, the
sanitizer at the end of the input.  The two logs are complete: whatever is not in
them but the length has no influence on the run, and every entry of `parse_value`
is. -/
theorem byteScanners_inBounds (input : Bytes) :
    ((∀ event ∈ (ScannerTrace.scan input).events, event.InBounds input) ∧
      (ScannerTrace.scan input).result = StrictScanner.scan input ∧
      (StrictScanner.scan input = .ok () ∨
        ∃ message position, StrictScanner.scan input = .error (.strict message position)) ∧
      (∀ input', input'.length = input.length →
        (∀ event ∈ (ScannerTrace.scan input).events, event.Agrees input input') →
          ScannerTrace.scan input' = ScannerTrace.scan input) ∧
      ∀ fuel depth position, .enters depth ∈
        (ScannerTrace.parseValue input (fuel + 1) depth position).events) ∧
    ((∀ event ∈ (SanitizerTrace.sanitize input).events, event.InBounds input) ∧
      (∀ state : SanitizerTrace.State, state.index < input.length →
        ∃ next, (SanitizerTrace.step input state).result = .ok next ∧
          state.index < next.index ∧ next.index ≤ input.length) ∧
      (∃ final, (SanitizerTrace.sanitize input).result = .ok final ∧
        final.index = input.length ∧
        final.result = Sanitizer.sanitizeUnpairedSurrogates input) ∧
      ∀ input', input'.length = input.length →
        (∀ event ∈ (SanitizerTrace.sanitize input).events, event.Agrees input input') →
          SanitizerTrace.sanitize input' = SanitizerTrace.sanitize input) := by
  have hscan := ScannerTrace.scan_follows input
  have hsanitize := SanitizerTrace.sanitize_returns input
  refine ⟨⟨hscan.events, hscan.result_eq, ScannerTrace.scan_ends input, ?_,
    ScannerTrace.parseValue_enters input⟩, hsanitize.events, ?_, hsanitize.result, ?_⟩
  · exact fun input' hlength hagrees => ScannerTrace.scan_settles hlength hagrees
  · intro state hstate
    obtain ⟨next, hnext, hadvances⟩ := (SanitizerTrace.step_returns hstate).result
    exact ⟨next, hnext, hadvances.lt, hadvances.le⟩
  · exact fun input' hlength hagrees => SanitizerTrace.sanitize_settles hlength hagrees

end MissionWeave
