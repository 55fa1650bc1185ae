import MissionWeave.Json.Decoder

/-!
# The scanner does what the reader does

`Rest input position rest` says that the position is inside the input and that
`rest` is what is left from there.  `Agrees K x y` relates a run of the scanner
to a reading: both succeed with results that `K` relates, or both fail, and
then the scanner's error is neither an access outside the input nor a wrapped
difference.

Each function of the scanner agrees with its reading.  The proofs follow the
source: `Agrees.bind` takes one statement at a time, and `Rest.cons` and
`Rest.nil` say what the scanner sees at its position.
-/

namespace MissionWeave

/-- An error that is neither an access outside the input nor a wrapped
unsigned difference. -/
def ScanError.InRange : ScanError → Prop
  | .strict _ _ | .outOfFuel => True
  | .outOfBounds _ | .wrapped _ => False

namespace StrictScanner

variable {α β γ δ : Type}

/-- A run and a reading that both succeed, with related results, or both fail. -/
def Agrees (K : α → β → Prop) (x : Scan α) (y : Option β) : Prop :=
  match y with
  | some b => ∃ a, x = .ok a ∧ K a b
  | none => ∃ e, x = .error e ∧ e.InRange

theorem Agrees.ok {K : α → β → Prop} {a : α} {b : β} (h : K a b) :
    Agrees K (.ok a) (some b) := ⟨a, rfl, h⟩

theorem Agrees.fail {K : α → β → Prop} (message : String) (position : Nat) :
    Agrees K (fail message position) none := ⟨_, rfl, trivial⟩

theorem Agrees.outOfFuel {K : α → β → Prop} :
    Agrees K (.error .outOfFuel) none := ⟨_, rfl, trivial⟩

/-- One statement of a run against one statement of a reading. -/
theorem Agrees.bind {K : α → β → Prop} {L : γ → δ → Prop} {x : Scan α} {y : Option β}
    {f : α → Scan γ} {g : β → Option δ} (h : Agrees K x y)
    (hf : ∀ a b, K a b → Agrees L (f a) (g b)) : Agrees L (x >>= f) (y >>= g) := by
  cases y with
  | none =>
    obtain ⟨e, rfl, he⟩ := h
    exact ⟨e, rfl, he⟩
  | some b =>
    obtain ⟨a, rfl, hab⟩ := h
    exact hf a b hab

/-- A reading that goes on to build its value where the run is done. -/
theorem Agrees.build {K : α → β → Prop} {L : α → δ → Prop} {x : Scan α} {y : Option β}
    {g : β → Option δ} (h : Agrees K x y) (hg : ∀ a b, K a b → ∃ d, g b = some d ∧ L a d) :
    Agrees L x (y >>= g) := by
  cases y with
  | none => exact h
  | some b =>
    obtain ⟨a, rfl, hab⟩ := h
    obtain ⟨d, hd, had⟩ := hg a b hab
    change Agrees L (.ok a) (g b)
    rw [hd]
    exact Agrees.ok had

/-! ## Positions -/

/-- `rest` is what is left of the input at a position inside it. -/
structure Rest (input : Bytes) (position : Nat) (rest : Bytes) : Prop where
  le : position ≤ input.length
  drop : input.drop position = rest

/-- A position with the rest after it. -/
abbrev At (input : Bytes) (position : Nat) (rest : Bytes) : Prop := Rest input position rest

/-- A result that is the same on both sides, before the position and the rest. -/
abbrev AtWith (input : Bytes) (a : α × Nat) (b : α × Bytes) : Prop :=
  a.1 = b.1 ∧ Rest input a.2 b.2

/-- A result that only the reading has, before the rest. -/
abbrev AtAfter (input : Bytes) (position : Nat) (b : β × Bytes) : Prop :=
  Rest input position b.2

section

variable {input rest : Bytes} {position : Nat} {b : UInt8}

theorem Rest.start (input : Bytes) : Rest input 0 input := ⟨Nat.zero_le _, rfl⟩

theorem Rest.length (h : Rest input position rest) :
    rest.length = input.length - position := by
  rw [← h.drop, List.length_drop]

theorem Rest.advance {n : Nat} (h : Rest input position rest) (hn : n ≤ rest.length) :
    Rest input (position + n) (rest.drop n) := by
  have hlen := h.length
  have hle := h.le
  refine ⟨by omega, ?_⟩
  rw [← h.drop, List.drop_drop]

theorem Rest.cons (h : Rest input position (b :: rest)) :
    atEnd input position = false ∧ read input position = .ok b ∧
      current input position = .ok b ∧ Rest input (position + 1) rest := by
  have hlt : position < input.length := by
    have := h.length
    rw [List.length_cons] at this
    omega
  have hend : atEnd input position = false := by
    rw [atEnd, decide_eq_false_iff_not]
    omega
  have hget : input[position]? = some b := by
    rw [← List.head?_drop, h.drop]
    rfl
  have hread : read input position = .ok b := by rw [read, hget]
  refine ⟨hend, hread, ?_, ?_⟩
  · rw [current, hend]
    exact hread
  · exact h.advance (n := 1) (by simp)

theorem Rest.nil (h : Rest input position []) :
    atEnd input position = true ∧
      current input position = fail "unexpected end of JSON" position := by
  have hend : atEnd input position = true := by
    have := h.length
    have := h.le
    rw [List.length_nil] at *
    rw [atEnd, decide_eq_true_eq]
    omega
  exact ⟨hend, by rw [current, hend]; rfl⟩

theorem Rest.remaining (h : Rest input position rest) :
    StrictScanner.remaining input position = .ok rest.length := by
  rw [StrictScanner.remaining, if_pos h.le, h.length]

/-! ## Loops over bytes -/

theorem advanceWhile_rest (p : UInt8 → Bool) {fuel : Nat} (h : Rest input position rest)
    (hfuel : rest.length < fuel) :
    ∃ after, advanceWhile input p fuel position = .ok after ∧
      Rest input after (rest.dropWhile p) := by
  induction rest generalizing position fuel with
  | nil =>
    obtain ⟨fuel, rfl⟩ : ∃ n, fuel = n + 1 := ⟨fuel - 1, by omega⟩
    exact ⟨position, by rw [advanceWhile, h.nil.1]; rfl, h⟩
  | cons b rest ih =>
    obtain ⟨fuel, rfl⟩ : ∃ n, fuel = n + 1 := ⟨fuel - 1, by omega⟩
    obtain ⟨hend, hread, _, hnext⟩ := h.cons
    rw [advanceWhile, hend, hread]
    simp only [Bool.false_eq_true, if_false, Except.ok_bind]
    rw [List.length_cons] at hfuel
    cases hp : p b with
    | true =>
      rw [if_pos rfl, List.dropWhile_cons_of_pos hp]
      exact ih hnext (by omega)
    | false =>
      rw [if_neg Bool.false_ne_true, List.dropWhile_cons_of_neg (by simp [hp])]
      exact ⟨position, rfl, h⟩

theorem loop_rest (p : UInt8 → Bool) (h : Rest input position rest) :
    ∃ after, advanceWhile input p (loopFuel input) position = .ok after ∧
      Rest input after (rest.dropWhile p) := by
  have hlen := h.length
  exact advanceWhile_rest p h (by rw [loopFuel]; omega)

theorem skipWhitespace_rest (h : Rest input position rest) :
    ∃ after, skipWhitespace input position = .ok after ∧
      Rest input after (Decoder.skipWhitespace rest) :=
  loop_rest isWhitespace h

theorem atByte_eq (p : UInt8 → Bool) (h : Rest input position rest) :
    atByte input p position = .ok (rest.head?.any p) := by
  cases rest with
  | nil =>
    rw [atByte, h.nil.1]
    rfl
  | cons b rest =>
    obtain ⟨hend, _, hcurrent, _⟩ := h.cons
    rw [atByte, hend, hcurrent]
    rfl

theorem expect_agrees (expected : UInt8) (h : Rest input position rest) :
    Agrees (At input) (expect input expected position) (Decoder.byte expected rest) := by
  cases rest with
  | nil =>
    rw [expect, h.nil.2]
    exact Agrees.fail _ _
  | cons b rest =>
    obtain ⟨_, _, hcurrent, hnext⟩ := h.cons
    rw [expect, hcurrent, Except.ok_bind, Decoder.byte]
    by_cases hb : b = expected
    · rw [if_neg (not_not.mpr hb), if_pos hb]
      exact Agrees.ok hnext
    · rw [if_pos hb, if_neg hb]
      exact Agrees.fail _ _

/-- The test `!at_end() && current() == expected` and the step past it. -/
theorem atByte_byte (expected : UInt8) (h : Rest input position rest) :
    (∃ after, Decoder.byte expected rest = some after ∧
        atByte input (· == expected) position = .ok true ∧ Rest input (position + 1) after) ∨
      Decoder.byte expected rest = none ∧
        atByte input (· == expected) position = .ok false := by
  rw [atByte_eq _ h]
  cases rest with
  | nil => exact Or.inr ⟨rfl, rfl⟩
  | cons b rest =>
    by_cases hb : b = expected
    · exact Or.inl ⟨rest, by rw [Decoder.byte, if_pos hb], by simp [hb], h.cons.2.2.2⟩
    · exact Or.inr ⟨by rw [Decoder.byte, if_neg hb], by simp [hb]⟩

theorem parseLiteral_agrees (text : Bytes) (v : Json) (h : Rest input position rest) :
    Agrees (AtAfter input) (parseLiteral input text position) (Decoder.literal text v rest) := by
  rw [parseLiteral, Decoder.literal, h.drop]
  by_cases htext : rest.take text.length = text
  · rw [if_neg (not_not.mpr htext), if_pos htext]
    have hlen := congrArg List.length htext
    rw [List.length_take] at hlen
    exact Agrees.ok (h.advance (by omega))
  · rw [if_pos htext, if_neg htext]
    exact Agrees.fail _ _

/-! ## Numbers -/

/-- One or more digits, after which the scanner stands at the first byte that
is not one. -/
theorem digits_agrees (message : String) (h : Rest input position rest) :
    Agrees (AtAfter input)
      (do if ← atByte input Ascii.isDigit position then skipDigits input position
          else fail message position)
      (Decoder.digits rest) := by
  obtain ⟨after, hskip, hafter⟩ := loop_rest Ascii.isDigit h
  rw [atByte_eq _ h, Except.ok_bind, Decoder.digits]
  cases rest with
  | nil => exact Agrees.fail _ _
  | cons b rest =>
    cases hb : Ascii.isDigit b with
    | true =>
      rw [List.head?_cons, Option.any_some, if_pos hb, List.takeWhile_cons_of_pos hb,
        if_neg (List.cons_ne_nil _ _), skipDigits, hskip]
      exact Agrees.ok hafter
    | false =>
      rw [List.head?_cons, Option.any_some, if_neg (by simp [hb]),
        List.takeWhile_cons_of_neg (by simp [hb]), if_pos rfl]
      exact Agrees.fail _ _

theorem sign_rest (h : Rest input position (b :: rest)) :
    Rest input (if b = Ascii.minus then position + 1 else position)
      (Decoder.sign (b :: rest)).2 := by
  rw [Decoder.sign]
  split_ifs
  · exact h.cons.2.2.2
  · exact h

/-- The digits `1` to `9` are the digits other than `0`. -/
theorem one_le_iff_isDigit (hb : b ≠ Ascii.zero) :
    Ascii.one ≤ b ∧ b ≤ Ascii.nine ↔ Ascii.isDigit b = true := by
  rw [isDigit_iff, UInt8.le_iff_toNat_le, UInt8.le_iff_toNat_le]
  have hne : b.toNat ≠ 0x30 := fun h => hb (UInt8.toNat_inj.mp h)
  have hone : Ascii.one.toNat = 0x31 := rfl
  have hnine : Ascii.nine.toNat = 0x39 := rfl
  omega

theorem parseInteger_agrees (h : Rest input position rest) :
    Agrees (AtAfter input) (parseInteger input position) (Decoder.integer rest) := by
  cases rest with
  | nil =>
    rw [parseInteger, h.nil.1]
    exact Agrees.fail _ _
  | cons b rest =>
    obtain ⟨hend, _, hcurrent, hnext⟩ := h.cons
    rw [parseInteger, hend, hcurrent]
    simp only [Bool.false_eq_true, if_false, Except.ok_bind]
    rw [Decoder.integer]
    by_cases hb : b = Ascii.zero
    · rw [if_pos hb, if_pos hb, atByte_eq _ hnext, Except.ok_bind]
      cases rest.head?.any Ascii.isDigit with
      | true => exact Agrees.fail _ _
      | false => exact Agrees.ok hnext
    · rw [if_neg hb, if_neg hb]
      have hdigits := digits_agrees "invalid JSON number" h
      rw [atByte_eq _ h, Except.ok_bind, List.head?_cons, Option.any_some] at hdigits
      simpa only [one_le_iff_isDigit hb] using hdigits

theorem parseFraction_agrees (h : Rest input position rest) :
    Agrees (AtAfter input) (parseFraction input position) (Decoder.fraction rest) := by
  rw [parseFraction, Decoder.fraction]
  rcases atByte_byte Ascii.point h with ⟨after, hbyte, hat, hafter⟩ | ⟨hbyte, hat⟩
  · rw [hbyte, hat]
    simp only [Except.ok_bind, if_true]
    exact (digits_agrees _ hafter).build fun _ b hrest => ⟨(some b.1, b.2), rfl, hrest⟩
  · rw [hbyte, hat]
    exact Agrees.ok h

theorem skipSign_rest (h : Rest input position rest) :
    ∃ after, skipSign input position = .ok after ∧
      Rest input after (Decoder.exponentSign rest).2 := by
  rw [skipSign, atByte_eq _ h, Except.ok_bind]
  cases rest with
  | nil => exact ⟨position, rfl, h⟩
  | cons b rest =>
    rw [Decoder.exponentSign, List.head?_cons, Option.any_some]
    split_ifs
    · exact ⟨position + 1, rfl, h.cons.2.2.2⟩
    · exact ⟨position, rfl, h⟩

theorem parseExponent_agrees (h : Rest input position rest) :
    Agrees (AtAfter input) (parseExponent input position) (Decoder.exponent rest) := by
  rw [parseExponent, atByte_eq _ h, Except.ok_bind]
  cases rest with
  | nil => exact Agrees.ok h
  | cons b rest =>
    rw [Decoder.exponent, List.head?_cons, Option.any_some]
    split_ifs with hmarker
    · obtain ⟨after, hsign, hafter⟩ := skipSign_rest h.cons.2.2.2
      simp only [hsign, Except.ok_bind]
      exact (digits_agrees _ hafter).build fun _ b hrest => ⟨_, rfl, hrest⟩
    · exact Agrees.ok h

theorem parseNumber_agrees (h : Rest input position (b :: rest)) :
    Agrees (AtAfter input) (parseNumber input position) (Decoder.number (b :: rest)) := by
  rw [parseNumber, h.cons.2.2.1, Except.ok_bind, Decoder.number]
  refine (parseInteger_agrees (sign_rest h)).bind fun _ int hint => ?_
  refine (parseFraction_agrees hint).bind fun _ frac hfrac => ?_
  exact (parseExponent_agrees hfrac).build fun _ exp hexp => ⟨_, rfl, hexp⟩

/-! ## Strings -/

private theorem hexDigits_value {a b c d : Nat} (ha : a < 16) (hb : b < 16) (hc : c < 16) :
    ((((0 <<< 4) % 2 ^ 16 + a) <<< 4 % 2 ^ 16 + b) <<< 4 % 2 ^ 16 + c) <<< 4 % 2 ^ 16 + d =
      ((a * 16 + b) * 16 + c) * 16 + d := by
  simp only [Nat.shiftLeft_eq]
  omega

theorem parseHexDigits_agrees {a b c d : UInt8}
    (h : Rest input position (a :: b :: c :: d :: rest)) :
    Agrees (AtWith input) (parseHexDigits input 4 0 position)
      (Decoder.hexQuad (a :: b :: c :: d :: rest)) := by
  obtain ⟨_, hreada, _, h1⟩ := h.cons
  obtain ⟨_, hreadb, _, h2⟩ := h1.cons
  obtain ⟨_, hreadc, _, h3⟩ := h2.cons
  obtain ⟨_, hreadd, _, h4⟩ := h3.cons
  rw [Decoder.hexQuad, hexQuad?, parseHexDigits, hreada, Except.ok_bind]
  cases ha : Ascii.hexValue? a with
  | none => exact Agrees.fail _ _
  | some va =>
    simp only [parseHexDigits, hreadb, Except.ok_bind]
    cases hb : Ascii.hexValue? b with
    | none => exact Agrees.fail _ _
    | some vb =>
      simp only [hreadc, Except.ok_bind]
      cases hc : Ascii.hexValue? c with
      | none => exact Agrees.fail _ _
      | some vc =>
        simp only [hreadd, Except.ok_bind]
        cases hd : Ascii.hexValue? d with
        | none => exact Agrees.fail _ _
        | some vd =>
          refine Agrees.ok ⟨?_, h4⟩
          exact hexDigits_value (Ascii.hexValue?_lt ha) (Ascii.hexValue?_lt hb)
            (Ascii.hexValue?_lt hc)

theorem parseHexQuad_agrees (h : Rest input position rest) :
    Agrees (AtWith input) (parseHexQuad input position) (Decoder.hexQuad rest) := by
  rw [parseHexQuad, h.remaining, Except.ok_bind]
  match rest, h with
  | [], _ | [_], _ | [_, _], _ | [_, _, _], _ => exact Agrees.fail _ _
  | a :: b :: c :: d :: rest, h =>
    rw [if_neg (by simp only [List.length_cons]; omega)]
    exact parseHexDigits_agrees h

theorem hexQuad_eq_none (h : rest.length < 4) : Decoder.hexQuad rest = none := by
  match rest, h with
  | [], _ | [_], _ | [_, _], _ | [_, _, _], _ => rfl

/-- The lookahead finds an escape exactly when there is one with room for its
digits. -/
theorem lacksEscape_eq (h : Rest input position rest) :
    (∃ after, rest = Ascii.backslash :: Ascii.lowerU :: after ∧ 4 ≤ after.length ∧
        lacksEscape input position = .ok false) ∨
      Decoder.secondEscape rest = none ∧ lacksEscape input position = .ok true := by
  rw [lacksEscape, h.remaining, Except.ok_bind]
  by_cases hlen : rest.length < 6
  · refine Or.inr ⟨?_, by rw [if_pos hlen]⟩
    rcases rest with _ | ⟨b, _ | ⟨c, after⟩⟩
    · rfl
    · rw [Decoder.secondEscape, Decoder.byte]
      split_ifs <;> rfl
    · rw [Decoder.secondEscape, Decoder.byte]
      split_ifs
      · simp only [Option.bind_eq_bind, Option.bind_some, Decoder.byte]
        split_ifs
        · simp only [List.length_cons] at hlen
          exact hexQuad_eq_none (by omega)
        · rfl
      · rfl
  · rw [if_neg hlen]
    rcases rest with _ | ⟨b, _ | ⟨c, after⟩⟩
    · simp only [List.length_nil] at hlen
      omega
    · simp only [List.length_cons, List.length_nil] at hlen
      omega
    · obtain ⟨_, hreadb, _, hnext⟩ := h.cons
      rw [hreadb, hnext.cons.2.1]
      simp only [Except.ok_bind]
      by_cases hb : b = Ascii.backslash
      · rw [if_neg (not_not.mpr hb)]
        by_cases hc : c = Ascii.lowerU
        · refine Or.inl ⟨after, by rw [hb, hc], ?_, by simp [hc]⟩
          simp only [List.length_cons] at hlen
          omega
        · refine Or.inr ⟨?_, by simp [hc]⟩
          rw [Decoder.secondEscape, Decoder.byte, if_pos hb, Option.bind_eq_bind, Option.bind_some,
            Decoder.byte, if_neg hc]
          rfl
      · refine Or.inr ⟨?_, by rw [if_pos hb]⟩
        rw [Decoder.secondEscape, Decoder.byte, if_neg hb]
        rfl

theorem secondEscape_agrees (h : Rest input position rest) :
    Agrees (AtWith input)
      (do if ← lacksEscape input position then
            fail "high surrogate requires a low surrogate" position
          else parseHexQuad input (position + 2))
      (Decoder.secondEscape rest) := by
  rcases lacksEscape_eq h with ⟨after, rfl, _, hlacks⟩ | ⟨hsecond, hlacks⟩
  · have hafter : Rest input (position + 2) after := h.cons.2.2.2.cons.2.2.2
    simp only [hlacks, Except.ok_bind, Decoder.secondEscape, Decoder.byte, if_true,
      Option.bind_eq_bind, Option.bind_some, Bool.false_eq_true, if_false]
    exact parseHexQuad_agrees hafter
  · rw [hsecond, hlacks]
    exact Agrees.fail _ _

theorem parseUnicodeEscape_agrees (h : Rest input position rest) :
    Agrees (AtWith input) (parseUnicodeEscape input position) (Decoder.unicodeEscape rest) := by
  rw [parseUnicodeEscape, Decoder.unicodeEscape]
  refine (parseHexQuad_agrees h).bind fun (first, position) (first', rest) ⟨hfirst, hrest⟩ => ?_
  cases hfirst
  by_cases hhigh : isHighSurrogate first = true
  · have hpair := (secondEscape_agrees hrest).bind (L := AtWith input)
      (f := fun second => if isLowSurrogate second.1 then
          .ok (Utf8.append (combineSurrogates first second.1), second.2)
        else fail "invalid low surrogate" second.2)
      (g := fun second => if isLowSurrogate second.1 then
          some (Utf8.append (combineSurrogates first second.1), second.2) else none)
      fun (second, position) (second', rest) ⟨hsecond, hrest⟩ => by
        cases hsecond
        by_cases hlow : isLowSurrogate second = true
        · simp only [hlow, if_true]
          exact Agrees.ok ⟨rfl, hrest⟩
        · simp only [hlow]
          exact Agrees.fail _ _
    simp only [hhigh, if_true]
    rw [bind_assoc] at hpair
    convert hpair using 2
    funext lacks
    cases lacks <;> rfl
  · simp only [hhigh]
    by_cases hlow : isLowSurrogate first = true
    · simp only [hlow, if_true]
      exact Agrees.fail _ _
    · simp only [hlow]
      exact Agrees.ok ⟨rfl, hrest⟩

theorem parseEscape_agrees (h : Rest input position rest) :
    Agrees (AtWith input) (parseEscape input position) (Decoder.escape rest) := by
  cases rest with
  | nil =>
    rw [parseEscape, h.nil.1]
    exact Agrees.fail _ _
  | cons b rest =>
    obtain ⟨hend, hread, _, hnext⟩ := h.cons
    rw [parseEscape, hend, hread, Decoder.escape]
    simp only [Bool.false_eq_true, if_false, Except.ok_bind]
    cases simpleEscape? b with
    | some c => exact Agrees.ok ⟨rfl, hnext⟩
    | none =>
      by_cases hu : b = Ascii.lowerU
      · simp only [if_pos hu]
        exact parseUnicodeEscape_agrees hnext
      · simp only [if_neg hu]
        exact Agrees.fail _ _

/-- The loop over continuation bytes that are there. -/
theorem parseContinuations_eq {continuations after : Bytes} {index : Nat} (bits : Nat)
    (h : Rest input (position + index) (continuations ++ after)) :
    Agrees (fun value value' => value = value')
      (parseContinuations input position continuations.length index bits)
      (if continuations.all Utf8.isContinuation then
        some (continuations.foldl Utf8.pushContinuation bits) else none) := by
  induction continuations generalizing index bits with
  | nil => exact Agrees.ok rfl
  | cons b continuations ih =>
    obtain ⟨_, hread, _, hnext⟩ := h.cons
    rw [List.length_cons, parseContinuations, hread, Except.ok_bind, List.all_cons,
      List.foldl_cons]
    cases hb : Utf8.isContinuation b with
    | true => simpa only [Bool.true_and, if_true] using ih _ hnext
    | false => exact Agrees.fail _ _

theorem parseUtf8CodePoint_agrees (h : Rest input position (b :: rest)) :
    Agrees (AtWith input) (parseUtf8CodePoint input position) (Decoder.codePoint (b :: rest)) := by
  obtain ⟨_, hread, _, hnext⟩ := h.cons
  rw [parseUtf8CodePoint, hread, Except.ok_bind, Decoder.codePoint]
  cases hlead : Utf8.leadWidth b with
  | none => exact Agrees.fail _ _
  | some lead =>
    obtain ⟨width, bits⟩ := lead
    have hwidth : 2 ≤ width := by
      rcases Utf8.leadWidth_cases hlead with h | h | h <;> omega
    simp only [h.remaining, Except.ok_bind, Option.bind_eq_bind, Option.bind_some,
      List.length_cons]
    by_cases hshort : rest.length + 1 < width
    · rw [if_pos hshort, if_neg (by rw [List.length_take]; omega)]
      exact Agrees.fail _ _
    · rw [if_neg hshort]
      have hlen : (rest.take (width - 1)).length = width - 1 := by
        rw [List.length_take]
        omega
      have htake : Rest input (position + 1) (rest.take (width - 1) ++ rest.drop (width - 1)) := by
        rwa [List.take_append_drop]
      have hcont := parseContinuations_eq bits htake
      rw [hlen] at hcont
      have hafter : Rest input (position + width) (rest.drop (width - 1)) := by
        have := hnext.advance (n := width - 1) (by omega)
        rwa [show position + 1 + (width - 1) = position + width by omega] at this
      have hvalue := hcont.bind (L := AtWith input)
        (f := fun value => if Utf8.nonCanonical width value then
            fail "non-canonical UTF-8 sequence" position else .ok (value, position + width))
        (g := fun value => if Utf8.nonCanonical width value then none
            else some (value, rest.drop (width - 1)))
        fun value value' hvalue => by
          cases hvalue
          cases Utf8.nonCanonical width value with
          | true => exact Agrees.fail _ _
          | false => exact Agrees.ok ⟨rfl, hafter⟩
      by_cases hall : (rest.take (width - 1)).all Utf8.isContinuation = true
      · rw [if_pos hall] at hvalue
        rw [if_pos ⟨by omega, hall⟩]
        exact hvalue
      · rw [if_neg hall] at hvalue
        rw [if_neg fun h => hall h.2]
        exact hvalue

theorem parseStringLoop_agrees (fuel : Nat) (decoded : Bytes) (h : Rest input position rest) :
    Agrees (AtWith input) (parseStringLoop input fuel decoded position)
      (Decoder.stringLoop fuel decoded rest) := by
  induction fuel generalizing decoded position rest with
  | zero => exact Agrees.outOfFuel
  | succ fuel ih =>
    cases rest with
    | nil =>
      rw [parseStringLoop, h.nil.1]
      exact Agrees.fail _ _
    | cons b rest =>
      obtain ⟨hend, hread, _, hnext⟩ := h.cons
      rw [parseStringLoop, hend, hread, Decoder.stringLoop]
      simp only [Bool.false_eq_true, if_false, Except.ok_bind]
      by_cases hquote : b = Ascii.quote
      · simp only [if_pos hquote]
        exact Agrees.ok ⟨rfl, hnext⟩
      by_cases hescape : b = Ascii.backslash
      · simp only [if_neg hquote, if_pos hescape]
        refine (parseEscape_agrees hnext).bind fun (appended, position) (_, rest) hboth => ?_
        obtain ⟨happended, hrest⟩ := hboth
        cases happended
        exact ih _ hrest
      by_cases hcontrol : b < 0x20
      · simp only [if_neg hquote, if_neg hescape, if_pos hcontrol]
        exact Agrees.fail _ _
      by_cases hascii : b < 0x80
      · simp only [if_neg hquote, if_neg hescape, if_neg hcontrol, if_pos hascii]
        exact ih _ hnext
      · simp only [if_neg hquote, if_neg hescape, if_neg hcontrol, if_neg hascii]
        refine (parseUtf8CodePoint_agrees h).bind fun (value, position) (_, rest) hboth => ?_
        obtain ⟨hvalue, hrest⟩ := hboth
        cases hvalue
        exact ih _ hrest

theorem parseString_agrees (h : Rest input position rest) :
    Agrees (AtWith input) (parseString input position)
      (Decoder.string (loopFuel input) rest) :=
  (expect_agrees Ascii.quote h).bind fun _ _ hrest => parseStringLoop_agrees _ _ hrest

/-! ## Values -/

/-- One level of the recursion: what the five functions do with this fuel. -/
structure LevelAgrees (input : Bytes) (fuel : Nat) : Prop where
  value : ∀ {depth position rest}, Rest input position rest →
    Agrees (AtAfter input) (parseValue input fuel depth position)
      (Decoder.value (loopFuel input) fuel depth rest)
  object : ∀ {depth position rest}, Rest input position rest →
    Agrees (AtAfter input) (parseObject input fuel depth position)
      (Decoder.object (loopFuel input) fuel depth rest)
  members : ∀ {depth names position rest}, Rest input position rest →
    Agrees (AtAfter input) (parseMembers input fuel depth names position)
      (Decoder.members (loopFuel input) fuel depth names rest)
  array : ∀ {depth position rest}, Rest input position rest →
    Agrees (AtAfter input) (parseArray input fuel depth position)
      (Decoder.array (loopFuel input) fuel depth rest)
  elements : ∀ {depth position rest}, Rest input position rest →
    Agrees (AtAfter input) (parseElements input fuel depth position)
      (Decoder.elements (loopFuel input) fuel depth rest)

variable {fuel depth : Nat} {names : List Bytes}

theorem LevelAgrees.zero : LevelAgrees input 0 := by
  constructor
  · intros
    rw [parseValue, Decoder.value]
    exact Agrees.outOfFuel
  · intros
    rw [parseObject, Decoder.object]
    exact Agrees.outOfFuel
  · intros
    rw [parseMembers, Decoder.members]
    exact Agrees.outOfFuel
  · intros
    rw [parseArray, Decoder.array]
    exact Agrees.outOfFuel
  · intros
    rw [parseElements, Decoder.elements]
    exact Agrees.outOfFuel

theorem parseValue_step (ih : LevelAgrees input fuel) (h : Rest input position rest) :
    Agrees (AtAfter input) (parseValue input (fuel + 1) depth position)
      (Decoder.value (loopFuel input) (fuel + 1) depth rest) := by
  rw [parseValue, Decoder.value]
  by_cases hdepth : maximumDepth < depth
  · rw [if_pos hdepth, if_pos hdepth]
    exact Agrees.fail _ _
  rw [if_neg hdepth, if_neg hdepth]
  obtain ⟨after, hskip, hafter⟩ := skipWhitespace_rest h
  rw [hskip, Except.ok_bind]
  cases hrest : Decoder.skipWhitespace rest with
  | nil =>
    rw [hrest] at hafter
    rw [hafter.nil.2]
    exact Agrees.fail _ _
  | cons b rest =>
    rw [hrest] at hafter
    rw [hafter.cons.2.2.1, Except.ok_bind]
    dsimp only
    split_ifs
    · exact (ih.object hafter).build fun _ b hb => ⟨_, rfl, hb⟩
    · exact (ih.array hafter).build fun _ b hb => ⟨_, rfl, hb⟩
    · exact (parseString_agrees hafter).bind fun _ b hb => Agrees.ok hb.2
    · exact parseLiteral_agrees _ _ hafter
    · exact parseLiteral_agrees _ _ hafter
    · exact parseLiteral_agrees _ _ hafter
    · exact (parseNumber_agrees hafter).build fun _ b hb => ⟨_, rfl, hb⟩

theorem parseObject_step (ih : LevelAgrees input fuel) (h : Rest input position rest) :
    Agrees (AtAfter input) (parseObject input (fuel + 1) depth position)
      (Decoder.object (loopFuel input) (fuel + 1) depth rest) := by
  rw [parseObject, Decoder.object]
  refine (expect_agrees _ h).bind fun position rest hopen => ?_
  obtain ⟨after, hskip, hafter⟩ := skipWhitespace_rest hopen
  rw [hskip, Except.ok_bind]
  rcases atByte_byte Ascii.rightBrace hafter with
    ⟨closed, hbyte, hat, hclosed⟩ | ⟨hbyte, hat⟩
  · rw [hbyte, hat]
    exact Agrees.ok hclosed
  · rw [hbyte, hat]
    exact ih.members hafter

theorem parseArray_step (ih : LevelAgrees input fuel) (h : Rest input position rest) :
    Agrees (AtAfter input) (parseArray input (fuel + 1) depth position)
      (Decoder.array (loopFuel input) (fuel + 1) depth rest) := by
  rw [parseArray, Decoder.array]
  refine (expect_agrees _ h).bind fun position rest hopen => ?_
  obtain ⟨after, hskip, hafter⟩ := skipWhitespace_rest hopen
  rw [hskip, Except.ok_bind]
  rcases atByte_byte Ascii.rightBracket hafter with
    ⟨closed, hbyte, hat, hclosed⟩ | ⟨hbyte, hat⟩
  · rw [hbyte, hat]
    exact Agrees.ok hclosed
  · rw [hbyte, hat]
    exact ih.elements hafter

/-- After an item both sides take the closing byte and are done, or take a
comma and go on. -/
theorem close_or_comma {close : UInt8} {k : Nat → Scan Nat}
    {last more : Bytes → Option (δ × Bytes)} (h : Rest input position rest)
    (hlast : ∀ {position rest}, Rest input position rest →
      Agrees (AtAfter input) (.ok position) (last rest))
    (hmore : ∀ {position rest}, Rest input position rest →
      Agrees (AtAfter input) (k position) (more rest)) :
    Agrees (AtAfter input)
      (do if (← current input position) = close then .ok (position + 1)
          else
            let position ← expect input Ascii.comma position
            k position)
      (match Decoder.byte close rest with
        | some rest => last rest
        | none => do
          let rest ← Decoder.byte Ascii.comma rest
          more rest) := by
  have hcomma := (expect_agrees Ascii.comma h).bind (f := k) (g := more)
    fun _ _ hnext => hmore hnext
  cases rest with
  | nil =>
    rw [h.nil.2]
    exact Agrees.fail _ _
  | cons b rest =>
    obtain ⟨_, _, hcurrent, hnext⟩ := h.cons
    rw [hcurrent, Except.ok_bind, Decoder.byte]
    by_cases hb : b = close
    · rw [if_pos hb, if_pos hb]
      exact hlast hnext
    · rw [if_neg hb, if_neg hb]
      exact hcomma

theorem parseElements_step (ih : LevelAgrees input fuel) (h : Rest input position rest) :
    Agrees (AtAfter input) (parseElements input (fuel + 1) depth position)
      (Decoder.elements (loopFuel input) (fuel + 1) depth rest) := by
  rw [parseElements, Decoder.elements]
  refine (ih.value h).bind fun position decoded hvalue => ?_
  obtain ⟨after, hskip, hafter⟩ := skipWhitespace_rest hvalue
  rw [hskip, Except.ok_bind]
  exact close_or_comma hafter Agrees.ok
    fun hnext => (ih.elements hnext).build fun _ _ hrest => ⟨_, rfl, hrest⟩

theorem parseMembers_step (ih : LevelAgrees input fuel) (h : Rest input position rest) :
    Agrees (AtAfter input) (parseMembers input (fuel + 1) depth names position)
      (Decoder.members (loopFuel input) (fuel + 1) depth names rest) := by
  rw [parseMembers, Decoder.members]
  obtain ⟨after, hskip, hafter⟩ := skipWhitespace_rest h
  rw [hskip, Except.ok_bind]
  have hstring := parseString_agrees hafter
  cases hrest : Decoder.skipWhitespace rest with
  | nil =>
    rw [hrest] at hafter
    rw [hafter.nil.2]
    exact Agrees.fail _ _
  | cons b rest =>
    rw [hrest] at hafter hstring
    rw [hafter.cons.2.2.1, Except.ok_bind]
    by_cases hb : b = Ascii.quote
    · rw [if_neg (not_not.mpr hb)]
      refine hstring.bind fun scanned decoded hboth => ?_
      obtain ⟨name, position⟩ := scanned
      obtain ⟨_, rest⟩ := decoded
      obtain ⟨hname, hafter⟩ := hboth
      cases hname
      dsimp only
      by_cases hmem : name ∈ names
      · rw [if_pos hmem, if_pos hmem]
        exact Agrees.fail _ _
      rw [if_neg hmem, if_neg hmem]
      obtain ⟨after, hskip, hafter⟩ := skipWhitespace_rest hafter
      rw [hskip, Except.ok_bind]
      refine (expect_agrees _ hafter).bind fun position rest hcolon => ?_
      refine (ih.value hcolon).bind fun position decoded hvalue => ?_
      obtain ⟨after, hskip, hafter⟩ := skipWhitespace_rest hvalue
      rw [hskip, Except.ok_bind]
      exact close_or_comma hafter Agrees.ok
        fun hnext => (ih.members hnext).build fun _ _ hrest => ⟨_, rfl, hrest⟩
    · rw [if_pos hb, Decoder.string, Decoder.byte, if_neg hb]
      exact Agrees.fail _ _

theorem LevelAgrees.succ (ih : LevelAgrees input fuel) : LevelAgrees input (fuel + 1) :=
  ⟨parseValue_step ih, parseObject_step ih, parseMembers_step ih, parseArray_step ih,
    parseElements_step ih⟩

theorem levelAgrees (input : Bytes) (fuel : Nat) : LevelAgrees input fuel := by
  induction fuel with
  | zero => exact LevelAgrees.zero
  | succ fuel ih => exact ih.succ

/-- A scan agrees with `decode`. -/
theorem scan_agrees (input : Bytes) :
    Agrees (fun _ _ => True) (scan input) (Decoder.decode input) := by
  rw [scan, Decoder.decode]
  obtain ⟨start, hskip, hstart⟩ := skipWhitespace_rest (Rest.start input)
  rw [hskip, Except.ok_bind]
  refine ((levelAgrees input _).value hstart).bind fun position (v, rest) hvalue => ?_
  obtain ⟨after, hskip, hafter⟩ := skipWhitespace_rest hvalue
  rw [hskip, Except.ok_bind]
  have hlen := hafter.length
  have hle := hafter.le
  dsimp only at hlen ⊢
  by_cases hend : Decoder.skipWhitespace rest = []
  · rw [if_pos hend, if_neg (by rw [hend, List.length_nil] at hlen; omega)]
    exact Agrees.ok trivial
  · rw [if_neg hend, if_pos fun h => hend (List.length_eq_zero_iff.mp (by omega))]
    exact Agrees.fail _ _

end

end StrictScanner

end MissionWeave
