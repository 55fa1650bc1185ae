import Mathlib.Tactic.Ring
import Mathlib.Tactic.SplitIfs

/-!
# Byte strings

The C++ sources pass `std::string_view` and `AssetBytes` around.  Both are
modelled as a list of `UInt8`.  `ascii` turns a Lean string literal into the
bytes of the C++ literal it stands for, and the abbreviations of `Ascii` name
the characters that the scanners compare against.

The order of byte strings is the instance `Ord (List UInt8)` of the core
library: unsigned, byte by byte, a prefix first.  It is the order of
`std::string`, hence of the keys of a `std::map`.
-/

namespace MissionWeave

/-- A byte string. -/
abbrev Bytes := List UInt8

instance : LawfulBEq Bytes := inferInstance

/-- The bytes of a literal. -/
def ascii (text : String) : Bytes := text.toByteArray.data.toList

/-- The text of UTF-8 bytes. -/
def text (bytes : Bytes) : String := (String.fromUTF8? ⟨bytes.toArray⟩).getD ""

/-- A property of all bytes of a literal can be decided byte by byte. -/
theorem forall_mem_of_all {p : UInt8 → Prop} [DecidablePred p] {bytes : Bytes}
    (h : bytes.all (fun b => decide (p b)) = true) : ∀ b ∈ bytes, p b := by
  intro b hb
  exact of_decide_eq_true (List.all_eq_true.mp h b hb)

namespace Ascii

abbrev backspace : UInt8 := 0x08
abbrev tab : UInt8 := 0x09
abbrev lineFeed : UInt8 := 0x0A
abbrev formFeed : UInt8 := 0x0C
abbrev carriageReturn : UInt8 := 0x0D
abbrev space : UInt8 := 0x20
abbrev quote : UInt8 := 0x22
abbrev plus : UInt8 := 0x2B
abbrev comma : UInt8 := 0x2C
abbrev minus : UInt8 := 0x2D
abbrev point : UInt8 := 0x2E
abbrev slash : UInt8 := 0x2F
abbrev zero : UInt8 := 0x30
abbrev one : UInt8 := 0x31
abbrev nine : UInt8 := 0x39
abbrev colon : UInt8 := 0x3A
abbrev equals : UInt8 := 0x3D
abbrev upperE : UInt8 := 0x45
abbrev leftBracket : UInt8 := 0x5B
abbrev backslash : UInt8 := 0x5C
abbrev rightBracket : UInt8 := 0x5D
abbrev underscore : UInt8 := 0x5F
abbrev lowerB : UInt8 := 0x62
abbrev lowerE : UInt8 := 0x65
abbrev lowerF : UInt8 := 0x66
abbrev lowerN : UInt8 := 0x6E
abbrev lowerR : UInt8 := 0x72
abbrev lowerT : UInt8 := 0x74
abbrev lowerU : UInt8 := 0x75
abbrev leftBrace : UInt8 := 0x7B
abbrev rightBrace : UInt8 := 0x7D

/-- `value >= '0' && value <= '9'`. -/
def isDigit (b : UInt8) : Bool := zero ≤ b && b ≤ nine

/-- A letter of the English alphabet, in either case. -/
def isAlpha (b : UInt8) : Bool :=
  (0x41 ≤ b && b ≤ 0x5A) || (0x61 ≤ b && b ≤ 0x7A)

/-- The value of a hexadecimal digit in either case. -/
def hexValue? (b : UInt8) : Option Nat :=
  if isDigit b then some (b.toNat - 0x30)
  else if 0x61 ≤ b && b ≤ 0x66 then some (b.toNat - 0x61 + 10)
  else if 0x41 ≤ b && b ≤ 0x46 then some (b.toNat - 0x41 + 10)
  else none

theorem hexValue?_lt {b : UInt8} {v : Nat} (h : hexValue? b = some v) : v < 16 := by
  unfold hexValue? isDigit at h
  split at h
  · rename_i hd
    simp only [Bool.and_eq_true, decide_eq_true_eq, UInt8.le_iff_toNat_le] at hd
    simp only [Option.some.injEq] at h
    have : nine.toNat = 0x39 := rfl
    omega
  · split at h
    · rename_i hd
      simp only [Bool.and_eq_true, decide_eq_true_eq, UInt8.le_iff_toNat_le] at hd
      simp only [Option.some.injEq] at h
      have : (0x66 : UInt8).toNat = 0x66 := rfl
      omega
    · split at h
      · rename_i hd
        simp only [Bool.and_eq_true, decide_eq_true_eq, UInt8.le_iff_toNat_le] at hd
        simp only [Option.some.injEq] at h
        have : (0x46 : UInt8).toNat = 0x46 := rfl
        omega
      · cases h

end Ascii

/-- The value of a run of decimal digits. -/
def digitsValue (digits : Bytes) : Nat :=
  digits.foldl (fun value d => value * 10 + (d.toNat - 0x30)) 0

/-- Reading on from an accumulator shifts it past the digits that follow. -/
theorem foldl_digits (acc : Nat) (ds : Bytes) :
    ds.foldl (fun value d => value * 10 + (d.toNat - 0x30)) acc =
      acc * 10 ^ ds.length + digitsValue ds := by
  unfold digitsValue
  induction ds generalizing acc with
  | nil => simp
  | cons d ds ih =>
    rw [List.foldl_cons, List.foldl_cons, ih, ih (0 * 10 + (d.toNat - 0x30))]
    rw [List.length_cons, pow_succ]
    ring

theorem digitsValue_append (xs ys : Bytes) :
    digitsValue (xs ++ ys) = digitsValue xs * 10 ^ ys.length + digitsValue ys := by
  rw [digitsValue, List.foldl_append, foldl_digits]
  rfl

end MissionWeave
