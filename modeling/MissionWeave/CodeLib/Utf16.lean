import MissionWeave.CodeLib.SymbolCode
import MissionWeave.CodeLib.Utf8

/-!
# UTF-16

The encoding form of the Unicode standard: a character of the basic plane is
one code unit, any other one is a high surrogate and a low one.

* `encodeAll_injective`: the code units determine the characters.
-/

namespace MissionWeave.Utf16

/-- The code units of a character. -/
def encode (c : Char) : List UInt16 :=
  if c.toNat < 0x10000 then [UInt16.ofNat c.toNat]
  else
    [UInt16.ofNat (0xD800 + (c.toNat - 0x10000) / 0x400),
      UInt16.ofNat (0xDC00 + (c.toNat - 0x10000) % 0x400)]

def encodeAll (cs : List Char) : List UInt16 := cs.flatMap encode

private theorem unit_inj {m n : Nat} (hm : m < 0x10000) (hn : n < 0x10000)
    (h : UInt16.ofNat m = UInt16.ofNat n) : m = n := by
  have hnat := congrArg UInt16.toNat h
  rwa [UInt16.toNat_ofNat_of_lt' hm, UInt16.toNat_ofNat_of_lt' hn] at hnat

/-- The first code unit tells a surrogate pair from a character of the basic
plane, since no character is a surrogate. -/
theorem separated_encode : SymbolCode.Separated encode where
  split {c d s t} h := by
    have hc := Utf8.toNat_bounds c
    have hd := Utf8.toNat_bounds d
    unfold encode at h
    split_ifs at h with hc' hd' hd'
    all_goals
      simp only [List.cons_append, List.nil_append, List.cons.injEq] at h
      have hfirst := unit_inj (by omega) (by omega) h.1
    · exact ⟨Char.toNat_inj.mp hfirst, h.2⟩
    · omega
    · omega
    · have hsecond := unit_inj (by omega) (by omega) h.2.1
      exact ⟨Char.toNat_inj.mp (by omega), h.2.2⟩
  nonempty c h := by
    unfold encode at h
    split_ifs at h

/-- The code units determine the characters. -/
theorem encodeAll_injective : Function.Injective encodeAll := separated_encode.flatMap_injective

end MissionWeave.Utf16
