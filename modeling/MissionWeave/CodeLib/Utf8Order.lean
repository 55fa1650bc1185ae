import MissionWeave.CodeLib.SymbolCode
import MissionWeave.CodeLib.Utf8
import Mathlib.Data.Char
import Mathlib.Data.UInt

/-!
# The order of UTF-8

The bytes of UTF-8, compared as unsigned numbers, are in the order of the code
points.

* `encodeAll_lt_iff`: the order of two strings is that of their encodings.
-/

namespace MissionWeave.Utf8

private theorem byte_lt {m n : Nat} (hm : m < 256) (hn : n < 256) :
    UInt8.ofNat m < UInt8.ofNat n ↔ m < n := by
  rw [UInt8.lt_iff_toNat_lt, UInt8.toNat_ofNat_of_lt' hm, UInt8.toNat_ofNat_of_lt' hn]

private theorem byte_eq {m n : Nat} (hm : m < 256) (hn : n < 256) :
    UInt8.ofNat m = UInt8.ofNat n ↔ m = n := by
  rw [← UInt8.toNat_inj, UInt8.toNat_ofNat_of_lt' hm, UInt8.toNat_ofNat_of_lt' hn]

/-- Of two characters the smaller one has the smaller bytes. -/
theorem encode_lt {c d : Char} (h : c.toNat < d.toNat) (s t : Bytes) :
    String.utf8EncodeChar c ++ s < String.utf8EncodeChar d ++ t := by
  have hc := toNat_bounds c
  have hd := toNat_bounds d
  have hcval : c.val.toNat = c.toNat := rfl
  have hdval : d.val.toNat = d.toNat := rfl
  unfold String.utf8EncodeChar
  rw [hcval, hdval]
  clear hcval hdval
  have hdiv2 (n : Nat) : n / 4096 = n / 64 / 64 := by omega
  have hdiv3 (n : Nat) : n / 262144 = n / 64 / 64 / 64 := by omega
  dsimp only
  -- the widths of the two characters; a wider character is never the smaller one
  split_ifs
  all_goals
    first
    | omega
    | simp (disch := omega) only [List.cons_append, List.nil_append, List.cons_lt_cons_iff,
        byte_lt, byte_eq, hdiv2, hdiv3]
      omega

theorem ordered_encode : SymbolCode.Ordered String.utf8EncodeChar where
  lt := fun {c d} h s t => encode_lt (Char.lt_def.mp h) s t
  nonempty := fun c h => by
    have hlength := congrArg List.length h
    rw [String.length_utf8EncodeChar, List.length_nil] at hlength
    exact absurd hlength (Nat.ne_of_gt (Char.utf8Size_pos c))

/-- The order of two strings is that of their encodings. -/
theorem encodeAll_lt_iff {cs ds : List Char} : encodeAll cs < encodeAll ds ↔ cs < ds :=
  ordered_encode.flatMap_lt_iff

end MissionWeave.Utf8
