import MissionWeave.CodeLib.Edwards
import MissionWeave.CodeLib.LucasTest
import MissionWeave.SignedDocument.Point
import Mathlib.Tactic.NormNum.Prime

/-!
# The group of Edwards25519

The extended coordinates of the codec stand for points of the curve
`-x² + y² = 1 + d x² y²` over the integers modulo `2^255 - 19`.

* `prime_field`: the modulus is prime, by a chain of witnesses.
* `edwards25519`: the curve, with the complete addition law of `Edwards`.
* `extended_arithmetic`: `pointAdd`, `identity` and `scalarMultiply` are the sum,
  the test for zero and the multiple of that group.
-/

namespace MissionWeave

open ModularPower

/-! ## The field -/

/-- The witnesses of the chain pass their tests. -/
theorem passes_chain :
    Passes 2773320623 5 [2, 2437, 569003] ∧
    Passes 72106336199 7 [2, 13, 2773320623] ∧
    Passes 1919519569386763 2 [2, 3, 7, 19, 47, 47, 127, 8574133] ∧
    Passes 31757755568855353 10 [2, 2, 2, 3, 31, 107, 223, 4153, 430751] ∧
    Passes 75445702479781427272750846543864801 7
      [2, 2, 2, 2, 2, 3, 3, 5, 5, 75707, 72106336199, 1919519569386763] ∧
    Passes 74058212732561358302231226437062788676166966415465897661863160754340907 2
      [2, 3, 353, 57467, 132049, 1923133, 31757755568855353,
        75445702479781427272750846543864801] ∧
    Passes field 2 [2, 2, 3, 65147,
      74058212732561358302231226437062788676166966415465897661863160754340907] := by
  decide +kernel

theorem prime_2773320623 : Nat.Prime 2773320623 :=
  prime_of_witness 5 [2, 2437, 569003] (by norm_num) passes_chain.1

theorem prime_72106336199 : Nat.Prime 72106336199 :=
  prime_of_witness 7 [2, 13, 2773320623]
    (by
      simp only [List.forall_cons, prime_2773320623]
      norm_num)
    passes_chain.2.1

theorem prime_1919519569386763 : Nat.Prime 1919519569386763 :=
  prime_of_witness 2 [2, 3, 7, 19, 47, 47, 127, 8574133] (by norm_num) passes_chain.2.2.1

theorem prime_31757755568855353 : Nat.Prime 31757755568855353 :=
  prime_of_witness 10 [2, 2, 2, 3, 31, 107, 223, 4153, 430751] (by norm_num)
    passes_chain.2.2.2.1

theorem prime_75445702479781427272750846543864801 :
    Nat.Prime 75445702479781427272750846543864801 :=
  prime_of_witness 7 [2, 2, 2, 2, 2, 3, 3, 5, 5, 75707, 72106336199, 1919519569386763]
    (by
      simp only [List.forall_cons, prime_72106336199, prime_1919519569386763]
      norm_num)
    passes_chain.2.2.2.2.1

theorem prime_field_factor :
    Nat.Prime 74058212732561358302231226437062788676166966415465897661863160754340907 :=
  prime_of_witness 2
    [2, 3, 353, 57467, 132049, 1923133, 31757755568855353, 75445702479781427272750846543864801]
    (by
      simp only [List.forall_cons, prime_31757755568855353,
        prime_75445702479781427272750846543864801]
      norm_num)
    passes_chain.2.2.2.2.2.1

theorem prime_field : field.Prime :=
  prime_of_witness 2
    [2, 2, 3, 65147, 74058212732561358302231226437062788676166966415465897661863160754340907]
    (by
      simp only [List.forall_cons, prime_field_factor]
      norm_num)
    passes_chain.2.2.2.2.2.2

instance : Fact field.Prime := ⟨prime_field⟩

/-- The constants of the curve, as numbers. -/
theorem curve_constants :
    field ∣ sqrtM1 * sqrtM1 + 1 ∧ power field curveD ((field - 1) / 2) ≠ 1 ∧ ¬field ∣ curveD ∧
      ¬field ∣ 2 := by
  decide +kernel

theorem sqrtM1_mul_self : (sqrtM1 : ZMod field) * sqrtM1 = -1 := by
  rw [eq_neg_iff_add_eq_zero, ← Nat.cast_mul, ← Nat.cast_add_one, ZMod.natCast_eq_zero_iff]
  exact curve_constants.1

theorem isSquare_neg_one : IsSquare (-1 : ZMod field) := ⟨sqrtM1, sqrtM1_mul_self.symm⟩

theorem not_isSquare_curveD : ¬IsSquare (curveD : ZMod field) := by
  apply not_isSquare_of_power _ curve_constants.2.1 (by decide)
  rw [ne_eq, ZMod.natCast_eq_zero_iff]
  exact curve_constants.2.2.1

theorem two_ne_zero_field : (2 : ZMod field) ≠ 0 := by
  rw [← Nat.cast_two, ne_eq, ZMod.natCast_eq_zero_iff]
  exact curve_constants.2.2.2

/-- `-x² + y² = 1 + d x² y²`. -/
def edwards25519 : Edwards.Curve (ZMod field) where
  a := -1
  d := curveD
  isSquare_a := isSquare_neg_one
  not_isSquare_d := not_isSquare_curveD
  two_ne_zero := two_ne_zero_field

/-! ## The modular helpers -/

theorem field_pos : 0 < field := by decide

@[simp] theorem cast_add_field (left right : Nat) :
    ((add left right : Nat) : ZMod field) = left + right := by
  rw [add, ZMod.natCast_mod, Nat.cast_add]

@[simp] theorem cast_subtract (left right : Nat) :
    ((subtract left right : Nat) : ZMod field) = left - right := by
  have hle : right % field ≤ field := (Nat.mod_lt _ field_pos).le
  rw [subtract, ZMod.natCast_mod, Nat.cast_add, Nat.cast_sub hle, ZMod.natCast_self,
    ZMod.natCast_mod, zero_sub, sub_eq_add_neg]

@[simp] theorem cast_multiply (left right : Nat) :
    ((multiply left right : Nat) : ZMod field) = left * right := by
  rw [multiply, ZMod.natCast_mod, Nat.cast_mul]

theorem multiply_lt (left right : Nat) : multiply left right < field := Nat.mod_lt _ field_pos

/-! ## Points in extended coordinates -/

/-- The coordinates as elements of the field. -/
def Point.extended (point : Point) : Edwards.Extended (ZMod field) :=
  ⟨point.x, point.y, point.z, point.t⟩

structure Point.Reduced (point : Point) : Prop where
  x_lt : point.x < field
  y_lt : point.y < field
  z_lt : point.z < field
  t_lt : point.t < field

theorem extended_pointAdd (left right : Point) :
    (pointAdd left right).extended =
      Edwards.Extended.add edwards25519.d left.extended right.extended := by
  unfold MissionWeave.pointAdd Point.extended Edwards.Extended.add edwards25519
  simp only [cast_add_field, cast_subtract, cast_multiply, Nat.cast_ofNat]

theorem reduced_pointAdd (left right : Point) : (pointAdd left right).Reduced :=
  ⟨multiply_lt _ _, multiply_lt _ _, multiply_lt _ _, multiply_lt _ _⟩

/-- The coordinates stand for a point of the curve, and the numbers are reduced. -/
structure Represents (point : Point) (P : Edwards.Point edwards25519) : Prop where
  reduced : point.Reduced
  extended : Edwards.Represents point.extended P

namespace Represents

variable {left right point : Point} {P Q : Edwards.Point edwards25519}

theorem pointAdd (hleft : Represents left P) (hright : Represents right Q) :
    Represents (pointAdd left right) (P + Q) where
  reduced := reduced_pointAdd left right
  extended := by
    rw [extended_pointAdd]
    exact Edwards.Represents.add rfl hleft.extended hright.extended

theorem zero : Represents ⟨0, 1, 1, 0⟩ 0 where
  reduced := ⟨by decide, by decide, by decide, by decide⟩
  extended := by
    unfold Point.extended
    rw [Nat.cast_zero, Nat.cast_one]
    exact Edwards.Represents.zero

theorem natCast_eq_natCast {a b : Nat} (ha : a < field) (hb : b < field) :
    (a : ZMod field) = b ↔ a = b := by
  rw [ZMod.natCast_eq_natCast_iff', Nat.mod_eq_of_lt ha, Nat.mod_eq_of_lt hb]

theorem identity (h : Represents point P) : identity point = true ↔ P = 0 := by
  have hx := natCast_eq_natCast h.reduced.x_lt field_pos
  have hyz := natCast_eq_natCast h.reduced.y_lt h.reduced.z_lt
  rw [Nat.cast_zero] at hx
  rw [h.extended.eq_zero_iff, MissionWeave.identity, Bool.and_eq_true, beq_iff_eq, beq_iff_eq]
  show _ ↔ (point.x : ZMod field) = 0 ∧ (point.y : ZMod field) = point.z
  rw [hx, hyz]

/-- The running point is the multiple by the next power of two, and the result
the multiple by the bits of the scalar below it. -/
theorem scalarMultiplyLoop (scalar count bit : Nat) (P : Edwards.Point edwards25519)
    {point result : Point} (hpoint : Represents point (2 ^ bit • P))
    (hresult : Represents result ((scalar % 2 ^ bit) • P)) :
    Represents (scalarMultiplyLoop scalar count bit point result)
      ((scalar % 2 ^ (bit + count)) • P) := by
  induction count generalizing bit point result with
  | zero => exact hresult
  | succ count ih =>
    have hdouble : Represents (MissionWeave.pointAdd point point) (2 ^ (bit + 1) • P) := by
      rw [pow_succ, Nat.mul_two, add_nsmul]
      exact hpoint.pointAdd hpoint
    have hbits : scalar % 2 ^ (bit + 1) =
        scalar % 2 ^ bit + 2 ^ bit * (scalar / 2 ^ bit % 2) := Nat.mod_pow_succ
    rw [MissionWeave.scalarMultiplyLoop, show bit + (count + 1) = bit + 1 + count by omega]
    apply ih (bit + 1) hdouble
    rw [hbits]
    by_cases hbit : scalar.testBit bit = true
    · rw [if_pos hbit]
      rw [Nat.testBit_eq_decide_div_mod_eq, decide_eq_true_eq] at hbit
      rw [hbit, Nat.mul_one, add_nsmul]
      exact hresult.pointAdd hpoint
    · rw [if_neg hbit]
      rw [Nat.testBit_eq_decide_div_mod_eq, decide_eq_true_eq] at hbit
      rw [show scalar / 2 ^ bit % 2 = 0 by omega, Nat.mul_zero, Nat.add_zero]
      exact hresult

theorem scalarMultiply (scalar : Nat) (h : Represents point P) :
    Represents (scalarMultiply point scalar) (scalar • P) := by
  have hloop := scalarMultiplyLoop scalar (numBits scalar) 0 P
    (by rw [pow_zero, one_nsmul]; exact h)
    (by rw [pow_zero, Nat.mod_one, zero_nsmul]; exact zero)
  rw [Nat.zero_add, Nat.mod_eq_of_lt (lt_two_pow_numBits scalar)] at hloop
  exact hloop

end Represents

/-! ## The invariant of the coordinates -/

/-- Reduced coordinates `(X : Y : Z : T)` of a point of the curve. -/
structure ExtendedPoint where
  point : Point
  reduced : point.Reduced
  z_ne_zero : (point.z : ZMod field) ≠ 0
  product : (point.x : ZMod field) * point.y = point.z * point.t
  onCurve : edwards25519.OnCurve (point.x / point.z) (point.y / point.z)

namespace ExtendedPoint

/-- The point `(X / Z, Y / Z)`. -/
def affine (p : ExtendedPoint) : Edwards.Point edwards25519 :=
  ⟨p.point.x / p.point.z, p.point.y / p.point.z, p.onCurve⟩

theorem represents (p : ExtendedPoint) : Represents p.point p.affine where
  reduced := p.reduced
  extended := ⟨p.z_ne_zero, p.product, rfl, rfl⟩

theorem exists_of_represents {point : Point} {P : Edwards.Point edwards25519}
    (h : Represents point P) : ∃ p : ExtendedPoint, p.point = point ∧ p.affine = P := by
  have hx : (point.x / point.z : ZMod field) = P.x := h.extended.x_eq
  have hy : (point.y / point.z : ZMod field) = P.y := h.extended.y_eq
  have honCurve : edwards25519.OnCurve (point.x / point.z) (point.y / point.z) := by
    rw [hx, hy]
    exact P.onCurve
  refine ⟨⟨point, h.reduced, h.extended.Z_ne_zero, h.extended.product, honCurve⟩, rfl, ?_⟩
  exact Edwards.Point.ext hx hy

end ExtendedPoint

/-- The operations on extended coordinates keep their invariant, and implement
the group of the curve. -/
theorem extended_arithmetic :
    (∀ p q : ExtendedPoint, ∃ sum : ExtendedPoint,
      sum.point = pointAdd p.point q.point ∧ sum.affine = p.affine + q.affine) ∧
    (∀ p : ExtendedPoint, identity p.point = true ↔ p.affine.x = 0 ∧ p.affine.y = 1) ∧
    ∀ (p : ExtendedPoint) (n : Nat), ∃ multiple : ExtendedPoint,
      multiple.point = scalarMultiply p.point n ∧ multiple.affine = n • p.affine := by
  refine ⟨?_, ?_, ?_⟩
  · intro p q
    exact ExtendedPoint.exists_of_represents (p.represents.pointAdd q.represents)
  · intro p
    rw [p.represents.identity, Edwards.Point.ext_iff]
    rfl
  · intro p n
    exact ExtendedPoint.exists_of_represents (p.represents.scalarMultiply n)

end MissionWeave
