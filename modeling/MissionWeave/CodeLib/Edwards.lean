import Mathlib.Algebra.Field.Basic
import Mathlib.Algebra.Group.Even
import Mathlib.Tactic.FieldSimp
import Mathlib.Tactic.LinearCombination
import Mathlib.Tactic.Ring

/-!
# Edwards curves

The group of a complete twisted Edwards curve `a x² + y² = 1 + d x² y²`: `a` is
a square and `d` is none, so that no denominator of the addition law vanishes.

* `plus_ne_zero`, `minus_ne_zero`: the addition law is complete.
* the instance `AddCommGroup (Point C)`.
* `Represents.add`, `Represents.zero`, `Represents.eq_zero_iff`: the extended
  coordinates of a curve with `a = -1`.
-/

namespace Edwards

structure Curve (K : Type*) [Field K] where
  a : K
  d : K
  isSquare_a : IsSquare a
  not_isSquare_d : ¬IsSquare d
  two_ne_zero : (2 : K) ≠ 0

variable {K : Type*} [Field K]

def Curve.OnCurve (C : Curve K) (x y : K) : Prop :=
  C.a * x ^ 2 + y ^ 2 = 1 + C.d * x ^ 2 * y ^ 2

@[ext]
structure Point (C : Curve K) where
  x : K
  y : K
  onCurve : C.OnCurve x y

variable {C : Curve K}

/-! ## Completeness -/

theorem isSquare_of_sq_eq {d u v : K} (h : u ^ 2 = d * v ^ 2) (hv : v ≠ 0) : IsSquare d := by
  refine ⟨u / v, ?_⟩
  rw [div_mul_div_comm, ← pow_two, ← pow_two, h, mul_div_cancel_right₀ _ (pow_ne_zero 2 hv)]

/-- With a square root `r` of `a`, the point `(x₂, y₂)` lies on a line through the
origin whenever the product of the denominators vanishes. -/
theorem root_mul_add_eq_zero {x₁ y₁ x₂ y₂ r : K} (h₁ : C.OnCurve x₁ y₁) (h₂ : C.OnCurve x₂ y₂)
    (hr : r * r = C.a) (h : (C.d * (x₁ * x₂ * y₁ * y₂)) ^ 2 = 1) : r * x₂ + y₂ = 0 := by
  unfold Curve.OnCurve at h₁ h₂
  by_contra hne
  have hxy : x₁ * y₁ ≠ 0 := by
    intro hzero
    have hprod : C.d * (x₁ * x₂ * y₁ * y₂) = 0 := by
      linear_combination C.d * x₂ * y₂ * hzero
    rw [hprod, zero_pow two_ne_zero] at h
    exact zero_ne_one h
  apply C.not_isSquare_d
  apply isSquare_of_sq_eq (u := r * x₁ + C.d * (x₁ * x₂ * y₁ * y₂) * y₁)
    (v := x₁ * y₁ * (r * x₂ + y₂)) ?_ (mul_ne_zero hxy hne)
  linear_combination
    (x₁ ^ 2 - C.d * x₁ ^ 2 * y₁ ^ 2 * x₂ ^ 2) * hr + h₁ - C.d * x₁ ^ 2 * y₁ ^ 2 * h₂ +
      (y₁ ^ 2 - 1) * h

theorem sq_ne_one {x₁ y₁ x₂ y₂ : K} (h₁ : C.OnCurve x₁ y₁) (h₂ : C.OnCurve x₂ y₂) :
    (C.d * (x₁ * x₂ * y₁ * y₂)) ^ 2 ≠ 1 := by
  intro h
  obtain ⟨r, hr⟩ := C.isSquare_a
  have hplus : r * x₂ + y₂ = 0 := root_mul_add_eq_zero h₁ h₂ hr.symm h
  have hminus : -r * x₂ + y₂ = 0 := by
    apply root_mul_add_eq_zero h₁ h₂ _ h
    rw [neg_mul_neg]
    exact hr.symm
  have hdouble : 2 * y₂ = 0 := by linear_combination hplus + hminus
  have hzero : y₂ = 0 := (mul_eq_zero.mp hdouble).resolve_left C.two_ne_zero
  rw [hzero, mul_zero, mul_zero, zero_pow two_ne_zero] at h
  exact zero_ne_one h

namespace Point

/-- The denominator of the first coordinate of a sum. -/
def plus (P Q : Point C) : K := 1 + C.d * (P.x * Q.x * P.y * Q.y)

/-- The denominator of the second coordinate of a sum. -/
def minus (P Q : Point C) : K := 1 - C.d * (P.x * Q.x * P.y * Q.y)

theorem plus_ne_zero (P Q : Point C) : plus P Q ≠ 0 := by
  intro h
  unfold plus at h
  apply sq_ne_one P.onCurve Q.onCurve
  linear_combination (C.d * (P.x * Q.x * P.y * Q.y) - 1) * h

theorem minus_ne_zero (P Q : Point C) : minus P Q ≠ 0 := by
  intro h
  unfold minus at h
  apply sq_ne_one P.onCurve Q.onCurve
  linear_combination -(C.d * (P.x * Q.x * P.y * Q.y) + 1) * h

end Point

/-! ## The addition law

The identities below hold between the numerators and the denominators of the
coordinates of sums; each is a combination of the equations of the points. -/

section Identities

variable {a d x₁ y₁ x₂ y₂ x₃ y₃ : K}

theorem closure_identity (h₁ : a * x₁ ^ 2 + y₁ ^ 2 = 1 + d * x₁ ^ 2 * y₁ ^ 2)
    (h₂ : a * x₂ ^ 2 + y₂ ^ 2 = 1 + d * x₂ ^ 2 * y₂ ^ 2) :
    a * (x₁ * y₂ + y₁ * x₂) ^ 2 * (1 - d * (x₁ * x₂ * y₁ * y₂)) ^ 2 +
        (y₁ * y₂ - a * (x₁ * x₂)) ^ 2 * (1 + d * (x₁ * x₂ * y₁ * y₂)) ^ 2 =
      (1 + d * (x₁ * x₂ * y₁ * y₂)) ^ 2 * (1 - d * (x₁ * x₂ * y₁ * y₂)) ^ 2 +
        d * (x₁ * y₂ + y₁ * x₂) ^ 2 * (y₁ * y₂ - a * (x₁ * x₂)) ^ 2 := by
  -- `a (x₁y₂ + y₁x₂)² + (y₁y₂ - a x₁x₂)²` is the product of the two left sides.
  linear_combination
    ((a * x₂ ^ 2 + y₂ ^ 2) * (1 + (d * x₁ ^ 2 * y₁ ^ 2) * (d * x₂ ^ 2 * y₂ ^ 2)) -
      (d * x₂ ^ 2 * y₂ ^ 2) * (a * x₁ ^ 2 + y₁ ^ 2 + 1 + (d * x₁ ^ 2 * y₁ ^ 2))) * h₁ +
    ((1 + d * x₁ ^ 2 * y₁ ^ 2) * (1 + (d * x₁ ^ 2 * y₁ ^ 2) * (d * x₂ ^ 2 * y₂ ^ 2)) -
      (d * x₁ ^ 2 * y₁ ^ 2) * (a * x₂ ^ 2 + y₂ ^ 2 + 1 + (d * x₂ ^ 2 * y₂ ^ 2))) * h₂

theorem assoc_identity_x (h₁ : a * x₁ ^ 2 + y₁ ^ 2 = 1 + d * x₁ ^ 2 * y₁ ^ 2)
    (h₂ : a * x₂ ^ 2 + y₂ ^ 2 = 1 + d * x₂ ^ 2 * y₂ ^ 2)
    (h₃ : a * x₃ ^ 2 + y₃ ^ 2 = 1 + d * x₃ ^ 2 * y₃ ^ 2) :
    ((x₁ * y₂ + y₁ * x₂) * (1 - d * (x₁ * x₂ * y₁ * y₂)) * y₃ +
          (y₁ * y₂ - a * (x₁ * x₂)) * (1 + d * (x₁ * x₂ * y₁ * y₂)) * x₃) *
        ((1 - d * (x₂ * x₃ * y₂ * y₃)) * (1 + d * (x₂ * x₃ * y₂ * y₃)) +
          d * (x₁ * y₁ * (x₂ * y₃ + y₂ * x₃) * (y₂ * y₃ - a * (x₂ * x₃)))) =
      (x₁ * (y₂ * y₃ - a * (x₂ * x₃)) * (1 + d * (x₂ * x₃ * y₂ * y₃)) +
          y₁ * (x₂ * y₃ + y₂ * x₃) * (1 - d * (x₂ * x₃ * y₂ * y₃))) *
        ((1 - d * (x₁ * x₂ * y₁ * y₂)) * (1 + d * (x₁ * x₂ * y₁ * y₂)) +
          d * ((x₁ * y₂ + y₁ * x₂) * (y₁ * y₂ - a * (x₁ * x₂)) * x₃ * y₃)) := by
  linear_combination
    -(d * x₂ * y₂ * x₃ * y₃ * (x₁ * x₂ * x₃ * (a - d * y₂ ^ 2 * y₃ ^ 2) +
      y₁ * y₂ * x₃ * (1 - d * x₂ ^ 2 * y₃ ^ 2) + y₁ * x₂ * y₃ * (1 - d * x₃ ^ 2 * y₂ ^ 2) -
      x₁ * y₂ * y₃ * (1 - a * d * x₂ ^ 2 * x₃ ^ 2))) * h₁ +
    d ^ 2 * x₁ * y₁ * x₂ * y₂ * x₃ * y₃ * (x₁ * x₂ * y₃ * (y₁ ^ 2 - a * x₃ ^ 2) +
      y₁ * y₂ * y₃ * (x₃ ^ 2 - x₁ ^ 2) - y₁ * x₂ * x₃ * (y₃ ^ 2 - a * x₁ ^ 2) -
      x₁ * y₂ * x₃ * (y₃ ^ 2 - y₁ ^ 2)) * h₂ +
    d * x₁ * y₁ * x₂ * y₂ * (x₁ * x₂ * x₃ * (a - d * y₁ ^ 2 * y₂ ^ 2) +
      x₁ * y₂ * y₃ * (1 - d * x₂ ^ 2 * y₁ ^ 2) + y₁ * x₂ * y₃ * (1 - d * x₁ ^ 2 * y₂ ^ 2) -
      y₁ * y₂ * x₃ * (1 - a * d * x₁ ^ 2 * x₂ ^ 2)) * h₃

theorem assoc_identity_y (h₁ : a * x₁ ^ 2 + y₁ ^ 2 = 1 + d * x₁ ^ 2 * y₁ ^ 2)
    (h₂ : a * x₂ ^ 2 + y₂ ^ 2 = 1 + d * x₂ ^ 2 * y₂ ^ 2)
    (h₃ : a * x₃ ^ 2 + y₃ ^ 2 = 1 + d * x₃ ^ 2 * y₃ ^ 2) :
    ((y₁ * y₂ - a * (x₁ * x₂)) * (1 + d * (x₁ * x₂ * y₁ * y₂)) * y₃ -
          a * ((x₁ * y₂ + y₁ * x₂) * (1 - d * (x₁ * x₂ * y₁ * y₂)) * x₃)) *
        ((1 - d * (x₂ * x₃ * y₂ * y₃)) * (1 + d * (x₂ * x₃ * y₂ * y₃)) -
          d * (x₁ * y₁ * (x₂ * y₃ + y₂ * x₃) * (y₂ * y₃ - a * (x₂ * x₃)))) =
      (y₁ * (y₂ * y₃ - a * (x₂ * x₃)) * (1 + d * (x₂ * x₃ * y₂ * y₃)) -
          a * (x₁ * (x₂ * y₃ + y₂ * x₃) * (1 - d * (x₂ * x₃ * y₂ * y₃)))) *
        ((1 - d * (x₁ * x₂ * y₁ * y₂)) * (1 + d * (x₁ * x₂ * y₁ * y₂)) -
          d * ((x₁ * y₂ + y₁ * x₂) * (y₁ * y₂ - a * (x₁ * x₂)) * x₃ * y₃)) := by
  linear_combination
    d * x₂ * y₂ * x₃ * y₃ * (y₁ * y₂ * y₃ * (1 - a * d * x₂ ^ 2 * x₃ ^ 2) +
      a * x₁ * y₂ * x₃ * (1 - d * x₂ ^ 2 * y₃ ^ 2) + a * x₁ * x₂ * y₃ * (1 - d * x₃ ^ 2 * y₂ ^ 2) -
      y₁ * x₂ * x₃ * (a - d * y₂ ^ 2 * y₃ ^ 2)) * h₁ +
    d ^ 2 * x₁ * y₁ * x₂ * y₂ * x₃ * y₃ * (y₁ * y₂ * x₃ * (y₃ ^ 2 - a * x₁ ^ 2) +
      a * y₁ * x₂ * y₃ * (x₃ ^ 2 - x₁ ^ 2) - a * x₁ * x₂ * x₃ * (y₃ ^ 2 - y₁ ^ 2) -
      x₁ * y₂ * y₃ * (y₁ ^ 2 - a * x₃ ^ 2)) * h₂ -
    d * x₁ * y₁ * x₂ * y₂ * (y₁ * y₂ * y₃ * (1 - a * d * x₁ ^ 2 * x₂ ^ 2) +
      a * x₁ * y₂ * x₃ * (1 - d * x₂ ^ 2 * y₁ ^ 2) + a * y₁ * x₂ * x₃ * (1 - d * x₁ ^ 2 * y₂ ^ 2) -
      x₁ * x₂ * y₃ * (a - d * y₁ ^ 2 * y₂ ^ 2)) * h₃

end Identities

namespace Point

instance : Zero (Point C) :=
  ⟨⟨0, 1, by unfold Curve.OnCurve; ring⟩⟩

instance : Neg (Point C) :=
  ⟨fun P => ⟨-P.x, P.y, by
    have h := P.onCurve
    unfold Curve.OnCurve at h ⊢
    linear_combination h⟩⟩

theorem onCurve_add (P Q : Point C) :
    C.OnCurve ((P.x * Q.y + P.y * Q.x) / plus P Q)
      ((P.y * Q.y - C.a * (P.x * Q.x)) / minus P Q) := by
  have hplus := plus_ne_zero P Q
  have hminus := minus_ne_zero P Q
  unfold Curve.OnCurve
  field_simp
  unfold plus minus
  linear_combination closure_identity P.onCurve Q.onCurve

instance : Add (Point C) :=
  ⟨fun P Q => ⟨(P.x * Q.y + P.y * Q.x) / plus P Q,
    (P.y * Q.y - C.a * (P.x * Q.x)) / minus P Q, onCurve_add P Q⟩⟩

@[simp] theorem zero_x : (0 : Point C).x = 0 := rfl

@[simp] theorem zero_y : (0 : Point C).y = 1 := rfl

@[simp] theorem neg_x (P : Point C) : (-P).x = -P.x := rfl

@[simp] theorem neg_y (P : Point C) : (-P).y = P.y := rfl

theorem add_x (P Q : Point C) : (P + Q).x = (P.x * Q.y + P.y * Q.x) / plus P Q := rfl

theorem add_y (P Q : Point C) : (P + Q).y = (P.y * Q.y - C.a * (P.x * Q.x)) / minus P Q := rfl

theorem add_x_mul_plus (P Q : Point C) : (P + Q).x * plus P Q = P.x * Q.y + P.y * Q.x :=
  div_mul_cancel₀ _ (plus_ne_zero P Q)

theorem add_y_mul_minus (P Q : Point C) :
    (P + Q).y * minus P Q = P.y * Q.y - C.a * (P.x * Q.x) :=
  div_mul_cancel₀ _ (minus_ne_zero P Q)

/-- A point is the sum when its coordinates are the two fractions. -/
theorem eq_add_iff (P Q R : Point C) :
    R = P + Q ↔ R.x * plus P Q = P.x * Q.y + P.y * Q.x ∧
      R.y * minus P Q = P.y * Q.y - C.a * (P.x * Q.x) := by
  rw [Point.ext_iff, add_x, add_y, eq_div_iff (plus_ne_zero P Q), eq_div_iff (minus_ne_zero P Q)]

protected theorem add_comm (P Q : Point C) : P + Q = Q + P := by
  apply (eq_add_iff _ _ _).mpr
  constructor
  · rw [show plus Q P = plus P Q by unfold plus; ring, add_x_mul_plus]
    ring
  · rw [show minus Q P = minus P Q by unfold minus; ring, add_y_mul_minus]
    ring

protected theorem zero_add (P : Point C) : 0 + P = P := by
  symm
  apply (eq_add_iff _ _ _).mpr
  unfold plus minus
  rw [zero_x, zero_y]
  constructor
  · ring
  · ring

protected theorem neg_add_cancel (P : Point C) : -P + P = 0 := by
  symm
  apply (eq_add_iff _ _ _).mpr
  have h := P.onCurve
  unfold Curve.OnCurve at h
  unfold plus minus
  rw [zero_x, zero_y, neg_x, neg_y]
  constructor
  · ring
  · linear_combination -h

/-! The coordinates of a sum of sums, cleared of the inner denominators. -/

theorem cross_add_mul (P Q R : Point C) :
    plus P Q * minus P Q * ((P + Q).x * R.y + (P + Q).y * R.x) =
      (P.x * Q.y + P.y * Q.x) * minus P Q * R.y +
        (P.y * Q.y - C.a * (P.x * Q.x)) * plus P Q * R.x := by
  rw [← add_x_mul_plus P Q, ← add_y_mul_minus P Q]
  ring

theorem inner_add_mul (P Q R : Point C) :
    plus P Q * minus P Q * ((P + Q).y * R.y - C.a * ((P + Q).x * R.x)) =
      (P.y * Q.y - C.a * (P.x * Q.x)) * plus P Q * R.y -
        C.a * ((P.x * Q.y + P.y * Q.x) * minus P Q * R.x) := by
  rw [← add_x_mul_plus P Q, ← add_y_mul_minus P Q]
  ring

theorem plus_add_mul (P Q R : Point C) :
    plus P Q * minus P Q * plus (P + Q) R =
      minus P Q * plus P Q +
        C.d * ((P.x * Q.y + P.y * Q.x) * (P.y * Q.y - C.a * (P.x * Q.x)) * R.x * R.y) := by
  rw [← add_x_mul_plus P Q, ← add_y_mul_minus P Q, plus.eq_def (P + Q) R]
  ring

theorem minus_add_mul (P Q R : Point C) :
    plus P Q * minus P Q * minus (P + Q) R =
      minus P Q * plus P Q -
        C.d * ((P.x * Q.y + P.y * Q.x) * (P.y * Q.y - C.a * (P.x * Q.x)) * R.x * R.y) := by
  rw [← add_x_mul_plus P Q, ← add_y_mul_minus P Q, minus.eq_def (P + Q) R]
  ring

protected theorem add_assoc (P Q R : Point C) : P + Q + R = P + (Q + R) := by
  have hcleared : plus P Q * minus P Q * (plus Q R * minus Q R) ≠ 0 :=
    mul_ne_zero (mul_ne_zero (plus_ne_zero P Q) (minus_ne_zero P Q))
      (mul_ne_zero (plus_ne_zero Q R) (minus_ne_zero Q R))
  -- Both sides are then sums of a sum and a point.
  rw [Point.add_comm P (Q + R), Point.ext_iff]
  constructor
  · rw [add_x (P + Q) R, add_x (Q + R) P, div_eq_div_iff (plus_ne_zero _ _) (plus_ne_zero _ _)]
    apply mul_left_cancel₀ hcleared
    calc plus P Q * minus P Q * (plus Q R * minus Q R) *
          (((P + Q).x * R.y + (P + Q).y * R.x) * plus (Q + R) P)
        = plus P Q * minus P Q * ((P + Q).x * R.y + (P + Q).y * R.x) *
            (plus Q R * minus Q R * plus (Q + R) P) := by ring
      _ = plus Q R * minus Q R * ((Q + R).x * P.y + (Q + R).y * P.x) *
            (plus P Q * minus P Q * plus (P + Q) R) := by
          rw [cross_add_mul, cross_add_mul, plus_add_mul, plus_add_mul]
          unfold plus minus
          linear_combination assoc_identity_x P.onCurve Q.onCurve R.onCurve
      _ = plus P Q * minus P Q * (plus Q R * minus Q R) *
            (((Q + R).x * P.y + (Q + R).y * P.x) * plus (P + Q) R) := by ring
  · rw [add_y (P + Q) R, add_y (Q + R) P,
      div_eq_div_iff (minus_ne_zero _ _) (minus_ne_zero _ _)]
    apply mul_left_cancel₀ hcleared
    calc plus P Q * minus P Q * (plus Q R * minus Q R) *
          (((P + Q).y * R.y - C.a * ((P + Q).x * R.x)) * minus (Q + R) P)
        = plus P Q * minus P Q * ((P + Q).y * R.y - C.a * ((P + Q).x * R.x)) *
            (plus Q R * minus Q R * minus (Q + R) P) := by ring
      _ = plus Q R * minus Q R * ((Q + R).y * P.y - C.a * ((Q + R).x * P.x)) *
            (plus P Q * minus P Q * minus (P + Q) R) := by
          rw [inner_add_mul, inner_add_mul, minus_add_mul, minus_add_mul]
          unfold plus minus
          linear_combination assoc_identity_y P.onCurve Q.onCurve R.onCurve
      _ = plus P Q * minus P Q * (plus Q R * minus Q R) *
            (((Q + R).y * P.y - C.a * ((Q + R).x * P.x)) * minus (P + Q) R) := by ring

instance : AddCommGroup (Point C) where
  add_assoc := Point.add_assoc
  zero_add := Point.zero_add
  add_zero := by
    intro P
    rw [Point.add_comm]
    exact Point.zero_add P
  add_comm := Point.add_comm
  neg_add_cancel := Point.neg_add_cancel
  nsmul := nsmulRec
  zsmul := zsmulRec

end Point

/-! ## Extended coordinates

A point `(x, y)` with the coordinates `x = X / Z` and `y = Y / Z`, and with the
product `T = X Y / Z` at hand. -/

structure Extended (K : Type*) where
  X : K
  Y : K
  Z : K
  T : K

/-- What extended coordinates stand for. -/
structure Represents (e : Extended K) (P : Point C) : Prop where
  Z_ne_zero : e.Z ≠ 0
  product : e.X * e.Y = e.Z * e.T
  x_eq : e.X / e.Z = P.x
  y_eq : e.Y / e.Z = P.y

namespace Extended

/-- The neutral element. -/
def zero : Extended K := ⟨0, 1, 1, 0⟩

/-- The addition without the curve's `a`: it is `-1`. -/
def add (d : K) (e f : Extended K) : Extended K :=
  let A := (e.Y - e.X) * (f.Y - f.X)
  let B := (e.Y + e.X) * (f.Y + f.X)
  let C := 2 * d * e.T * f.T
  let D := 2 * e.Z * f.Z
  ⟨(B - A) * (D - C), (D + C) * (B + A), (D - C) * (D + C), (B - A) * (B + A)⟩

end Extended

namespace Represents

variable {e f : Extended K} {P Q : Point C}

theorem X_eq (h : Represents e P) : e.X = P.x * e.Z := (div_eq_iff h.Z_ne_zero).mp h.x_eq

theorem Y_eq (h : Represents e P) : e.Y = P.y * e.Z := (div_eq_iff h.Z_ne_zero).mp h.y_eq

theorem T_eq (h : Represents e P) : e.T = P.x * P.y * e.Z := by
  apply mul_left_cancel₀ h.Z_ne_zero
  rw [← h.product, h.X_eq, h.Y_eq]
  ring

/-- Any two factors and multiples of them by the coordinates make a point. -/
theorem of_factors {E F G H : K} (hF : F ≠ 0) (hG : G ≠ 0) (hx : P.x * G = E)
    (hy : P.y * F = H) : Represents ⟨E * F, G * H, F * G, E * H⟩ P where
  Z_ne_zero := mul_ne_zero hF hG
  product := by ring
  x_eq := by
    rw [div_eq_iff (mul_ne_zero hF hG), ← hx]
    ring
  y_eq := by
    rw [div_eq_iff (mul_ne_zero hF hG), ← hy]
    ring

theorem zero : Represents Extended.zero (0 : Point C) where
  Z_ne_zero := one_ne_zero
  product := by
    show (0 : K) * 1 = 1 * 0
    ring
  x_eq := zero_div _
  y_eq := div_one _

theorem add (ha : C.a = -1) (he : Represents e P) (hf : Represents f Q) :
    Represents (Extended.add C.d e f) (P + Q) := by
  have hZ : 2 * e.Z * f.Z ≠ 0 :=
    mul_ne_zero (mul_ne_zero C.two_ne_zero he.Z_ne_zero) hf.Z_ne_zero
  have hF : 2 * e.Z * f.Z - 2 * C.d * e.T * f.T = 2 * e.Z * f.Z * Point.minus P Q := by
    rw [he.T_eq, hf.T_eq, Point.minus]
    ring
  have hG : 2 * e.Z * f.Z + 2 * C.d * e.T * f.T = 2 * e.Z * f.Z * Point.plus P Q := by
    rw [he.T_eq, hf.T_eq, Point.plus]
    ring
  apply of_factors
  · rw [hF]
    exact mul_ne_zero hZ (Point.minus_ne_zero P Q)
  · rw [hG]
    exact mul_ne_zero hZ (Point.plus_ne_zero P Q)
  · rw [hG, he.X_eq, he.Y_eq, hf.X_eq, hf.Y_eq]
    linear_combination 2 * e.Z * f.Z * Point.add_x_mul_plus P Q
  · have hsum := Point.add_y_mul_minus P Q
    rw [ha] at hsum
    rw [hF, he.X_eq, he.Y_eq, hf.X_eq, hf.Y_eq]
    linear_combination 2 * e.Z * f.Z * hsum

theorem eq_zero_iff (h : Represents e P) : P = 0 ↔ e.X = 0 ∧ e.Y = e.Z := by
  rw [Point.ext_iff, ← h.x_eq, ← h.y_eq]
  show e.X / e.Z = 0 ∧ e.Y / e.Z = 1 ↔ e.X = 0 ∧ e.Y = e.Z
  rw [div_eq_zero_iff, or_iff_left h.Z_ne_zero, div_eq_one_iff_eq h.Z_ne_zero]

end Represents

end Edwards
