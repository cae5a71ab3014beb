/-
# SploneBox.Lib.Montgomery — multiplication on a Montgomery curve by the first coordinate.

The curve is `y² = x³ + A x² + x` with `A = 4 a + 2`, over any field in which 2 is not 0. Its points are
Mathlib's, with their addition. A point is multiplied by a number with the first coordinates alone, as
fractions `X / Z`: `double` doubles a point, `diffAdd` adds two points whose difference is known, and the
ladder does both for each bit of the number.
-/
import SploneBox.Lib.Powers
import Mathlib.AlgebraicGeometry.EllipticCurve.Affine.Point
import Mathlib.Tactic.LinearCombination
import Mathlib.FieldTheory.IsAlgClosed.AlgebraicClosure

namespace SploneBox.Lib.Montgomery

open WeierstrassCurve.Affine Lib.Powers

universe u

variable {F : Type u} [Field F]

/-! ## §1 Points by their first coordinate -/

/-- `y² = x³ + (4 a + 2) x² + x`. -/
def curve (a : F) : WeierstrassCurve.Affine F := ⟨0, 4 * a + 2, 0, 1, 0⟩

variable {a : F}

theorem equation_iff (x y : F) : (curve a).Equation x y ↔ y ^ 2 = x ^ 3 + (4 * a + 2) * x ^ 2 + x := by
  rw [WeierstrassCurve.Affine.equation_iff]
  simp [curve]

theorem negY_eq (x y : F) : (curve a).negY x y = -y := by simp [curve, WeierstrassCurve.Affine.negY]

/-- The fraction is the first coordinate of the point. -/
def Represents (p : F × F) : (curve a).Point → Prop
  | .zero => p.1 ≠ 0 ∧ p.2 = 0
  | .some x _ _ => p.2 ≠ 0 ∧ p.1 = x * p.2

/-- The first coordinate, 0 for the point at infinity. -/
def firstCoord : (curve a).Point → F
  | .zero => 0
  | .some x _ _ => x

theorem Represents.div {p : F × F} {P : (curve a).Point} (h : Represents p P) : p.1 / p.2 = firstCoord P := by
  cases P with
  | zero =>
      rw [h.2, div_zero]
      rfl
  | some x y hxy =>
      rw [h.2, mul_div_cancel_right₀ _ h.1]
      rfl

/-! ## §2 The ladder -/

/-- Twice a point. -/
def double (a : F) (p : F × F) : F × F :=
  let s := (p.1 + p.2) ^ 2
  let d := (p.1 - p.2) ^ 2
  (s * d, (s - d) * ((s - d) * a + s))

/-- The sum of two points whose difference has the first coordinate `x`. -/
def diffAdd (x : F) (p q : F × F) : F × F :=
  let u := (q.1 + q.2) * (p.1 - p.2)
  let v := (q.1 - q.2) * (p.1 + p.2)
  ((u + v) ^ 2, x * (u - v) ^ 2)

theorem double_eq (a : F) (p : F × F) :
    double a p = ((p.1 ^ 2 - p.2 ^ 2) ^ 2, 4 * p.1 * p.2 * (p.1 ^ 2 + (4 * a + 2) * p.1 * p.2 + p.2 ^ 2)) := by
  unfold double
  refine Prod.ext ?_ ?_
  · show (p.1 + p.2) ^ 2 * (p.1 - p.2) ^ 2 = _
    ring
  · show ((p.1 + p.2) ^ 2 - (p.1 - p.2) ^ 2) * (((p.1 + p.2) ^ 2 - (p.1 - p.2) ^ 2) * a + (p.1 + p.2) ^ 2) = _
    ring

theorem diffAdd_eq (x : F) (p q : F × F) :
    diffAdd x p q = (4 * (p.1 * q.1 - p.2 * q.2) ^ 2, 4 * x * (p.1 * q.2 - p.2 * q.1) ^ 2) := by
  unfold diffAdd
  refine Prod.ext ?_ ?_
  · show ((q.1 + q.2) * (p.1 - p.2) + (q.1 - q.2) * (p.1 + p.2)) ^ 2 = _
    ring
  · show x * ((q.1 + q.2) * (p.1 - p.2) - (q.1 - q.2) * (p.1 + p.2)) ^ 2 = _
    ring

theorem diffAdd_comm (x : F) (p q : F × F) : diffAdd x p q = diffAdd x q p := by
  rw [diffAdd_eq, diffAdd_eq]
  refine Prod.ext ?_ ?_
  · show 4 * (p.1 * q.1 - p.2 * q.2) ^ 2 = 4 * (q.1 * p.1 - q.2 * p.2) ^ 2
    ring
  · show 4 * x * (p.1 * q.2 - p.2 * q.1) ^ 2 = 4 * x * (q.1 * p.2 - q.2 * p.1) ^ 2
    ring

/-- One step: the multiple is doubled, and one is added where the bit is set. -/
def ladderStep (a x : F) (s : (F × F) × (F × F)) (b : Bool) : (F × F) × (F × F) :=
  let t := if b then s.swap else s
  let r := (double a t.1, diffAdd x t.1 t.2)
  if b then r.swap else r

/-- From no multiple and the point itself through `n` bits of `k`. -/
def ladder (a x : F) (n k : ℕ) : (F × F) × (F × F) := (bits n k).foldl (ladderStep a x) ((1, 0), (x, 1))

/-- The first coordinate of a multiple, computed from the first coordinate. -/
def mult (a x : F) (n k : ℕ) : F := (ladder a x n k).1.1 / (ladder a x n k).1.2

/-- With the first coordinate 0 the fractions have no value any more. -/
theorem ladderStep_zero (_ : ℕ) (s : (F × F) × (F × F)) (b : Bool)
    (hs : s.1.1 * s.1.2 = 0 ∧ s.2.1 * s.2.2 = 0) :
    (ladderStep a 0 s b).1.1 * (ladderStep a 0 s b).1.2 = 0 ∧
      (ladderStep a 0 s b).2.1 * (ladderStep a 0 s b).2.2 = 0 := by
  have hdouble : ∀ p : F × F, p.1 * p.2 = 0 → (double a p).1 * (double a p).2 = 0 := by
    intro p hp
    rw [double_eq]
    show (p.1 ^ 2 - p.2 ^ 2) ^ 2 * (4 * p.1 * p.2 * (p.1 ^ 2 + (4 * a + 2) * p.1 * p.2 + p.2 ^ 2)) = 0
    linear_combination (p.1 ^ 2 - p.2 ^ 2) ^ 2 * 4 * (p.1 ^ 2 + (4 * a + 2) * p.1 * p.2 + p.2 ^ 2) * hp
  have hadd : ∀ p q : F × F, (diffAdd 0 p q).1 * (diffAdd 0 p q).2 = 0 := by
    intro p q
    show _ * (0 * _) = (0 : F)
    rw [zero_mul, mul_zero]
  cases b with
  | false => exact ⟨hdouble _ hs.1, hadd _ _⟩
  | true => exact ⟨hadd _ _, hdouble _ hs.2⟩

/-! ## §3 They double and add -/

/-- A point with second coordinate 0 has not the first coordinate 1 or -1: it would be singular. -/
theorem sq_sub_one_ne_zero {x : F} (h : (curve a).Nonsingular x 0) : x ^ 2 - 1 ≠ 0 := by
  intro hx
  obtain ⟨heq, hder⟩ := (nonsingular_iff ..).mp h
  rw [equation_iff] at heq
  simp only [curve, zero_mul, neg_zero, sub_self, ne_eq, not_true_eq_false, or_false] at hder
  exact hder (by linear_combination 2 * x * heq + (2 * x ^ 2 + 2 * (4 * a + 2) * x + 1) * hx)

variable [DecidableEq F]

/-- **The first coordinate of twice a point.** -/
theorem double_coord {x y : F} (h2 : (2 : F) ≠ 0) (h : (curve a).Nonsingular x y) (hy : y ≠ 0) :
    ∃ x' y' h', (Point.some x y h + Point.some x y h : (curve a).Point) = .some x' y' h' ∧
      x' * (4 * y ^ 2) = (x ^ 2 - 1) ^ 2 := by
  have heq := (equation_iff x y).mp h.1
  have h2y : 2 * y ≠ 0 := mul_ne_zero h2 hy
  have hne : y ≠ (curve a).negY x y := by
    rw [negY_eq]
    intro hneg
    exact h2y (by linear_combination hneg)
  refine ⟨_, _, _, Point.add_self_of_Y_ne hne, ?_⟩
  have hslope : (curve a).slope x x y y * (2 * y) = 3 * x ^ 2 + 2 * (4 * a + 2) * x + 1 := by
    rw [slope_of_Y_ne rfl hne, negY_eq, show y - -y = 2 * y by ring, div_mul_cancel₀ _ h2y]
    simp [curve]
  have hsum :
      (curve a).addX x x ((curve a).slope x x y y) = (curve a).slope x x y y ^ 2 - (4 * a + 2) - x - x := by
    simp [curve, addX]
  rw [hsum]
  linear_combination ((curve a).slope x x y y * (2 * y) + (3 * x ^ 2 + 2 * (4 * a + 2) * x + 1)) * hslope -
    4 * (4 * a + 2 + 2 * x) * heq

/-- **The first coordinates of a sum and of the difference**, where the first coordinates are not the same. -/
theorem add_coord {x₁ y₁ x₂ y₂ : F} (h₁ : (curve a).Nonsingular x₁ y₁) (h₂ : (curve a).Nonsingular x₂ y₂)
    (hx : x₁ ≠ x₂) :
    ∃ x' y' h' x'' y'' h'', (Point.some x₁ y₁ h₁ + Point.some x₂ y₂ h₂ : (curve a).Point) = .some x' y' h' ∧
      (Point.some x₂ y₂ h₂ + -Point.some x₁ y₁ h₁ : (curve a).Point) = .some x'' y'' h'' ∧
      x' * x'' * (x₁ - x₂) ^ 2 = (x₁ * x₂ - 1) ^ 2 := by
  have heq₁ := (equation_iff x₁ y₁).mp h₁.1
  have heq₂ := (equation_iff x₂ y₂).mp h₂.1
  have hd : x₁ - x₂ ≠ 0 := sub_ne_zero.mpr hx
  refine ⟨_, _, _, _, _, _, Point.add_of_X_ne hx, Point.add_of_X_ne (Ne.symm hx), ?_⟩
  have hplus : (curve a).slope x₁ x₂ y₁ y₂ * (x₁ - x₂) = y₁ - y₂ := by
    rw [slope_of_X_ne hx, div_mul_cancel₀ _ hd]
  have hminus : (curve a).slope x₂ x₁ y₂ ((curve a).negY x₁ y₁) * (x₁ - x₂) = -(y₁ + y₂) := by
    rw [slope_of_X_ne (Ne.symm hx), negY_eq, ← neg_sub x₁ x₂, div_neg, neg_mul, div_mul_cancel₀ _ hd]
    ring
  have hsum : ∀ u v l, (curve a).addX u v l = l ^ 2 - (4 * a + 2) - u - v := by
    intro u v l
    simp [curve, addX]
  rw [hsum, hsum]
  generalize (curve a).slope x₁ x₂ y₁ y₂ = l at hplus
  generalize (curve a).slope x₂ x₁ y₂ ((curve a).negY x₁ y₁) = m at hminus
  -- both sides times the square of the difference once more, so that only squares of the slopes are left
  have hsquare :
      (l ^ 2 - (4 * a + 2) - x₁ - x₂) * (m ^ 2 - (4 * a + 2) - x₂ - x₁) * (x₁ - x₂) ^ 2 * (x₁ - x₂) ^ 2 =
      (x₁ * x₂ - 1) ^ 2 * (x₁ - x₂) ^ 2 := by
    have hl : l ^ 2 * (x₁ - x₂) ^ 2 = (y₁ - y₂) ^ 2 := by rw [← mul_pow, hplus]
    have hm : m ^ 2 * (x₁ - x₂) ^ 2 = (y₁ + y₂) ^ 2 := by rw [← mul_pow, hminus, neg_sq]
    have hexpand :
        (l ^ 2 - (4 * a + 2) - x₁ - x₂) * (m ^ 2 - (4 * a + 2) - x₂ - x₁) * (x₁ - x₂) ^ 2 * (x₁ - x₂) ^ 2 =
        (l ^ 2 * (x₁ - x₂) ^ 2 - (4 * a + 2 + x₁ + x₂) * (x₁ - x₂) ^ 2) *
          (m ^ 2 * (x₁ - x₂) ^ 2 - (4 * a + 2 + x₁ + x₂) * (x₁ - x₂) ^ 2) := by ring
    rw [hexpand, hl, hm]
    linear_combination
      (y₁ ^ 2 - y₂ ^ 2 + (x₁ ^ 3 + (4 * a + 2) * x₁ ^ 2 + x₁) - (x₂ ^ 3 + (4 * a + 2) * x₂ ^ 2 + x₂) -
        2 * (4 * a + 2 + x₁ + x₂) * (x₁ - x₂) ^ 2) * heq₁ +
      (-(y₁ ^ 2 - y₂ ^ 2 + (x₁ ^ 3 + (4 * a + 2) * x₁ ^ 2 + x₁) - (x₂ ^ 3 + (4 * a + 2) * x₂ ^ 2 + x₂)) -
        2 * (4 * a + 2 + x₁ + x₂) * (x₁ - x₂) ^ 2) * heq₂
  exact mul_right_cancel₀ (pow_ne_zero 2 hd) hsquare

/-- `double` doubles. -/
theorem Represents.double {p : F × F} {P : (curve a).Point} (h2 : (2 : F) ≠ 0) (h : Represents p P) :
    Represents (double a p) (P + P) := by
  rw [double_eq]
  have h4 : (4 : F) ≠ 0 := by
    rw [show (4 : F) = 2 * 2 by norm_num]
    exact mul_ne_zero h2 h2
  cases P with
  | zero =>
      obtain ⟨hX, hZ⟩ := h
      refine ⟨?_, ?_⟩
      · show (p.1 ^ 2 - p.2 ^ 2) ^ 2 ≠ 0
        rw [hZ, zero_pow two_ne_zero, sub_zero]
        exact pow_ne_zero 2 (pow_ne_zero 2 hX)
      · show 4 * p.1 * p.2 * _ = 0
        rw [hZ, mul_zero, zero_mul]
  | some x y hxy =>
      obtain ⟨hZ, hX⟩ := h
      have heq := (equation_iff x y).mp hxy.1
      have hz : 4 * p.1 * p.2 * (p.1 ^ 2 + (4 * a + 2) * p.1 * p.2 + p.2 ^ 2) = 4 * y ^ 2 * p.2 ^ 4 := by
        rw [hX, heq]
        ring
      have hx : (p.1 ^ 2 - p.2 ^ 2) ^ 2 = (x ^ 2 - 1) ^ 2 * p.2 ^ 4 := by
        rw [hX]
        ring
      rw [hz, hx]
      by_cases hy : y = 0
      · subst hy
        have hinf : (Point.some x 0 hxy + Point.some x 0 hxy : (curve a).Point) = 0 :=
          Point.add_self_of_Y_eq (by rw [negY_eq, neg_zero])
        rw [hinf]
        refine ⟨mul_ne_zero (pow_ne_zero 2 (sq_sub_one_ne_zero hxy)) (pow_ne_zero 4 hZ), ?_⟩
        show 4 * (0 : F) ^ 2 * p.2 ^ 4 = 0
        rw [zero_pow two_ne_zero, mul_zero, zero_mul]
      · obtain ⟨x', y', h', hsum, hcoord⟩ := double_coord h2 hxy hy
        rw [hsum]
        refine ⟨mul_ne_zero (mul_ne_zero h4 (pow_ne_zero 2 hy)) (pow_ne_zero 4 hZ), ?_⟩
        show (x ^ 2 - 1) ^ 2 * p.2 ^ 4 = x' * (4 * y ^ 2 * p.2 ^ 4)
        rw [← hcoord, mul_assoc]

/-- `diffAdd` adds, where the difference is a point with the first coordinate `x`. -/
theorem Represents.diffAdd {p q : F × F} {P Q : (curve a).Point} {x y : F} {h : (curve a).Nonsingular x y}
    (h2 : (2 : F) ≠ 0) (hx : x ≠ 0) (hp : Represents p P) (hq : Represents q Q) (hdiff : Q + -P = .some x y h) :
    Represents (diffAdd x p q) (P + Q) := by
  rw [diffAdd_eq]
  have h4 : (4 : F) ≠ 0 := by
    rw [show (4 : F) = 2 * 2 by norm_num]
    exact mul_ne_zero h2 h2
  cases P with
  | zero =>
      -- the other point is the difference
      obtain ⟨hX, hZ⟩ := hp
      have hQ : Q = .some x y h := by
        rw [← hdiff]
        exact (add_zero Q).symm
      subst hQ
      obtain ⟨hqZ, hqX⟩ := hq
      have hsum : (Point.zero + Point.some x y h : (curve a).Point) = .some x y h := zero_add _
      rw [hsum]
      refine ⟨?_, ?_⟩
      · show 4 * x * (p.1 * q.2 - p.2 * q.1) ^ 2 ≠ 0
        rw [hZ, zero_mul, sub_zero]
        exact mul_ne_zero (mul_ne_zero h4 hx) (pow_ne_zero 2 (mul_ne_zero hX hqZ))
      · show 4 * (p.1 * q.1 - p.2 * q.2) ^ 2 = x * (4 * x * (p.1 * q.2 - p.2 * q.1) ^ 2)
        rw [hZ, hqX]
        ring
  | some x₁ y₁ h₁ =>
  obtain ⟨hpZ, hpX⟩ := hp
  cases Q with
  | zero =>
      -- the difference is the other point, negated
      obtain ⟨hqX, hqZ⟩ := hq
      have hneg : -Point.some x₁ y₁ h₁ = (Point.some x y h : (curve a).Point) := (zero_add _).symm.trans hdiff
      have hx₁ : x₁ = x := by
        rw [Point.neg_some] at hneg
        injection hneg
      have hsum : (Point.some x₁ y₁ h₁ + Point.zero : (curve a).Point) = .some x₁ y₁ h₁ := add_zero _
      rw [hsum]
      refine ⟨?_, ?_⟩
      · show 4 * x * (p.1 * q.2 - p.2 * q.1) ^ 2 ≠ 0
        rw [hqZ, mul_zero, zero_sub, neg_sq]
        exact mul_ne_zero (mul_ne_zero h4 hx) (pow_ne_zero 2 (mul_ne_zero hpZ hqX))
      · show 4 * (p.1 * q.1 - p.2 * q.2) ^ 2 = x₁ * (4 * x * (p.1 * q.2 - p.2 * q.1) ^ 2)
        rw [hqZ, hpX, hx₁]
        ring
  | some x₂ y₂ h₂ =>
  obtain ⟨hqZ, hqX⟩ := hq
  have hfst : 4 * (p.1 * q.1 - p.2 * q.2) ^ 2 = 4 * (x₁ * x₂ - 1) ^ 2 * (p.2 * q.2) ^ 2 := by
    rw [hpX, hqX]
    ring
  have hsnd : 4 * x * (p.1 * q.2 - p.2 * q.1) ^ 2 = 4 * x * (x₁ - x₂) ^ 2 * (p.2 * q.2) ^ 2 := by
    rw [hpX, hqX]
    ring
  have hpq : (p.2 * q.2) ^ 2 ≠ 0 := pow_ne_zero 2 (mul_ne_zero hpZ hqZ)
  rw [hfst, hsnd]
  by_cases hxx : x₁ = x₂
  · have hcases : Point.some x₁ y₁ h₁ = Point.some x₂ y₂ h₂ ∨ Point.some x₁ y₁ h₁ = -Point.some x₂ y₂ h₂ :=
      Point.X_eq_iff.mp hxx
    rcases hcases with heq | hneg
    · rw [heq, add_neg_cancel] at hdiff
      cases hdiff
    · -- the points are each other's negatives, and the difference is twice one of them
      rw [hneg, neg_neg] at hdiff
      rw [hneg, neg_add_cancel]
      have hy₂ : y₂ ≠ 0 := by
        rintro rfl
        rw [Point.add_self_of_Y_eq (by rw [negY_eq, neg_zero])] at hdiff
        cases hdiff
      obtain ⟨x', y', h', hdouble, hcoord⟩ := double_coord h2 h₂ hy₂
      rw [hdiff] at hdouble
      injection hdouble with hx'
      rw [← hx'] at hcoord
      refine ⟨?_, ?_⟩
      · show 4 * (x₁ * x₂ - 1) ^ 2 * (p.2 * q.2) ^ 2 ≠ 0
        rw [hxx, ← sq, ← hcoord]
        exact mul_ne_zero (mul_ne_zero h4 (mul_ne_zero hx (mul_ne_zero h4 (pow_ne_zero 2 hy₂)))) hpq
      · show 4 * x * (x₁ - x₂) ^ 2 * (p.2 * q.2) ^ 2 = 0
        rw [hxx, sub_self, zero_pow two_ne_zero, mul_zero, zero_mul]
  · obtain ⟨x', y', h', x'', y'', h'', hsum, hdiff', hcoord⟩ := add_coord h₁ h₂ hxx
    rw [hdiff] at hdiff'
    injection hdiff' with hx''
    rw [← hx''] at hcoord
    rw [hsum]
    refine ⟨mul_ne_zero (mul_ne_zero (mul_ne_zero h4 hx) (pow_ne_zero 2 (sub_ne_zero.mpr hxx))) hpq, ?_⟩
    show 4 * (x₁ * x₂ - 1) ^ 2 * (p.2 * q.2) ^ 2 = x' * (4 * x * (x₁ - x₂) ^ 2 * (p.2 * q.2) ^ 2)
    rw [← hcoord]
    ring

/-! ## §4 The ladder multiplies -/

theorem ladderStep_represents {x y : F} {h : (curve a).Nonsingular x y} (h2 : (2 : F) ≠ 0) (hx : x ≠ 0) (k : ℕ)
    (s : (F × F) × (F × F)) (b : Bool)
    (hs : Represents s.1 (k • Point.some x y h) ∧ Represents s.2 ((k + 1) • Point.some x y h)) :
    Represents (ladderStep a x s b).1 ((2 * k + b.toNat) • Point.some x y h) ∧
      Represents (ladderStep a x s b).2 ((2 * k + b.toNat + 1) • Point.some x y h) := by
  obtain ⟨hlow, hhigh⟩ := hs
  have hdiff : (k + 1) • Point.some x y h + -(k • Point.some x y h) = Point.some x y h := by
    rw [succ_nsmul, add_assoc, add_comm (Point.some x y h), ← add_assoc, add_neg_cancel, zero_add]
  have hodd : k • Point.some x y h + (k + 1) • Point.some x y h = (2 * k + 1) • Point.some x y h := by
    rw [← add_nsmul]
    congr 1
    ring
  have hmiddle := hlow.diffAdd h2 hx hhigh hdiff
  rw [hodd] at hmiddle
  cases b with
  | false =>
      have hdouble := hlow.double h2
      rw [← add_nsmul, ← two_mul] at hdouble
      exact ⟨hdouble, hmiddle⟩
  | true =>
      have hdouble := hhigh.double h2
      rw [← add_nsmul, ← two_mul, mul_add] at hdouble
      rw [diffAdd_comm] at hmiddle
      exact ⟨hmiddle, hdouble⟩

/-- **The ladder multiplies**: from the first coordinate of a point it computes that of the multiple. -/
theorem mult_eq (h2 : (2 : F) ≠ 0) {n k : ℕ} (hk : k < 2 ^ n) (P : (curve a).Point) :
    mult a (firstCoord P) n k = firstCoord (k • P) := by
  have hzero : mult a 0 n k = 0 := by
    have hrun : (ladder a 0 n k).1.1 * (ladder a 0 n k).1.2 = 0 ∧ _ :=
      foldl_bits (R := fun _ (s : (F × F) × (F × F)) =>
        s.1.1 * s.1.2 = 0 ∧ s.2.1 * s.2.2 = 0) ladderStep_zero n k (a := 0)
        ⟨mul_zero 1, zero_mul 1⟩
    rcases mul_eq_zero.mp hrun.1 with h | h
    · rw [mult, h, zero_div]
    · rw [mult, h, div_zero]
  cases P with
  | zero =>
      have hinf : k • (Point.zero : (curve a).Point) = Point.zero := nsmul_zero k
      rw [hinf]
      exact hzero
  | some x y h =>
      show mult a x n k = _
      by_cases hx : x = 0
      · -- a point of order two
        subst hx
        have hy : y = 0 := by
          have heq := (equation_iff 0 y).mp h.1
          rw [zero_pow three_ne_zero, zero_pow two_ne_zero, mul_zero, add_zero, add_zero] at heq
          exact pow_eq_zero_iff two_ne_zero |>.mp heq
        subst hy
        have htwice : 2 • Point.some 0 0 h = 0 := by
          rw [two_nsmul]
          exact Point.add_self_of_Y_eq (by rw [negY_eq, neg_zero])
        rw [hzero]
        rcases Nat.even_or_odd' k with ⟨j, rfl | rfl⟩
        · rw [mul_comm, mul_nsmul, nsmul_left_comm, htwice, nsmul_zero]
          rfl
        · rw [add_nsmul, mul_comm, mul_nsmul, nsmul_left_comm, htwice, nsmul_zero, zero_add, one_nsmul]
          rfl
      · have hrun :=
          foldl_bits (R := fun k s => Represents s.1 (k • Point.some x y h) ∧
            Represents s.2 ((k + 1) • Point.some x y h))
          (ladderStep_represents h2 hx) n k (a := 0) (s := ((1, 0), (x, 1))) (by
            rw [zero_nsmul, zero_add, one_nsmul]
            exact ⟨⟨one_ne_zero, rfl⟩, one_ne_zero, (mul_one x).symm⟩)
        rw [zero_mul, zero_add, Nat.mod_eq_of_lt hk] at hrun
        exact hrun.1.div

/-! ## §5 Multiples of multiples -/

section Closed

omit [DecidableEq F]

variable {K : Type u} [Field K]

theorem map_ladder (f : F →+* K) (x : F) (n k : ℕ) :
    ladder (f a) (f x) n k = (ladder a x n k).map (Prod.map f f) (Prod.map f f) := by
  have hstep : ∀ s b, ladderStep (f a) (f x) (s.map (Prod.map f f) (Prod.map f f)) b =
      (ladderStep a x s b).map (Prod.map f f) (Prod.map f f) := by
    rintro ⟨p, q⟩ b
    cases b <;> simp [ladderStep, double, diffAdd]
  have hrun : ∀ (l : List Bool) s, l.foldl (ladderStep (f a) (f x)) (s.map (Prod.map f f) (Prod.map f f)) =
      (l.foldl (ladderStep a x) s).map (Prod.map f f) (Prod.map f f) := by
    intro l
    induction l with
    | nil => exact fun _ => rfl
    | cons b l ih =>
        intro s
        rw [List.foldl_cons, List.foldl_cons, hstep, ih]
  have hstart : ((1, 0), (f x, 1)) = ((1, 0), (x, 1)).map (Prod.map f f) (Prod.map f f) := by simp
  rw [ladder, hstart, hrun]
  rfl

theorem map_mult (f : F →+* K) (x : F) (n k : ℕ) : f (mult a x n k) = mult (f a) (f x) n k := by
  rw [mult, mult, map_ladder, map_div₀]
  rfl

/-- `y` is the first coordinate of `k` times every point that has the first coordinate `x`, over the field or
over any field around it. -/
def IsMultiple (a x y : F) (k : ℕ) : Prop :=
  ∀ (K : Type u) [Field K] [DecidableEq K] (f : F →+* K) (P : (curve (f a)).Point), firstCoord P = f x →
    firstCoord (k • P) = f y

theorem isMultiple_mult (h2 : (2 : F) ≠ 0) {n k : ℕ} (hk : k < 2 ^ n) (x : F) :
    IsMultiple a x (mult a x n k) k := by
  intro K _ _ f P hP
  have h2' : (2 : K) ≠ 0 := by
    have h := (map_ne_zero f).mpr h2
    rwa [map_ofNat] at h
  rw [map_mult, ← hP, mult_eq h2' hk]

/-- Over an algebraically closed field everything is the first coordinate of a point, if the curve is smooth. -/
theorem exists_firstCoord [IsAlgClosed F] (h2 : (2 : F) ≠ 0) (ha : a ≠ 0) (ha' : a + 1 ≠ 0) (x : F) :
    ∃ P : (curve a).Point, firstCoord P = x := by
  obtain ⟨y, hy⟩ := IsAlgClosed.exists_pow_nat_eq (x ^ 3 + (4 * a + 2) * x ^ 2 + x) two_pos
  have hsmooth : (curve a).Nonsingular x y := by
    refine (nonsingular_iff ..).mpr ⟨(equation_iff x y).mpr hy, ?_⟩
    by_cases hzero : y = 0
    · left
      subst hzero
      rw [zero_pow two_ne_zero] at hy
      simp only [curve, zero_mul]
      intro hder
      have hx : x ≠ 0 := by
        rintro rfl
        rw [zero_pow two_ne_zero, mul_zero, mul_zero, zero_add, zero_add] at hder
        exact zero_ne_one hder
      have hline : x ^ 2 + (4 * a + 2) * x + 1 = 0 := by
        have hprod : x * (x ^ 2 + (4 * a + 2) * x + 1) = 0 := by linear_combination -hy
        exact (mul_eq_zero.mp hprod).resolve_left hx
      have hone : x ^ 2 - 1 = 0 := by linear_combination -hder - 2 * hline
      have hdisc : 2 ^ 4 * (a * (a + 1)) = 0 := by
        linear_combination ((4 * a + 2) * x - (x ^ 2 + 1)) * hline - ((4 * a + 2) ^ 2 - x ^ 2 - 3) * hone
      rcases mul_eq_zero.mp hdisc with h | h
      · exact pow_ne_zero 4 h2 h
      · exact mul_ne_zero ha ha' h
    · right
      simp only [curve, zero_mul, sub_zero]
      intro hneg
      exact mul_ne_zero h2 hzero (by linear_combination hneg)
  exact ⟨.some x y hsmooth, rfl⟩

/-- **Multiples of multiples can be taken in either order**: the first coordinate of a multiple, multiplied
again, is that of the product. -/
theorem mult_comm (h2 : (2 : F) ≠ 0) (ha : a ≠ 0) (ha' : a + 1 ≠ 0) {n k m j : ℕ} (hk : k < 2 ^ n)
    (hj : j < 2 ^ m) (x : F) :
    mult a (mult a x n k) m j = mult a (mult a x m j) n k := by
  classical
  -- over the algebraic closure `x` is the first coordinate of a point
  have hmap : Function.Injective (algebraMap F (AlgebraicClosure F)) :=
    (algebraMap F (AlgebraicClosure F)).injective
  have hnot : ∀ {c : F}, c ≠ 0 → algebraMap F (AlgebraicClosure F) c ≠ 0 :=
    fun hc => (map_ne_zero_iff _ hmap).mpr hc
  have h2' : (2 : AlgebraicClosure F) ≠ 0 := by
    have h := hnot h2
    rwa [map_ofNat] at h
  have ha₁ : algebraMap F (AlgebraicClosure F) a + 1 ≠ 0 := by
    have h := hnot ha'
    rwa [map_add, map_one] at h
  obtain ⟨P, hP⟩ := exists_firstCoord h2' (hnot ha) ha₁ (algebraMap F (AlgebraicClosure F) x)
  apply hmap
  rw [map_mult, map_mult, map_mult, map_mult, ← hP, mult_eq h2' hk, mult_eq h2' hj, mult_eq h2' hj,
    mult_eq h2' hk, ← mul_nsmul, ← mul_nsmul, mul_comm]

end Closed

end SploneBox.Lib.Montgomery
