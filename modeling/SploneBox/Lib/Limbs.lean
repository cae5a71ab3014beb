/-
# SploneBox.Lib.Limbs — numbers in limbs.

A number is kept as a list of limbs, the least significant first. `value B` is the number that limbs in base
`B` stand for, in any commutative semiring: where the limbs are digits it is the number they write, and in a
ring where a power of the base is small it is the residue that arithmetic with them computes. Adding limb by
limb adds the values (`value_zipWith_add`), a pass that carries keeps the value up to what it carries out
(`value_carry`), and a product that wraps around multiplies the values where the base wraps around with it
(`sum_cyclic`).
-/
import Mathlib.Algebra.BigOperators.Intervals
import Mathlib.Algebra.BigOperators.Ring.Finset
import Mathlib.Data.Nat.Digits.Lemmas
import Mathlib.Tactic.Ring

namespace SploneBox.Lib.Limbs

universe u

/-! ## §1 Values -/

section Value

variable {R : Type u} [CommSemiring R] {B : R}

/-- The value of limbs in base `B`. -/
def value (B : R) : List R → R
  | [] => 0
  | x :: xs => x + B * value B xs

@[simp] theorem value_nil : value B [] = 0 := rfl

@[simp] theorem value_cons (x : R) (xs : List R) : value B (x :: xs) = x + B * value B xs := rfl

theorem value_append (xs ys : List R) : value B (xs ++ ys) = value B xs + B ^ xs.length * value B ys := by
  induction xs with
  | nil => simp
  | cons x xs ih =>
      rw [List.cons_append, value_cons, ih, value_cons, List.length_cons, pow_succ]
      ring

@[simp] theorem value_replicate_zero (n : ℕ) : value B (List.replicate n 0) = 0 := by
  induction n with
  | zero => rfl
  | succ n ih => rw [List.replicate_succ, value_cons, ih, mul_zero, add_zero]

theorem value_zipWith_add {xs ys : List R} (h : xs.length = ys.length) :
    value B (List.zipWith (· + ·) xs ys) = value B xs + value B ys := by
  induction xs generalizing ys with
  | nil =>
      cases ys with
      | nil => simp
      | cons y ys => cases h
  | cons x xs ih =>
      cases ys with
      | nil => cases h
      | cons y ys =>
          rw [List.zipWith_cons_cons, value_cons, ih (Nat.succ.inj h), value_cons, value_cons]
          ring

theorem value_eq_sum (xs : List R) : value B xs = ∑ i ∈ Finset.range xs.length, xs.getD i 0 * B ^ i := by
  induction xs with
  | nil => simp
  | cons x xs ih =>
      rw [List.length_cons, Finset.sum_range_succ', value_cons, ih, Finset.mul_sum, add_comm]
      congr 1
      · refine Finset.sum_congr rfl fun i _ => ?_
        rw [List.getD_cons_succ, pow_succ]
        ring
      · simp

/-- The value of limbs that are computed one by one. -/
theorem value_range_map (n : ℕ) (f : ℕ → R) :
    value B ((List.range n).map f) = ∑ i ∈ Finset.range n, f i * B ^ i := by
  rw [value_eq_sum, List.length_map, List.length_range]
  refine Finset.sum_congr rfl fun i hi => ?_
  rw [List.getD_eq_getElem?_getD, List.getElem?_map, List.getElem?_range (Finset.mem_range.mp hi)]
  rfl

/-- One limb is written. -/
theorem value_set {R : Type u} [CommRing R] {B : R} {xs : List R} {i : ℕ} (hi : i < xs.length) (y : R) :
    value B (xs.set i y) = value B xs + (y - xs.getD i 0) * B ^ i := by
  induction xs generalizing i with
  | nil => cases hi
  | cons x xs ih =>
      cases i with
      | zero =>
          rw [List.set_cons_zero, value_cons, value_cons, List.getD_cons_zero, pow_zero]
          ring
      | succ i =>
          rw [List.set_cons_succ, value_cons, value_cons, List.getD_cons_succ,
            ih (Nat.lt_of_succ_lt_succ hi), pow_succ]
          ring

/-- **Horner's rule**, from the most significant limb on. -/
theorem foldl_horner (a r : R) (xs : List R) :
    xs.foldl (fun a x => (a + x) * r) a = a * r ^ xs.length + r * value r xs.reverse := by
  induction xs generalizing a with
  | nil => simp
  | cons x xs ih =>
      rw [List.foldl_cons, ih, List.reverse_cons, value_append, List.length_reverse, List.length_cons, pow_succ,
        value_cons, value_nil]
      ring

end Value

theorem value_eq_ofDigits (B : ℕ) (xs : List ℕ) : value B xs = Nat.ofDigits B xs := by
  induction xs with
  | nil => rfl
  | cons x xs ih => rw [value_cons, Nat.ofDigits_cons, ih]

theorem value_lt {B : ℕ} {xs : List ℕ} (h : ∀ x ∈ xs, x < B) : value B xs < B ^ xs.length := by
  induction xs with
  | nil => simp
  | cons x xs ih =>
      have hx := h x List.mem_cons_self
      have hxs := ih fun y hy => h y (List.mem_cons_of_mem x hy)
      rw [value_cons, List.length_cons, pow_succ']
      calc x + B * value B xs < B + B * value B xs := Nat.add_lt_add_right hx _
        _ = B * (value B xs + 1) := by ring
        _ ≤ B * B ^ xs.length := Nat.mul_le_mul_left B hxs

/-- Where the base is a power of two, digits are masked one by one. -/
theorem value_zipWith_land {k : ℕ} {xs ys : List ℕ} (hx : ∀ x ∈ xs, x < 2 ^ k) (hy : ∀ y ∈ ys, y < 2 ^ k) :
    value (2 ^ k) (List.zipWith (· &&& ·) xs ys) = value (2 ^ k) xs &&& value (2 ^ k) ys := by
  induction xs generalizing ys with
  | nil => simp
  | cons x xs ih =>
      cases ys with
      | nil => simp
      | cons y ys =>
          have hx0 := hx x List.mem_cons_self
          have hy0 := hy y List.mem_cons_self
          have ih := @ih ys (fun z hz => hx z (List.mem_cons_of_mem x hz)) fun z hz =>
              hy z (List.mem_cons_of_mem y hz)
          rw [List.zipWith_cons_cons, value_cons, ih, value_cons, value_cons]
          apply Nat.eq_of_testBit_eq
          intro i
          rw [Nat.testBit_and, Nat.add_comm (x &&& y), Nat.add_comm x, Nat.add_comm y,
            Nat.testBit_two_pow_mul_add _ (Nat.and_lt_two_pow x hy0), Nat.testBit_two_pow_mul_add _ hx0,
            Nat.testBit_two_pow_mul_add _ hy0]
          split
          · exact Nat.testBit_and x y i
          · exact Nat.testBit_and _ _ _

theorem zipWith_land_lt {k : ℕ} (xs : List ℕ) {ys : List ℕ} (hy : ∀ y ∈ ys, y < 2 ^ k) :
    ∀ z ∈ List.zipWith (· &&& ·) xs ys, z < 2 ^ k := by
  induction xs generalizing ys with
  | nil => exact fun z hz => absurd hz List.not_mem_nil
  | cons x xs ih =>
      cases ys with
      | nil => exact fun z hz => absurd hz List.not_mem_nil
      | cons y ys =>
          intro z hz
          rcases List.mem_cons.mp hz with rfl | hz
          · exact Nat.and_lt_two_pow x (hy y List.mem_cons_self)
          · exact ih (fun y' hy' => hy y' (List.mem_cons_of_mem y hy')) z hz

/-! ## §2 Carrying -/

/-- A pass that carries: each limb takes what the limbs below it have left over, and keeps its part below the
base. What the last one leaves over is carried out. -/
def carry (B : ℕ) : ℕ → List ℕ → List ℕ × ℕ
  | u, [] => ([], u)
  | u, x :: xs => ((u + x) % B :: (carry B ((u + x) / B) xs).1, (carry B ((u + x) / B) xs).2)

variable {B : ℕ}

@[simp] theorem length_carry (u : ℕ) (xs : List ℕ) : (carry B u xs).1.length = xs.length := by
  induction xs generalizing u with
  | nil => rfl
  | cons x xs ih => rw [carry, List.length_cons, ih, List.length_cons]

theorem carry_lt (hB : 0 < B) (u : ℕ) (xs : List ℕ) : ∀ x ∈ (carry B u xs).1, x < B := by
  induction xs generalizing u with
  | nil => exact fun x hx => absurd hx List.not_mem_nil
  | cons x xs ih =>
      intro y hy
      rcases List.mem_cons.mp hy with rfl | hy
      · exact Nat.mod_lt _ hB
      · exact ih _ y hy

/-- **Carrying keeps the value**, up to what is carried out. -/
theorem value_carry (u : ℕ) (xs : List ℕ) :
    value B (carry B u xs).1 + B ^ xs.length * (carry B u xs).2 = u + value B xs := by
  induction xs generalizing u with
  | nil => simp [carry]
  | cons x xs ih =>
      calc value B (carry B u (x :: xs)).1 + B ^ (x :: xs).length * (carry B u (x :: xs)).2
          = (u + x) % B +
              B * (value B (carry B ((u + x) / B) xs).1 + B ^ xs.length * (carry B ((u + x) / B) xs).2) := by
            rw [carry, value_cons, List.length_cons, pow_succ']
            ring
        _ = (u + x) % B + B * ((u + x) / B) + B * value B xs := by
            rw [ih]
            ring
        _ = u + value B (x :: xs) := by
            rw [Nat.mod_add_div, value_cons, Nat.add_assoc]

/-- What stays is the value modulo the power of the base. -/
theorem value_carry_mod (hB : 0 < B) (u : ℕ) (xs : List ℕ) :
    value B (carry B u xs).1 = (u + value B xs) % B ^ xs.length := by
  have hlt := value_lt (carry_lt hB u xs)
  rw [length_carry] at hlt
  rw [← value_carry, Nat.add_mul_mod_self_left, Nat.mod_eq_of_lt hlt]

/-- What is carried out is no more than the bound of what goes in. -/
theorem carry_out_le (hB : 2 ≤ B) {b : ℕ} {u : ℕ} (hu : u ≤ b) {xs : List ℕ} (hxs : ∀ x ∈ xs, x ≤ b) :
    (carry B u xs).2 ≤ b := by
  induction xs generalizing u with
  | nil => exact hu
  | cons x xs ih =>
      have hx := hxs x List.mem_cons_self
      have hdiv : (u + x) / B ≤ b := by
        calc (u + x) / B ≤ (b + b) / B := Nat.div_le_div_right (by omega)
          _ ≤ (b + b) / 2 := Nat.div_le_div_left hB (by decide)
          _ = b := by omega
      exact ih hdiv fun y hy => hxs y (List.mem_cons_of_mem x hy)

/-- The same with limbs that may be negative: what stays of a limb is not, and the quotient is rounded down. -/
def carryInt (B : ℤ) : ℤ → List ℤ → List ℤ × ℤ
  | u, [] => ([], u)
  | u, x :: xs => ((u + x) % B :: (carryInt B ((u + x) / B) xs).1, (carryInt B ((u + x) / B) xs).2)

section Signed

variable {C : ℤ}

@[simp] theorem length_carryInt (u : ℤ) (xs : List ℤ) : (carryInt C u xs).1.length = xs.length := by
  induction xs generalizing u with
  | nil => rfl
  | cons x xs ih => rw [carryInt, List.length_cons, ih, List.length_cons]

theorem carryInt_mem (hC : 0 < C) (u : ℤ) (xs : List ℤ) : ∀ x ∈ (carryInt C u xs).1, 0 ≤ x ∧ x < C := by
  induction xs generalizing u with
  | nil => exact fun x hx => absurd hx List.not_mem_nil
  | cons x xs ih =>
      intro y hy
      rcases List.mem_cons.mp hy with rfl | hy
      · exact ⟨Int.emod_nonneg _ hC.ne', Int.emod_lt_of_pos _ hC⟩
      · exact ih _ y hy

theorem carryInt_append (u : ℤ) (xs ys : List ℤ) : carryInt C u (xs ++ ys) =
    ((carryInt C u xs).1 ++ (carryInt C (carryInt C u xs).2 ys).1, (carryInt C (carryInt C u xs).2 ys).2) := by
  induction xs generalizing u with
  | nil => rfl
  | cons x xs ih => rw [List.cons_append, carryInt, ih, carryInt, List.cons_append]

/-- What is carried out is no larger than what goes in. -/
theorem carryInt_out_within (hC : 2 ≤ C) {β : ℤ} (hβ : 1 ≤ β) {u : ℤ} (hu : -β ≤ u ∧ u ≤ β) {xs : List ℤ}
    (hxs : ∀ x ∈ xs, -β ≤ x ∧ x ≤ β) : -β ≤ (carryInt C u xs).2 ∧ (carryInt C u xs).2 ≤ β := by
  induction xs generalizing u with
  | nil => exact hu
  | cons x xs ih =>
      have hx := hxs x List.mem_cons_self
      apply ih
      · constructor
        · rw [Int.le_ediv_iff_mul_le (by omega)]
          nlinarith
        · apply Int.ediv_le_of_le_mul (by omega)
          nlinarith
      · exact fun y hy => hxs y (List.mem_cons_of_mem x hy)

theorem value_carryInt (u : ℤ) (xs : List ℤ) :
    value C (carryInt C u xs).1 + C ^ xs.length * (carryInt C u xs).2 = u + value C xs := by
  induction xs generalizing u with
  | nil => simp [carryInt]
  | cons x xs ih =>
      calc value C (carryInt C u (x :: xs)).1 + C ^ (x :: xs).length * (carryInt C u (x :: xs)).2
          = (u + x) % C + C *
              (value C (carryInt C ((u + x) / C) xs).1 + C ^ xs.length * (carryInt C ((u + x) / C) xs).2) := by
            rw [carryInt, value_cons, List.length_cons, pow_succ']
            ring
        _ = (u + x) % C + C * ((u + x) / C) + C * value C xs := by
            rw [ih]
            ring
        _ = u + value C (x :: xs) := by
            rw [Int.emod_add_mul_ediv, value_cons, add_assoc]

/-- The value of digits. -/
theorem value_mem {xs : List ℤ} (hC : 0 < C) (h : ∀ x ∈ xs, 0 ≤ x ∧ x < C) :
    0 ≤ value C xs ∧ value C xs < C ^ xs.length := by
  induction xs with
  | nil => exact ⟨le_rfl, by simp⟩
  | cons x xs ih =>
      obtain ⟨hx0, hx⟩ := h x List.mem_cons_self
      obtain ⟨hlo, hhi⟩ := ih fun y hy => h y (List.mem_cons_of_mem x hy)
      rw [value_cons, List.length_cons, pow_succ']
      constructor
      · exact add_nonneg hx0 (mul_nonneg hC.le hlo)
      · calc x + C * value C xs < C + C * value C xs := by omega
          _ = C * (value C xs + 1) := by ring
          _ ≤ C * C ^ xs.length := mul_le_mul_of_nonneg_left hhi hC.le

/-- What is carried out is the quotient, rounded down. -/
theorem carryInt_out (hC : 0 < C) (u : ℤ) (xs : List ℤ) :
    (carryInt C u xs).2 = (u + value C xs) / C ^ xs.length := by
  obtain ⟨hlo, hhi⟩ := value_mem hC (carryInt_mem hC u xs)
  rw [length_carryInt] at hhi
  rw [← value_carryInt, Int.add_mul_ediv_left _ _ (pow_pos hC _).ne', Int.ediv_eq_zero_of_lt hlo hhi, zero_add]

end Signed

/-! ## §3 Products that wrap around -/

section Cyclic

variable {R : Type u} [CommSemiring R] {B m : R}

/-- One limb times a number, where what passes the last limb comes back at the first with a factor. -/
theorem sum_shifted {n j : ℕ} (hB : B ^ n = m) (hj : j ≤ n) (r : ℕ → R) :
    ∑ i ∈ Finset.range n, (if j ≤ i then r (i - j) else m * r (i + n - j)) * B ^ i =
      B ^ j * ∑ k ∈ Finset.range n, r k * B ^ k := by
  obtain ⟨l, rfl⟩ := Nat.exists_eq_add_of_le hj
  rw [Finset.sum_range_add, Nat.add_comm j l, Finset.sum_range_add _ l j, mul_add, add_comm]
  congr 1
  · rw [Finset.mul_sum]
    refine Finset.sum_congr rfl fun i _ => ?_
    rw [if_pos (Nat.le_add_right j i), Nat.add_sub_cancel_left, pow_add]
    ring
  · rw [Finset.mul_sum]
    refine Finset.sum_congr rfl fun i hi => ?_
    have hlt := Finset.mem_range.mp hi
    rw [if_neg (by omega), show i + (l + j) - j = l + i by omega, ← hB, pow_add, pow_add]
    ring

/-- **A product that wraps around** multiplies the values, where the base to the power of the length is the
factor of what wraps around. -/
theorem sum_cyclic {n : ℕ} (hB : B ^ n = m) (h r : ℕ → R) :
    ∑ i ∈ Finset.range n, (∑ j ∈ Finset.range n, h j * if j ≤ i then r (i - j) else m * r (i + n - j)) * B ^ i =
      (∑ j ∈ Finset.range n, h j * B ^ j) * ∑ k ∈ Finset.range n, r k * B ^ k := by
  calc ∑ i ∈ Finset.range n, (∑ j ∈ Finset.range n, h j * if j ≤ i then r (i - j)
      else m * r (i + n - j)) * B ^ i
      = ∑ j ∈ Finset.range n, h j * ∑ i ∈ Finset.range n,
          (if j ≤ i then r (i - j) else m * r (i + n - j)) * B ^ i := by
        simp only [Finset.sum_mul, Finset.mul_sum]
        rw [Finset.sum_comm]
        exact Finset.sum_congr rfl fun j _ => Finset.sum_congr rfl fun i _ => by ring
    _ = ∑ j ∈ Finset.range n, h j * (B ^ j * ∑ k ∈ Finset.range n, r k * B ^ k) :=
        Finset.sum_congr rfl fun j hj => by rw [sum_shifted hB (Finset.mem_range.mp hj).le]
    _ = (∑ j ∈ Finset.range n, h j * B ^ j) * ∑ k ∈ Finset.range n, r k * B ^ k := by
        rw [Finset.sum_mul]
        exact Finset.sum_congr rfl fun j _ => (mul_assoc _ _ _).symm

end Cyclic

end SploneBox.Lib.Limbs
