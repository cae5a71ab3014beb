/-
# SploneBox.Lib.Powers — going through a number bit by bit.

Square-and-multiply, double-and-add and the ladder all go through the bits of a number from the most
significant one on. What they keep is said once: if it holds for `a` and a step with the bit `b` makes it hold
for `2 * a + b`, it holds for the number at the end (`exists_foldlM_bits`). Powers modulo a number are
computed so (`powMod_eq`), which the kernel can do with numbers of hundreds of bits, and with them Lucas's
test (`IsCertificate.prime`).
-/
import Mathlib.NumberTheory.LucasPrimality
import Mathlib.Algebra.BigOperators.Associated

namespace SploneBox.Lib.Powers

universe u

/-! ## §1 Bits -/

/-- The lowest `n` bits of `k`, the most significant first. -/
def bits (n k : ℕ) : List Bool := (List.range n).reverse.map k.testBit

theorem bits_succ (n k : ℕ) : bits (n + 1) k = k.testBit n :: bits n k := by
  rw [bits, List.range_succ, List.reverse_append]
  rfl

theorem mod_two_pow_succ (k n : ℕ) : k % 2 ^ (n + 1) = (k.testBit n).toNat * 2 ^ n + k % 2 ^ n := by
  rw [Nat.mod_pow_succ, Nat.testBit_eq_decide_div_mod_eq, add_comm, mul_comm]
  congr 2
  rcases Nat.mod_two_eq_zero_or_one (k / 2 ^ n) with h | h <;> rw [h] <;> rfl

variable {σ : Type u}

/-- **Going through the bits.** What holds for `a`, and after a step for `2 * a` and its bit, holds at the end
for the number. -/
theorem exists_foldlM_bits {step : σ → Bool → Option σ} {R : ℕ → σ → Prop}
    (hstep : ∀ a s b, R a s → ∃ s', step s b = some s' ∧ R (2 * a + b.toNat) s') (n k : ℕ) :
    ∀ {a : ℕ} {s : σ}, R a s → ∃ s', (bits n k).foldlM step s = some s' ∧ R (a * 2 ^ n + k % 2 ^ n) s' := by
  induction n with
  | zero =>
      intro a s h
      refine ⟨s, rfl, ?_⟩
      rw [pow_zero, Nat.mod_one, mul_one, add_zero]
      exact h
  | succ n ih =>
      intro a s h
      obtain ⟨s₁, hs₁, h₁⟩ := hstep a s (k.testBit n) h
      obtain ⟨s₂, hs₂, h₂⟩ := ih h₁
      refine ⟨s₂, ?_, ?_⟩
      · rw [bits_succ, List.foldlM_cons, hs₁]
        exact hs₂
      · have hnumber :
            (2 * a + (k.testBit n).toNat) * 2 ^ n + k % 2 ^ n = a * 2 ^ (n + 1) + k % 2 ^ (n + 1) := by
          rw [mod_two_pow_succ, pow_succ]
          ring
        exact hnumber ▸ h₂

/-- The same where no step fails. -/
theorem foldl_bits {step : σ → Bool → σ} {R : ℕ → σ → Prop}
    (hstep : ∀ a s b, R a s → R (2 * a + b.toNat) (step s b)) (n k : ℕ)
    {a : ℕ} {s : σ} (h : R a s) : R (a * 2 ^ n + k % 2 ^ n) ((bits n k).foldl step s) := by
  obtain ⟨s', hs', hR⟩ :=
    @exists_foldlM_bits σ (fun s b => some (step s b)) R (fun a s b h => ⟨_, rfl, hstep a s b h⟩) n k a s h
  have hpure : (bits n k).foldlM (fun s b => some (step s b)) s = some ((bits n k).foldl step s) :=
    List.foldlM_pure
  rw [hpure, Option.some.injEq] at hs'
  exact hs' ▸ hR

/-! ## §2 Powers modulo a number -/

/-- `a ^ k % m`, by squaring and multiplying along `n` bits. -/
def powMod (m a n k : ℕ) : ℕ := (bits n k).foldl (fun r b => if b then r * r % m * a % m else r * r % m) (1 % m)

theorem powMod_eq {m a n k : ℕ} (h : k < 2 ^ n) : powMod m a n k = a ^ k % m := by
  have hrun : powMod m a n k = a ^ (0 * 2 ^ n + k % 2 ^ n) % m := by
    refine foldl_bits (R := fun e r => r = a ^ e % m) ?_ n k rfl
    rintro e r b rfl
    have hsquare : a ^ e % m * (a ^ e % m) % m = a ^ (2 * e) % m := by rw [← Nat.mul_mod, two_mul, pow_add]
    cases b with
    | false => exact hsquare
    | true =>
        show a ^ e % m * (a ^ e % m) % m * a % m = a ^ (2 * e + 1) % m
        rw [hsquare, Nat.mod_mul_mod, pow_succ]
  rw [hrun, zero_mul, zero_add, Nat.mod_eq_of_lt h]

/-! ## §3 Primes -/

/-- `qs` are the factors of `p - 1`, and `a` has no smaller order than `p - 1`. -/
def IsCertificate (p a n : ℕ) (qs : List ℕ) : Prop :=
  1 < p ∧ p ≤ 2 ^ n ∧ qs.prod = p - 1 ∧ powMod p a n (p - 1) = 1 ∧ ∀ q ∈ qs, powMod p a n ((p - 1) / q) ≠ 1

instance (p a n : ℕ) (qs : List ℕ) : Decidable (IsCertificate p a n qs) :=
  inferInstanceAs (Decidable (1 < p ∧ p ≤ 2 ^ n ∧ qs.prod = p - 1 ∧ powMod p a n (p - 1) = 1 ∧ ∀ q ∈ qs,
    powMod p a n ((p - 1) / q) ≠ 1))

/-- **Lucas's test**, with the factors in hand. -/
theorem IsCertificate.prime {p a n : ℕ} {qs : List ℕ} (h : IsCertificate p a n qs)
    (hprime : ∀ q ∈ qs, q.Prime) : p.Prime := by
  obtain ⟨hp, hbound, hprod, hone, hne⟩ := h
  have hlt : ∀ k ≤ p - 1, k < 2 ^ n := fun k hk => by omega
  have hunit : ∀ k ≤ p - 1, ((a : ZMod p) ^ k = 1 ↔ powMod p a n k = 1) := by
    intro k hk
    rw [powMod_eq (hlt k hk), ← Nat.cast_pow, ← Nat.cast_one, ZMod.natCast_eq_natCast_iff', Nat.mod_eq_of_lt hp]
  refine lucas_primality p a ((hunit _ le_rfl).mpr hone) fun q hq hdvd => ?_
  rw [← hprod] at hdvd
  obtain ⟨r, hr, hqr⟩ := (Prime.dvd_prod_iff hq.prime).mp hdvd
  have heq : q = r := (Nat.prime_dvd_prime_iff_eq hq (hprime r hr)).mp hqr
  rw [ne_eq, hunit _ (Nat.div_le_self _ _), heq]
  exact hne r hr

end SploneBox.Lib.Powers
