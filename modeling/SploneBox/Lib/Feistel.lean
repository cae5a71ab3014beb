/-
# SploneBox.Lib.Feistel — networks that add to one half a function of the other.

A block has two halves in an additive group. Half a round adds to one half a value computed from the other,
which stays as it is, so half a round can be undone by subtracting the same value, whatever the function is. A
round is a half round on each side, with functions that depend on a schedule; the schedule moves on with every
round. `network` is such a composition as a permutation, and `run` is the loop that computes it
(`network_apply`).
-/
import Mathlib.Algebra.Group.Basic
import Mathlib.Logic.Equiv.Basic

namespace SploneBox.Lib.Feistel

universe u v

variable {α : Type u} [AddGroup α] {σ : Type v}

/-! ## §1 Half rounds -/

/-- The left half gets a value of the right one added. -/
def mixLeft (f : α → α) : Equiv.Perm (α × α) where
  toFun b := (b.1 + f b.2, b.2)
  invFun b := (b.1 - f b.2, b.2)
  left_inv b := by simp
  right_inv b := by simp

/-- The right half gets a value of the left one added. -/
def mixRight (f : α → α) : Equiv.Perm (α × α) where
  toFun b := (b.1, b.2 + f b.1)
  invFun b := (b.1, b.2 - f b.1)
  left_inv b := by simp
  right_inv b := by simp

/-! ## §2 Rounds -/

/-- How the schedule moves on, and the functions of a round under it. -/
structure Schedule (α : Type u) (σ : Type v) where
  next : σ → σ
  left : σ → α → α
  right : σ → α → α

/-- `n` rounds, the schedule moving on before each. -/
def network (S : Schedule α σ) : Nat → σ → Equiv.Perm (α × α)
  | 0, _ => Equiv.refl _
  | n + 1, s =>
      ((mixLeft (S.left (S.next s))).trans (mixRight (S.right (S.next s)))).trans (network S n (S.next s))

/-- The loop over the rounds, with the two halves in variables. -/
def run (S : Schedule α σ) : Nat → σ → α → α → α × α
  | 0, _, x, y => (x, y)
  | n + 1, s, x, y =>
      run S n (S.next s) (x + S.left (S.next s) y) (y + S.right (S.next s) (x + S.left (S.next s) y))

/-- **The loop computes the permutation.** -/
theorem network_apply (S : Schedule α σ) (n : Nat) :
    ∀ (s : σ) (x y : α), network S n s (x, y) = run S n s x y := by
  induction n with
  | zero => exact fun _ _ _ => rfl
  | succ n ih =>
      intro s x y
      rw [network, Equiv.trans_apply, Equiv.trans_apply, run]
      exact ih _ _ _

/-- The loop is a bijection of blocks, whatever the schedule. -/
theorem run_bijective (S : Schedule α σ) (n : Nat) (s : σ) :
    Function.Bijective fun b : α × α => run S n s b.1 b.2 := by
  have hrun : (fun b : α × α => run S n s b.1 b.2) = network S n s := by
    funext b
    exact (network_apply S n s b.1 b.2).symm
  rw [hrun]
  exact (network S n s).bijective

end SploneBox.Lib.Feistel
