/-
# SploneBox.Lib.Cursor — pointers into a text with a terminator, and loops that move them.

A pointer is the part of the text it points at. `peek` reads at an index: behind the last item stands the
terminator, and nothing may be read behind that. A `loop` runs a body turn after turn until the body is done;
it has no result when the body has none, or when the turns run out. `Returns` says that a loop is done with a
value in fewer turns than a variant allows: a body that is done returns (`Returns.done`), and a turn that
lowers the variant returns what the rest returns (`Returns.turn`).
-/
import Mathlib.Data.List.DropRight
import Mathlib.Data.List.TakeWhile
import Mathlib.Tactic.Common

namespace SploneBox.Lib.Cursor

universe u v w

variable {α : Type u} {σ : Type v} {β : Type w}

/-! ## §1 Pointers -/

/-- `p[i]`, `none` behind the terminator. -/
def peek (nul : α) (p : List α) (i : Nat) : Option α := (p ++ [nul])[i]?

/-- `p + n`, `none` behind the terminator. -/
def advance (p : List α) (n : Nat) : Option (List α) := if n ≤ p.length then some (p.drop n) else none

/-- What is in front of a later pointer. -/
def upTo (p q : List α) : List α := p.take (p.length - q.length)

@[simp] theorem peek_nil (nul : α) : peek nul [] 0 = some nul := rfl

@[simp] theorem peek_cons_zero (nul c : α) (p : List α) : peek nul (c :: p) 0 = some c := rfl

@[simp] theorem peek_cons_succ (nul c : α) (p : List α) (i : Nat) : peek nul (c :: p) (i + 1) = peek nul p i :=
  rfl

theorem peek_head (nul : α) (p : List α) : peek nul p 0 = some (p.head?.getD nul) := by
  cases p <;> rfl

@[simp] theorem advance_zero (p : List α) : advance p 0 = some p := by simp [advance]

@[simp] theorem advance_cons (c : α) (p : List α) (n : Nat) : advance (c :: p) (n + 1) = advance p n := by
  simp [advance]

theorem upTo_append (p q : List α) : upTo (p ++ q) q = p := by simp [upTo]

/-! ## §2 Loops -/

/-- The turns of a body, at most `fuel` of them. -/
def loop (body : σ → Option (σ ⊕ β)) : Nat → σ → Option β
  | 0, _ => none
  | fuel + 1, s =>
      (body s).bind fun
        | .inl s' => loop body fuel s'
        | .inr b => some b

/-- The loop is done with the value in no more turns than the variant says, and one. -/
def Returns (body : σ → Option (σ ⊕ β)) (variant : σ → Nat) (s : σ) (b : β) : Prop :=
  ∀ fuel, variant s < fuel → loop body fuel s = some b

variable {body : σ → Option (σ ⊕ β)} {variant : σ → Nat}

theorem Returns.done {s : σ} {b : β} (h : body s = some (.inr b)) : Returns body variant s b := by
  intro fuel hfuel
  obtain ⟨n, rfl⟩ := Nat.exists_eq_add_of_lt hfuel
  simp [loop, h]

theorem Returns.turn {s u : σ} {b : β} (h : body s = some (.inl u)) (hlt : variant u < variant s)
    (hrest : Returns body variant u b) : Returns body variant s b := by
  intro fuel hfuel
  obtain ⟨n, rfl⟩ := Nat.exists_eq_add_of_lt hfuel
  show loop body (variant s + n + 1) s = some b
  rw [loop, h]
  exact hrest _ (by omega)

theorem Returns.run {s : σ} {b : β} (h : Returns body variant s b) : loop body (variant s + 1) s = some b :=
  h _ (Nat.lt_succ_self _)

/-! ## §3 Skipping -/

/-- `while (P(*p)) ++p;` -/
def skip (nul : α) (P : α → Bool) (p : List α) : Option (List α) :=
  loop (fun p => (peek nul p 0).bind fun c => if P c then (advance p 1).map .inl else some (.inr p))
    (p.length + 1) p

/-- A test that the terminator fails is skipped up to where it fails. -/
theorem skip_eq {nul : α} {P : α → Bool} (h : P nul = false) (p : List α) :
    skip nul P p = some (p.dropWhile P) := by
  have hreturns :
      Returns (fun p => (peek nul p 0).bind fun c => if P c then (advance p 1).map .inl else some (.inr p))
      List.length p (p.dropWhile P) := by
    induction p with
    | nil => exact Returns.done (by simp [h])
    | cons c p ih =>
        by_cases hc : P c = true
        · rw [List.dropWhile_cons_of_pos hc]
          exact Returns.turn (by simp [hc]) (Nat.lt_succ_self _) ih
        · rw [List.dropWhile_cons_of_neg hc]
          exact Returns.done (by simp [hc])
  exact hreturns.run

/-- Tests that agree on the text skip the same. -/
theorem dropWhile_congr {P Q : α → Bool} {p : List α} (h : ∀ c ∈ p, P c = Q c) :
    p.dropWhile P = p.dropWhile Q := by
  induction p with
  | nil => rfl
  | cons c p ih =>
      rw [List.dropWhile_cons, List.dropWhile_cons, h c List.mem_cons_self, ih fun d hd =>
        h d (List.mem_cons_of_mem c hd)]

/-- Trimming from the back, seen from the front. -/
theorem rdropWhile_append (P : α → Bool) (p q : List α) :
    (p ++ q).rdropWhile P = if q.rdropWhile P = [] then p.rdropWhile P else p ++ q.rdropWhile P := by
  unfold List.rdropWhile
  rw [List.reverse_append, List.dropWhile_append]
  by_cases hnil : q.reverse.dropWhile P = [] <;> simp [hnil]

theorem rdropWhile_cons (P : α → Bool) (c : α) (p : List α) :
    (c :: p).rdropWhile P = if p.rdropWhile P = [] then (if P c then [] else [c]) else c :: p.rdropWhile P := by
  rw [← List.rdropWhile_singleton]
  exact rdropWhile_append P [c] p

end SploneBox.Lib.Cursor
