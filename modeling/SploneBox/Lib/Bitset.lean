/-
# SploneBox.Lib.Bitset — sets of places in a list of words.

A place is a word and a bit in it. `bit` reads a place and `put` sets it; a place that is put is set, and all
others are what they were (`bit_put`), so that after any number of puts the places that are set are those that
were put (`bit_putAll`). An injective numbering of places makes a set of numbers of it.
-/
import Mathlib.Data.List.Basic
import Mathlib.Tactic.Common

namespace SploneBox.Lib.Bitset

universe u

variable {w : Nat} {ι : Type u}

/-- The bit at a place. -/
def bit (words : List (BitVec w)) (p : Nat × Nat) : Bool := (words[p.1]?).any fun x => x.getLsbD p.2

/-- The words with the bit at a place set. -/
def put (words : List (BitVec w)) (p : Nat × Nat) : List (BitVec w) :=
  words.modify p.1 (· ||| BitVec.twoPow w p.2)

/-- The words with the bits at the places of some numbers set. -/
def putAll (place : ι → Nat × Nat) (words : List (BitVec w)) (js : List ι) : List (BitVec w) :=
  js.foldl (fun words j => put words (place j)) words

@[simp] theorem length_put (words : List (BitVec w)) (p : Nat × Nat) :
    (put words p).length = words.length := by simp [put]

@[simp] theorem length_putAll (place : ι → Nat × Nat) (words : List (BitVec w)) (js : List ι) :
    (putAll place words js).length = words.length := by
  induction js generalizing words with
  | nil => rfl
  | cons j js ih => exact (ih (put words (place j))).trans (length_put words (place j))

@[simp] theorem bit_zero (n : Nat) (p : Nat × Nat) : bit (List.replicate n 0#w) p = false := by
  unfold bit
  rw [List.getElem?_replicate]
  split <;> simp

/-- A mask of one bit tells whether the bit is set. -/
theorem and_twoPow_ne_zero (x : BitVec w) {k : Nat} (hk : k < w) : x &&& BitVec.twoPow w k ≠ 0#w ↔
    x.getLsbD k = true := by
  rw [BitVec.and_twoPow]
  by_cases hx : x.getLsbD k = true
  · have hne : BitVec.twoPow w k ≠ 0#w := by
      intro hzero
      have hbit := congrArg (fun y => y.getLsbD k) hzero
      simp [hk] at hbit
    rw [if_pos hx]
    exact ⟨fun _ => hx, fun _ => hne⟩
  · rw [if_neg hx]
    exact ⟨fun h => absurd rfl h, fun h => absurd h hx⟩

/-- **A place that is put is set**, and the others are what they were. -/
theorem bit_put {words : List (BitVec w)} {p : Nat × Nat} (hi : p.1 < words.length) (hk : p.2 < w)
    (q : Nat × Nat) :
    bit (put words p) q = (decide (q = p) || bit words q) := by
  obtain ⟨i, k⟩ := p
  obtain ⟨j, l⟩ := q
  unfold bit put
  dsimp only at hi hk ⊢
  rw [List.getElem?_modify]
  by_cases hj : i = j
  · subst hj
    rw [List.getElem?_eq_getElem hi]
    by_cases hl : k = l
    · subst hl
      simp [hk]
    · simp [hl, Ne.symm hl]
  · simp [hj, Ne.symm hj]

/-- **After some puts**, the places are set that were put, or set before. -/
theorem bit_putAll {place : ι → Nat × Nat} {js : List ι} {words : List (BitVec w)}
    (hi : ∀ j ∈ js, (place j).1 < words.length) (hk : ∀ j ∈ js, (place j).2 < w) (q : Nat × Nat) :
    bit (putAll place words js) q = true ↔ (∃ j ∈ js, place j = q) ∨ bit words q = true := by
  induction js generalizing words with
  | nil => simp [putAll]
  | cons j js ih =>
      have hput := bit_put (hi j List.mem_cons_self) (hk j List.mem_cons_self) q
      have hrest := @ih (put words (place j)) (fun j' hj' => by simpa using hi j' (List.mem_cons_of_mem j hj'))
        fun j' hj' => hk j' (List.mem_cons_of_mem j hj')
      show bit (putAll place (put words (place j)) js) q = true ↔ _
      rw [hrest, hput]
      simp only [Bool.or_eq_true, decide_eq_true_eq, List.mem_cons, exists_eq_or_imp]
      constructor
      · rintro (h | h | h)
        · exact Or.inl (Or.inr h)
        · exact Or.inl (Or.inl h.symm)
        · exact Or.inr h
      · rintro ((h | h) | h)
        · exact Or.inr (Or.inl h.symm)
        · exact Or.inl h
        · exact Or.inr (Or.inr h)

end SploneBox.Lib.Bitset
