/-
# SploneBox.Lib.Memory — linear and circular reads over a byte-addressed memory.

A memory is a total function from addresses to cells: what lies outside an allocation is there, it is
only not specified. `slice` reads a run of consecutive cells, `store` overwrites one, and `window`
reads a run that wraps around a capacity, as the unread part of a circular buffer does.

The lemmas are the ones a proof about a buffer needs: reads split and shift (`slice_add`,
`window_drop`, `window_take`), a run that does not reach the end of the buffer is linear
(`window_eq_slice`), a store shows up exactly in the cells it covers (`slice_store_same`,
`slice_store_of_le`), and storing right behind a window extends it (`window_store`). The cells have an
arbitrary type.
-/
import Mathlib.Data.List.Basic
import Mathlib.Tactic.Common

namespace SploneBox.Lib.Memory

universe u

variable {α : Type u}

/-! ## §1 Linear reads and writes -/

/-- The `n` cells from address `i` on. -/
def slice (mem : Nat → α) (i n : Nat) : List α := (List.range n).map fun j => mem (i + j)

/-- The memory after writing `xs` at address `p`. -/
def store (mem : Nat → α) (p : Nat) (xs : List α) : Nat → α :=
  fun j => if p ≤ j then (xs[j - p]?).getD (mem j) else mem j

@[simp] theorem slice_length (mem : Nat → α) (i n : Nat) : (slice mem i n).length = n := by
  simp [slice]

@[simp] theorem slice_zero (mem : Nat → α) (i : Nat) : slice mem i 0 = [] := rfl

/-- Two reads that see the same cells are equal. -/
theorem slice_congr {mem mem' : Nat → α} {i i' n : Nat}
    (h : ∀ j, j < n → mem (i + j) = mem' (i' + j)) : slice mem i n = slice mem' i' n := by
  refine List.map_congr_left fun j hj => ?_
  exact h j (List.mem_range.mp hj)

theorem slice_add (mem : Nat → α) (i m n : Nat) :
    slice mem i (m + n) = slice mem i m ++ slice mem (i + m) n := by
  simp only [slice, List.range_add, List.map_append, List.map_map]
  congr 1
  refine List.map_congr_left fun j _ => ?_
  simp only [Function.comp_apply, Nat.add_assoc]

theorem slice_take (mem : Nat → α) (i n k : Nat) (hk : k ≤ n) :
    (slice mem i n).take k = slice mem i k := by
  obtain ⟨m, rfl⟩ := Nat.exists_eq_add_of_le hk
  rw [slice_add, List.take_left' (slice_length mem i k)]

theorem slice_drop (mem : Nat → α) (i n k : Nat) (hk : k ≤ n) :
    (slice mem i n).drop k = slice mem (i + k) (n - k) := by
  obtain ⟨m, rfl⟩ := Nat.exists_eq_add_of_le hk
  rw [slice_add, List.drop_left' (slice_length mem i k), Nat.add_sub_cancel_left]

theorem store_of_lt {mem : Nat → α} {p j : Nat} {xs : List α} (h : j < p) :
    store mem p xs j = mem j := by
  simp [store, Nat.not_le.mpr h]

theorem store_of_ge {mem : Nat → α} {p j : Nat} {xs : List α} (h : p + xs.length ≤ j) :
    store mem p xs j = mem j := by
  have hnone : xs[j - p]? = none := List.getElem?_eq_none (by omega)
  simp [store, hnone]

theorem store_add {mem : Nat → α} {p j : Nat} {xs : List α} {x : α} (h : xs[j]? = some x) :
    store mem p xs (p + j) = x := by
  simp [store, h]

/-- Reading back what was stored. -/
theorem slice_store_same (mem : Nat → α) (p : Nat) (xs : List α) :
    slice (store mem p xs) p xs.length = xs := by
  refine List.ext_getElem (by simp) fun j h₁ h₂ => ?_
  simp only [slice, List.getElem_map, List.getElem_range]
  exact store_add (List.getElem?_eq_getElem h₂)

/-- A store above a linear read does not change it. -/
theorem slice_store_of_le {mem : Nat → α} {p i n : Nat} {xs : List α} (h : i + n ≤ p) :
    slice (store mem p xs) i n = slice mem i n :=
  slice_congr fun _ hj => store_of_lt (by omega)

/-! ## §2 Circular reads -/

/-- The `n` cells from position `i` on in a circular buffer of capacity `c`. -/
def window (mem : Nat → α) (c i n : Nat) : List α := (List.range n).map fun j => mem ((i + j) % c)

@[simp] theorem window_length (mem : Nat → α) (c i n : Nat) : (window mem c i n).length = n := by
  simp [window]

@[simp] theorem window_zero (mem : Nat → α) (c i : Nat) : window mem c i 0 = [] := rfl

theorem window_add (mem : Nat → α) (c i m n : Nat) :
    window mem c i (m + n) = window mem c i m ++ window mem c ((i + m) % c) n := by
  simp only [window, List.range_add, List.map_append, List.map_map]
  congr 1
  refine List.map_congr_left fun j _ => ?_
  simp only [Function.comp_apply, Nat.mod_add_mod, Nat.add_assoc]

theorem window_take (mem : Nat → α) (c i n k : Nat) (hk : k ≤ n) :
    (window mem c i n).take k = window mem c i k := by
  obtain ⟨m, rfl⟩ := Nat.exists_eq_add_of_le hk
  rw [window_add, List.take_left' (window_length mem c i k)]

theorem window_drop (mem : Nat → α) (c i n k : Nat) (hk : k ≤ n) :
    (window mem c i n).drop k = window mem c ((i + k) % c) (n - k) := by
  obtain ⟨m, rfl⟩ := Nat.exists_eq_add_of_le hk
  rw [window_add, List.drop_left' (window_length mem c i k), Nat.add_sub_cancel_left]

/-- A window that does not reach beyond the end of the buffer is a linear read. -/
theorem window_eq_slice {mem : Nat → α} {c i n : Nat} (h : i + n ≤ c) :
    window mem c i n = slice mem i n := by
  refine List.map_congr_left fun j hj => ?_
  have hlt : i + j < c := by
    have := List.mem_range.mp hj
    omega
  rw [Nat.mod_eq_of_lt hlt]

/-- Two positions less than a capacity apart are different cells of the buffer. -/
theorem mod_ne_of_lt {c i j k : Nat} (hj : j < k) (hk : k < c + j) :
    (i + j) % c ≠ (i + k) % c := by
  intro he
  have hdvd : c ∣ (i + k) - (i + j) :=
    Nat.dvd_of_mod_eq_zero (Nat.sub_mod_eq_zero_of_mod_eq he.symm)
  have hzero : (i + k) - (i + j) = 0 := Nat.eq_zero_of_dvd_of_lt hdvd (by omega)
  omega

/-- **Storing right behind a window extends it**: the new cells are `(i + n) % c` and on, they do not
reach the end of the buffer, and together with the window they do not exceed its capacity. -/
theorem window_store {mem : Nat → α} {c i n : Nat} {xs : List α}
    (hfit : n + xs.length ≤ c) (hend : (i + n) % c + xs.length ≤ c) :
    window (store mem ((i + n) % c) xs) c i (n + xs.length) = window mem c i n ++ xs := by
  rw [window_add]
  congr 1
  · -- the old cells: none of them is a cell of the stored block
    refine List.map_congr_left fun j hj => ?_
    have hjn : j < n := List.mem_range.mp hj
    set p := (i + n) % c with hp
    rcases Nat.lt_or_ge ((i + j) % c) p with hlt | hge
    · exact store_of_lt hlt
    · refine store_of_ge (Nat.le_of_not_lt fun hcon => ?_)
      have hk : (i + n + ((i + j) % c - p)) % c = (i + j) % c := by
        rw [Nat.add_mod, ← hp, Nat.mod_eq_of_lt (a := (i + j) % c - p) (by omega),
          Nat.mod_eq_of_lt (by omega)]
        omega
      refine mod_ne_of_lt (i := i) (j := j) (k := n + ((i + j) % c - p)) (c := c) (by omega)
        (by omega) ?_
      rw [← Nat.add_assoc]
      exact hk.symm
  · rw [window_eq_slice hend, slice_store_same]

end SploneBox.Lib.Memory
