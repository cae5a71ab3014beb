/-
# SploneBox.Lib.Wiping — working memory that remembers where secrets stood.

A cell has a value, and two marks that no program can read: whether it has held a secret, and whether it has
been set to zero since. A scratch buffer is a list of cells with three operations: `store` puts secret bytes
somewhere, `clear` sets a stretch to zero, and memory that was just given out is `uninit`. A buffer is wiped
when every cell that has held a secret was set to zero since.
-/
import Mathlib.Data.List.Basic

namespace SploneBox.Lib.Wiping

/-- One byte of memory; what was set to zero and not written since is zero. -/
structure Cell where
  value : UInt8
  held : Bool
  cleared : Bool
  cleared_zero : cleared = true → value = 0

/-- A buffer. -/
abbrev Scratch := List Cell

namespace Scratch

/-- Memory with something in it that is no secret of its new owner. -/
def uninit (garbage : Nat → UInt8) (n : Nat) : Scratch :=
  (List.range n).map fun i => ⟨garbage i, false, false, fun h => absurd h Bool.false_ne_true⟩

/-- A cell that a secret byte is stored in. -/
def secret (b : UInt8) : Cell := ⟨b, true, false, fun h => absurd h Bool.false_ne_true⟩

/-- A cell that is set to zero. -/
def zeroed (c : Cell) : Cell := ⟨0, c.held, true, fun _ => rfl⟩

/-- Secret bytes are stored from an offset on. -/
def store (s : Scratch) (offset : Nat) (bytes : List UInt8) : Scratch :=
  s.take offset ++ (bytes.map secret ++ s.drop (offset + bytes.length))

/-- `count` bytes are set to zero from an offset on. -/
def clear (s : Scratch) (offset count : Nat) : Scratch :=
  s.take offset ++ (((s.drop offset).take count).map zeroed ++ s.drop (offset + count))

/-- **A buffer is wiped**: each of its cells that has held a secret was set to zero, and is zero. -/
def Wiped (s : Scratch) : Prop := ∀ c ∈ s, c.held = true → c.cleared = true ∧ c.value = 0

/-! ## §1 Buffers that are wiped -/

theorem wiped_uninit {garbage : Nat → UInt8} {n : Nat} : Wiped (uninit garbage n) := by
  intro c hc hheld
  obtain ⟨i, -, rfl⟩ := List.mem_map.mp hc
  exact absurd hheld Bool.false_ne_true

theorem wiped_zeroed {c : Cell} : (zeroed c).cleared = true ∧ (zeroed c).value = 0 := ⟨rfl, rfl⟩

/-- A buffer that is set to zero as a whole is wiped, whatever stood in it. -/
theorem wiped_clear_all {s : Scratch} {count : Nat} (h : s.length ≤ count) : Wiped (clear s 0 count) := by
  intro c hc _
  rw [clear, List.take_zero, List.nil_append, List.drop_zero, List.take_of_length_le h,
    List.drop_of_length_le (by omega), List.append_nil] at hc
  obtain ⟨c', -, rfl⟩ := List.mem_map.mp hc
  exact wiped_zeroed

/-- Setting a stretch to zero undoes no wiping. -/
theorem Wiped.clear {s : Scratch} (h : Wiped s) (offset count : Nat) : Wiped (clear s offset count) := by
  intro c hc hheld
  rw [Scratch.clear, List.mem_append, List.mem_append, List.mem_map] at hc
  rcases hc with hc | ⟨c', -, rfl⟩ | hc
  · exact h c (List.mem_of_mem_take hc) hheld
  · exact wiped_zeroed
  · exact h c (List.mem_of_mem_drop hc) hheld

/-! ## §2 Buffers that are not -/

@[simp] theorem length_uninit {garbage : Nat → UInt8} {n : Nat} : (uninit garbage n).length = n := by
  simp [uninit]

theorem length_store {s : Scratch} {offset : Nat} {bytes : List UInt8} (h : offset + bytes.length ≤ s.length) :
    (store s offset bytes).length = s.length := by
  simp [store]
  omega

theorem length_clear {s : Scratch} {offset count : Nat} : (clear s offset count).length = s.length := by
  simp [clear]
  omega

/-- What is stored in a buffer is a secret in it, up to the next time it is set to zero. -/
theorem mem_store {s : Scratch} {offset : Nat} {bytes : List UInt8} {b : UInt8} (h : b ∈ bytes) :
    secret b ∈ store s offset bytes := by
  rw [store, List.mem_append, List.mem_append]
  exact Or.inr (Or.inl (List.mem_map_of_mem h))

/-- A secret cell that lies behind the stretch that is set to zero stays a secret. -/
theorem mem_clear_of_drop {s : Scratch} {offset count : Nat} {c : Cell} (h : c ∈ s.drop (offset + count)) :
    c ∈ clear s offset count := by
  rw [clear, List.mem_append, List.mem_append]
  exact Or.inr (Or.inr h)

theorem not_wiped {s : Scratch} {b : UInt8} (h : secret b ∈ s) : ¬ Wiped s := by
  intro hw
  exact absurd (hw _ h rfl).1 Bool.false_ne_true

/-- **Clearing the head of a buffer wipes nothing that is stored behind it.** -/
theorem not_wiped_clear_store {s : Scratch} {offset count : Nat} {bytes : List UInt8} (hoff : offset ≤ s.length)
    (hcount : count ≤ offset) (hne : bytes ≠ []) : ¬ Wiped (clear (store s offset bytes) 0 count) := by
  obtain ⟨b, hb⟩ := List.exists_mem_of_ne_nil bytes hne
  apply not_wiped (b := b)
  apply mem_clear_of_drop
  rw [Nat.zero_add, store, List.drop_append_of_le_length (by simp; omega), List.mem_append, List.mem_append]
  exact Or.inr (Or.inl (List.mem_map_of_mem hb))

end Scratch

end SploneBox.Lib.Wiping
