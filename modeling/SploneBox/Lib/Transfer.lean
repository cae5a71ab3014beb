/-
# SploneBox.Lib.Transfer — transfers in pieces.

A transfer moves data in a loop, as much in each turn as the outside allows, until the loop is left.
`runUntil` runs such a loop on the answers of the outside. What holds at its start and is kept by every turn
holds where it is left (`runUntil_spec`), and a loop in which every answer of one kind brings the end nearer
is left after enough of them (`runUntil_of_measure`).

What the pieces come to is said with `overwrite`, a piece put at a position, and `laidOver`, data laid over
the beginning of other data: a piece put where the data so far end lengthens these (`overwrite_laidOver`).
-/
import SploneBox.Lib.Machine
import Mathlib.Data.List.TakeDrop
import Mathlib.Tactic.Common

namespace SploneBox.Lib.Transfer

universe u v

/-! ## §1 Loops that are answered from outside -/

variable {σ : Type u} {ι : Type v}

/-- The state in which the loop is left, `none` where the answers do not lead there. -/
def runUntil (done : σ → Bool) (step : σ → ι → Option σ) : σ → List ι → Option σ
  | s, [] => if done s then some s else none
  | s, l :: ls => if done s then some s else (step s l).bind fun s' => runUntil done step s' ls

variable {done : σ → Bool} {step : σ → ι → Option σ}

theorem runUntil_of_done {s : σ} (hs : done s = true) (ls : List ι) : runUntil done step s ls = some s := by
  cases ls <;> simp [runUntil, hs]

theorem runUntil_cons {s : σ} (hs : done s = false) (l : ι) (ls : List ι) :
    runUntil done step s (l :: ls) = (step s l).bind fun s' => runUntil done step s' ls := by
  simp [runUntil, hs]

/-- **Where the loop is left.** What every turn keeps holds there. -/
theorem runUntil_spec {I : σ → Prop} (hstep : ∀ s l s', I s → step s l = some s' → I s') {ls : List ι}
    {s t : σ} (hI : I s) (hrun : runUntil done step s ls = some t) : I t ∧ done t = true := by
  induction ls generalizing s with
  | nil =>
      by_cases hs : done s = true
      · rw [runUntil_of_done hs] at hrun
        cases hrun
        exact ⟨hI, hs⟩
      · simp [runUntil, hs] at hrun
  | cons l ls ih =>
      by_cases hs : done s = true
      · rw [runUntil_of_done hs] at hrun
        cases hrun
        exact ⟨hI, hs⟩
      · rw [runUntil_cons (by simpa using hs)] at hrun
        obtain ⟨s', hs', hrest⟩ := Option.bind_eq_some_iff.mp hrun
        exact ih (hstep s l s' hI hs') hrest

/-- **The loop is left.** An answer that meets `p` makes the measure smaller, the others do not make it
larger, and the loop is left at zero: so it is, after as many answers that meet `p` as the measure says. -/
theorem runUntil_of_measure {I : σ → Prop} (μ : σ → Nat) (p : ι → Bool)
    (hzero : ∀ s, I s → μ s = 0 → done s = true) (hstep : ∀ s l, I s → done s = false →
      ∃ s', step s l = some s' ∧ I s' ∧ (μ s' < μ s ∨ p l = false ∧ μ s' ≤ μ s))
    {ls : List ι} {s : σ} (hI : I s) (hcount : μ s ≤ ls.countP p) : ∃ t, runUntil done step s ls = some t := by
  -- On the replies: each that counts brings the measure down, so there are never fewer of them left than it
  -- says.
  induction ls generalizing s with
  | nil => exact ⟨s, runUntil_of_done (hzero s hI (by simpa using hcount)) []⟩
  | cons l ls ih =>
      by_cases hs : done s = true
      · exact ⟨s, runUntil_of_done hs _⟩
      · have hopen : done s = false := by simpa using hs
        obtain ⟨s', hs', hI', hμ⟩ := hstep s l hI hopen
        rw [runUntil_cons hopen, hs']
        apply ih hI'
        rw [List.countP_cons] at hcount
        rcases hμ with hless | ⟨hp, hle⟩
        · split at hcount <;> omega
        · simp only [hp, Bool.false_eq_true, if_false] at hcount
          omega

/-! ## §2 Pieces -/

variable {α : Type u}

/-- A piece put at a position, behind `fill` where the data do not reach it. -/
def overwrite (fill : α) (d : List α) (p : Nat) (piece : List α) : List α :=
  d.takeD p fill ++ piece ++ d.drop (p + piece.length)

/-- `y` laid over the beginning of `d`. -/
def laidOver (y d : List α) : List α := y ++ d.drop y.length

@[simp] theorem laidOver_nil (d : List α) : laidOver [] d = d := rfl

theorem length_laidOver {y d : List α} (h : y.length ≤ d.length) : (laidOver y d).length = d.length := by
  rw [laidOver, List.length_append, List.length_drop]
  omega

theorem take_laidOver (y d : List α) : (laidOver y d).take y.length = y := List.take_left' rfl

/-- **A piece put where the data end** lengthens them. -/
theorem overwrite_laidOver (fill : α) (d y piece : List α) :
    overwrite fill (laidOver y d) y.length piece = laidOver (y ++ piece) d := by
  have hfront : (laidOver y d).takeD y.length fill = y := List.takeD_left y _ fill
  have hback : (laidOver y d).drop (y.length + piece.length) = d.drop (y ++ piece).length := by
    rw [laidOver, List.drop_append, List.drop_drop, List.length_append]
    simp
  rw [overwrite, hfront, hback, laidOver]

end SploneBox.Lib.Transfer
