/-
# SploneBox.Lib.Numerals — numerals in a base, read from the front of a text.

A numeral is a list of characters, each of which has a digit value; `value` reads it in the order in which it
is written. A text starts with a `run` of digits, cut off at a width. `run_append` says what the run of a text
is that was put together of a numeral and a rest, and `value_le_append` that a numeral does not get smaller by
more digits, which is why a check for overflow can be made digit by digit.
-/
import Mathlib.Data.List.TakeWhile
import Mathlib.Tactic.Common
import Mathlib.Tactic.Ring

namespace SploneBox.Lib.Numerals

universe u

variable {α : Type u}

/-! ## §1 Values -/

/-- The value of a numeral that continues the number `acc`. -/
def valueFrom (base : Nat) (digit : α → Nat) (acc : Nat) (ds : List α) : Nat :=
  ds.foldl (fun n c => base * n + digit c) acc

/-- The value of a numeral. -/
def value (base : Nat) (digit : α → Nat) (ds : List α) : Nat := valueFrom base digit 0 ds

@[simp] theorem valueFrom_nil (base : Nat) (digit : α → Nat) (acc : Nat) : valueFrom base digit acc [] = acc :=
  rfl

@[simp] theorem valueFrom_cons (base : Nat) (digit : α → Nat) (acc : Nat) (c : α) (ds : List α) :
    valueFrom base digit acc (c :: ds) = valueFrom base digit (base * acc + digit c) ds := rfl

/-- More digits do not make a number smaller. -/
theorem le_valueFrom {base : Nat} (hbase : 0 < base) (digit : α → Nat) (ds : List α) :
    ∀ acc, acc ≤ valueFrom base digit acc ds := by
  induction ds with
  | nil => exact fun acc => le_rfl
  | cons c ds ih =>
      intro acc
      calc acc ≤ base * acc := Nat.le_mul_of_pos_left acc hbase
        _ ≤ base * acc + digit c := Nat.le_add_right _ _
        _ ≤ valueFrom base digit (base * acc + digit c) ds := ih _

/-- A numeral is smaller than the power of the base with its number of digits. -/
theorem valueFrom_lt {base : Nat} {digit : α → Nat} {ds : List α} (h : ∀ c ∈ ds, digit c < base) :
    ∀ acc, valueFrom base digit acc ds < (acc + 1) * base ^ ds.length := by
  induction ds with
  | nil => exact fun acc => by simp
  | cons c ds ih =>
      intro acc
      have hdigit := h c List.mem_cons_self
      have hrest := ih (fun d hd => h d (List.mem_cons_of_mem c hd)) (base * acc + digit c)
      calc valueFrom base digit acc (c :: ds) < (base * acc + digit c + 1) * base ^ ds.length := hrest
        _ ≤ (base * acc + base) * base ^ ds.length := Nat.mul_le_mul_right _ (by omega)
        _ = (acc + 1) * base ^ (c :: ds).length := by
            rw [List.length_cons, pow_succ]
            ring

/-! ## §2 Runs -/

/-- The longest run of digits at the front of a text, not longer than the width. -/
def run (isDigit : α → Bool) (width : Nat) (text : List α) : List α := (text.take width).takeWhile isDigit

theorem run_nil (isDigit : α → Bool) (width : Nat) : run isDigit width [] = [] := by simp [run]

theorem run_zero (isDigit : α → Bool) (text : List α) : run isDigit 0 text = [] := by simp [run]

theorem run_cons_digit {isDigit : α → Bool} {c : α} (h : isDigit c = true) (width : Nat) (text : List α) :
    run isDigit (width + 1) (c :: text) = c :: run isDigit width text := by
  simp [run, h]

theorem run_cons_other {isDigit : α → Bool} {c : α} (h : isDigit c = false) (width : Nat) (text : List α) :
    run isDigit width (c :: text) = [] := by
  cases width with
  | zero => simp [run]
  | succ width => simp [run, h]

theorem run_all (isDigit : α → Bool) (width : Nat) (text : List α) :
    ∀ c ∈ run isDigit width text, isDigit c = true := by
  intro c hc
  exact List.all_eq_true.mp (List.all_takeWhile (p := isDigit)) c hc

theorem run_length_le (isDigit : α → Bool) (width : Nat) (text : List α) :
    (run isDigit width text).length ≤ width := by
  have htake : (run isDigit width text).length ≤ (text.take width).length := (List.takeWhile_prefix _).length_le
  have hlen : (text.take width).length ≤ width := by simp
  exact htake.trans hlen

/-- **The longest run**: digits from the front of the text, not more than the width allows, and no longer ones
are there. -/
structure Longest (isDigit : α → Bool) (width : Nat) (text ds : List α) : Prop where
  front : ds <+: text
  digits : ∀ c ∈ ds, isDigit c = true
  length_le : ds.length ≤ width
  longest : ∀ ds', ds' <+: text → (∀ c ∈ ds', isDigit c = true) → ds'.length ≤ width → ds'.length ≤ ds.length

theorem longest_run (isDigit : α → Bool) (width : Nat) (text : List α) :
    Longest isDigit width text (run isDigit width text) := by
  refine ⟨(List.takeWhile_prefix _).trans (List.take_prefix _ _), run_all isDigit width text,
    run_length_le isDigit width text, ?_⟩
  rintro ds ⟨rest, rfl⟩ hall hlen
  have htake : (ds ++ rest).take width = ds ++ rest.take (width - ds.length) := by
    rw [List.take_append, List.take_of_length_le hlen]
  rw [run, htake, List.takeWhile_append_of_pos hall, List.length_append]
  exact Nat.le_add_right _ _

/-- A text is its run and the rest. -/
theorem run_append_drop (isDigit : α → Bool) (width : Nat) (text : List α) :
    run isDigit width text ++ text.drop (run isDigit width text).length = text := by
  have hprefix : run isDigit width text <+: text := (List.takeWhile_prefix _).trans (List.take_prefix _ _)
  exact List.prefix_iff_eq_append.mp hprefix

/-- The run of a numeral with something else behind it is the numeral. -/
theorem run_append {isDigit : α → Bool} {ds : List α} {width : Nat} (hall : ∀ c ∈ ds, isDigit c = true)
    (hlen : ds.length ≤ width) {c : α} (hc : isDigit c = false) (rest : List α) :
    run isDigit width (ds ++ c :: rest) = ds := by
  induction ds generalizing width with
  | nil => exact run_cons_other hc width rest
  | cons d ds ih =>
      obtain ⟨width, rfl⟩ : ∃ w, width = w + 1 := ⟨width - 1, by simp at hlen; omega⟩
      rw [List.cons_append, run_cons_digit (hall d List.mem_cons_self)]
      rw [ih (fun e he => hall e (List.mem_cons_of_mem d he)) (by simpa using hlen)]

/-- The run of a numeral at the end of the text. -/
theorem run_self {isDigit : α → Bool} {ds : List α} {width : Nat} (hall : ∀ c ∈ ds, isDigit c = true)
    (hlen : ds.length ≤ width) : run isDigit width ds = ds := by
  rw [run, List.take_of_length_le hlen]
  exact List.takeWhile_eq_self_iff.mpr hall

end SploneBox.Lib.Numerals
