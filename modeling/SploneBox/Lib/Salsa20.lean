/-
# SploneBox.Lib.Salsa20 — the Salsa20 rounds.

The state is a square of words. A quarter round mixes four words; a column round does it to the columns, each
from its word on the diagonal on, and a row round does the same to the rows. A double round is a column round
and a row round. Salsa20 adds the state to what ten double rounds make of it; HSalsa20 takes the words of the
diagonal and of the input, and adds nothing.
-/
import Mathlib.Data.Fin.VecNotation
import Mathlib.LinearAlgebra.Matrix.Defs

namespace SploneBox.Lib.Salsa20

/-- Four rows of four words. -/
abbrev Square := Matrix (Fin 4) (Fin 4) (BitVec 32)

/-- The quarter round. -/
def quarterround (y : Fin 4 → BitVec 32) : Fin 4 → BitVec 32 :=
  let z₁ := y 1 ^^^ (y 0 + y 3).rotateLeft 7
  let z₂ := y 2 ^^^ (z₁ + y 0).rotateLeft 9
  let z₃ := y 3 ^^^ (z₂ + z₁).rotateLeft 13
  let z₀ := y 0 ^^^ (z₃ + z₂).rotateLeft 18
  ![z₀, z₁, z₂, z₃]

/-- The row round: row `i` from its word `i` on. -/
def rowround (x : Square) : Square := fun i j => quarterround (fun m => x i (i + m)) (j - i)

/-- The column round: column `j` from its word `j` on. -/
def columnround (x : Square) : Square := (rowround x.transpose).transpose

def doubleround (x : Square) : Square := rowround (columnround x)

/-- The words of a square, row after row. -/
def Square.words (x : Square) : List (BitVec 32) :=
  (List.finRange 4).flatMap fun i => (List.finRange 4).map fun j => x i j

/-- What Salsa20 makes of a state. -/
def hash (x : Square) : List (BitVec 32) := (x + doubleround^[10] x).words

/-- What HSalsa20 makes of a state. -/
def hhash (x : Square) : List (BitVec 32) :=
  let z := doubleround^[10] x
  [z 0 0, z 1 1, z 2 2, z 3 3, z 1 2, z 1 3, z 2 0, z 2 1]

/-- **Rows only.** Row rounds with the square turned over in front of each are double rounds, two by two. -/
theorem iterate_doubleround (n : ℕ) (x : Square) :
    (fun x => rowround x.transpose)^[2 * n] x = doubleround^[n] x := by
  induction n generalizing x with
  | zero => rfl
  | succ n ih =>
      show (fun x => rowround x.transpose)^[2 * n + 2] x = doubleround^[n + 1] x
      rw [Function.iterate_add_apply, ih, Function.iterate_succ_apply]
      rfl

end SploneBox.Lib.Salsa20
