/-
# SploneBox.Lib.Checked — arithmetic that says when a value leaves its type.

In C an overflow of a signed integer is undefined. A model over the integers computes on, and says nothing of
it; a model over machine words wraps around, and promises a result that the program need not have. Here is a
third way, which leaves the arithmetic exact and makes the overflow visible.

An integer type is the range of its values (`IntType`), and `IntType.fit` lets a value through that is in the
range and is `none` for any other. A computation writes its operations over the integers and puts each result
through `fit` before it goes on:

    (τ.fit (x + y)).bind fun s => τ.fit (s * z)

Such a computation has a result when no operation overflows. The result is then exact, and it is what the
machine has computed. A program that never overflows is one of which `some` is proved, and the bounds that the
proof needs are the ones that make it right.

`signed` and `unsigned` are the types of two's complement, with as many bits for the number as they are given;
`fit_of_mem`, `signed_fit` and `unsigned_fit` let a value through from its bounds.
-/
import Mathlib.Algebra.Ring.Int.Defs
import Mathlib.Tactic.Ring

namespace SploneBox.Lib.Checked

/-- A type of integers. -/
structure IntType where
  lo : Int
  hi : Int

/-- The signed type with so many bits, and one for the sign. -/
def IntType.signed (bits : ℕ) : IntType := ⟨-2 ^ bits, 2 ^ bits - 1⟩

/-- The unsigned type with so many bits. -/
def IntType.unsigned (bits : ℕ) : IntType := ⟨0, 2 ^ bits - 1⟩

/-- The value of an operation, `none` when it is not a value of the type. -/
def IntType.fit (τ : IntType) (x : Int) : Option Int := if τ.lo ≤ x ∧ x ≤ τ.hi then some x else none

theorem IntType.fit_of_mem {τ : IntType} {x : Int} (hlo : τ.lo ≤ x) (hhi : x ≤ τ.hi) : τ.fit x = some x :=
  if_pos ⟨hlo, hhi⟩

theorem IntType.signed_fit {bits : ℕ} {x : Int} (hlo : -2 ^ bits ≤ x) (hhi : x < 2 ^ bits) :
    (IntType.signed bits).fit x = some x :=
  fit_of_mem hlo (Int.le_sub_one_of_lt hhi)

theorem IntType.unsigned_fit {bits : ℕ} {x : Int} (hlo : 0 ≤ x) (hhi : x < 2 ^ bits) :
    (IntType.unsigned bits).fit x = some x :=
  fit_of_mem hlo (Int.le_sub_one_of_lt hhi)

end SploneBox.Lib.Checked
