import Mathlib.Data.Nat.Log
import Mathlib.Algebra.Group.Nat.Defs
import Mathlib.Algebra.Order.Group.Int

/-!
# Integer columns

What the two databases do with `column + ?` on a 64-bit integer column. Postgres
refuses a sum that does not fit. SQLite goes on in floating point, and the column's
integer affinity turns the result back into an integer when it is one again. All
operands here are integers, so a floating-point cell is an integer too, rounded to
the 53 bits of a double.
-/

namespace Sql

/-- In the range of an `i64`. -/
def InI64 (z : Int) : Prop := -(2 ^ 63) ≤ z ∧ z < 2 ^ 63

instance (z : Int) : Decidable (InI64 z) := inferInstanceAs (Decidable (_ ∧ _))

/-- The double nearest to an integer, ties to even. -/
def roundF64 (z : Int) : Int :=
  let n := z.natAbs
  if n < 2 ^ 53 then z
  else
    let shift := Nat.log2 n - 52
    let q := n / 2 ^ shift
    let r := n % 2 ^ shift
    let up := 2 ^ shift < 2 * r ∨ (2 ^ shift = 2 * r ∧ q % 2 = 1)
    z.sign * ((if up then q + 1 else q) * 2 ^ shift : Nat)

/-- A value stored in an `INTEGER` column. -/
inductive Cell where
  | int : Int → Cell
  | real : Int → Cell
  deriving DecidableEq

namespace Cell

/-- Storing a double in a column of integer affinity. -/
def ofReal (z : Int) : Cell := if -(2 ^ 63) < z ∧ z < 2 ^ 63 - 1 then int z else real z

/-- `column + ?`, for a parameter that is an `i64`. -/
def add : Cell → Int → Cell
  | int a, b => if InI64 (a + b) then int (a + b) else ofReal (roundF64 (roundF64 a + roundF64 b))
  | real a, b => ofReal (roundF64 (a + roundF64 b))

/-- Reading the column as a `u64`: a negative number is out of range, a
floating-point value has the wrong type. -/
def toU64 : Cell → Option Nat
  | int z => if 0 ≤ z then some z.toNat else none
  | real _ => none

/-- A sum that fits stays an integer. -/
theorem add_int {a b : Int} (h : InI64 (a + b)) : (int a).add b = int (a + b) := if_pos h

theorem toU64_int {z : Int} (h : 0 ≤ z) : (int z).toU64 = some z.toNat := if_pos h

end Cell

end Sql
