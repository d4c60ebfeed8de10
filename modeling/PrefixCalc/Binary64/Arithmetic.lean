import PrefixCalc.Binary64.Rounding

/-!
# Arithmetic and comparison of doubles

The exact sum of two finite doubles is a whole number of least units, so a sum is
rounded once. Comparison is exact, also between a double and a whole number.
-/

namespace PrefixCalc.Binary64

/-! ## §1 Sum and difference -/

/-- The rounded sum. Opposite infinities have none; a sum of exactly zero is negative
only if both operands are. -/
def add : Binary64 → Binary64 → Binary64
  | finite x, finite y =>
    let total := x.signedUnits + y.signedUnits
    if total = 0 then finite (.zero (x.negative && y.negative))
    else round (total < 0) total.natAbs 1
  | infinite a, infinite b => if a = b then infinite a else nan
  | infinite a, finite _ => infinite a
  | finite _, infinite b => infinite b
  | nan, _ => nan
  | _, nan => nan

/-- The rounded difference. -/
def sub (x y : Binary64) : Binary64 := x.add y.neg

/-! ## §2 Comparison -/

/-- Numeric equality: the two zeros are equal and nothing equals a nan. -/
def sameNumber : Binary64 → Binary64 → Bool
  | finite x, finite y => x.signedUnits == y.signedUnits
  | infinite a, infinite b => a == b
  | _, _ => false

/-- Whether a double is exactly the whole number `n`. -/
def isInt (x : Binary64) (n : Int) : Bool :=
  match x with
  | finite x => x.signedUnits == n * unitsPerOne
  | _ => false

/-- The whole number that a double is, if it is one. -/
def toInt? : Binary64 → Option Int
  | finite x =>
    if x.units % unitsPerOne = 0 then
      some (if x.negative then -((x.units / unitsPerOne : Nat) : Int)
        else (x.units / unitsPerOne : Nat))
    else none
  | _ => none

theorem sameNumber_comm (x y : Binary64) : x.sameNumber y = y.sameNumber x := by
  cases x <;> cases y <;> simp only [sameNumber] <;> exact Bool.beq_comm ..

end PrefixCalc.Binary64
