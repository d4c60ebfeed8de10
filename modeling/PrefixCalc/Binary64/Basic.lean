/-!
# Double-precision numbers

A finite double is a signed whole number of least units, one unit being `2 ^ -1074`:
its significand shifted left by its scale. Reading, adding and comparing doubles is
therefore exact arithmetic on whole numbers followed by one rounding.
-/

namespace PrefixCalc

-- Powers in definitions are written `Nat.pow`: `^` is another operation once monoids are known.

/-- A finite double `± significand · 2 ^ (scale - 1074)`, in its one canonical form:
the significand has its leading bit unless the scale is already the least. -/
structure Binary64.Finite where
  negative : Bool
  significand : Nat
  scale : Nat
  significand_lt : significand < Nat.pow 2 53
  normal : scale = 0 ∨ Nat.pow 2 52 ≤ significand
  scale_le : scale ≤ 2045
  deriving DecidableEq

/-- A double: finite, infinite, or not a number. -/
inductive Binary64 where
  | finite (x : Binary64.Finite)
  | infinite (negative : Bool)
  | nan
  deriving DecidableEq

namespace Binary64

/-- The least units that make up the number one. -/
def unitsPerOne : Nat := Nat.pow 2 1074

namespace Finite

/-- The magnitude in least units. -/
def units (x : Finite) : Nat := x.significand * Nat.pow 2 x.scale

/-- The value in least units. -/
def signedUnits (x : Finite) : Int := if x.negative then -(x.units : Int) else x.units

/-- The zero of the given sign. -/
def zero (negative : Bool) : Finite :=
  ⟨negative, 0, 0, by decide, Or.inl rfl, by decide⟩

/-- The double of opposite sign. -/
def neg (x : Finite) : Finite := { x with negative := !x.negative }

theorem signedUnits_zero (negative : Bool) : (zero negative).signedUnits = 0 := by
  cases negative <;> simp [zero, signedUnits, units]

theorem natAbs_signedUnits (x : Finite) : x.signedUnits.natAbs = x.units := by
  unfold signedUnits
  split <;> simp

end Finite

/-- The double of opposite sign. -/
def neg : Binary64 → Binary64
  | finite x => finite x.neg
  | infinite negative => infinite (!negative)
  | nan => nan

end Binary64

end PrefixCalc
