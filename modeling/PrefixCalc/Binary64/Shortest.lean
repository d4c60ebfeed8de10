import PrefixCalc.Binary64.Rounding

/-!
# Shortest decimals

Of the decimals that round to a given double, those with the fewest digits are chosen,
and of these the nearest, an exact tie going to the even digit. Seventeen digits are
always enough. For each number of digits only the two neighbours of the value on that
decimal grid can qualify, so the search compares whole numbers and nothing else.
-/

namespace PrefixCalc.Binary64

/-- A magnitude `digits · 10 ^ exponent`. -/
structure Digits where
  digits : Nat
  exponent : Int
  deriving DecidableEq, Repr

/-- The exponent of the leading decimal digit of `num / den`, both positive. -/
def leadingExponent (num den : Nat) : Int :=
  if den ≤ num then (Text.ofNat (num / den)).length - 1
  else -(Text.ofNat ((den - 1) / num)).length

namespace Finite

/-- Four times the distance, in least units, from the value down to the point halfway to
its lower neighbour; below a power of two the neighbour is half as far. -/
def gapBelow (x : Finite) : Nat :=
  if x.significand = Nat.pow 2 52 ∧ 0 < x.scale then Nat.pow 2 x.scale
  else Nat.pow 2 (x.scale + 1)

/-- Four times the distance, in least units, up to the point halfway to the neighbour. -/
def gapAbove (x : Finite) : Nat := Nat.pow 2 (x.scale + 1)

/-- Whether `num / den` quarter units round to `x`; the two ends do so exactly if the
significand is even. -/
def roundsHere (x : Finite) (num den : Nat) : Bool :=
  let low := (4 * x.units - x.gapBelow) * den
  let high := (4 * x.units + x.gapAbove) * den
  if x.significand % 2 = 0 then low ≤ num && num ≤ high else low < num && num < high

/-- The neighbours of `x` among the multiples of `10 ^ exponent`: how many multiples lie
at or below it, whether the lower and the upper neighbour round to `x`, and whether the
lower one is at least as good, a tie going to the even multiple. -/
structure GridPoint where
  lower : Nat
  lowerRounds : Bool
  upperRounds : Bool
  preferLower : Bool

/-- The place of `x` on the grid of multiples of `10 ^ exponent`. -/
def onGrid (x : Finite) (exponent : Int) : GridPoint :=
  let point := 4 * unitsPerOne * Nat.pow 10 exponent.toNat
  let den := Nat.pow 10 (-exponent).toNat
  let value := 4 * x.units * den
  let lower := value / point
  let twice := 2 * (value % point)
  { lower
    lowerRounds := x.roundsHere (lower * point) den
    upperRounds := x.roundsHere ((lower + 1) * point) den
    preferLower := twice < point || (twice == point && lower % 2 == 0) }

/-- The better of the neighbours that round to the number, if one does. -/
def GridPoint.choice? (p : GridPoint) : Option Nat :=
  match p.lowerRounds, p.upperRounds with
  | false, false => none
  | true, false => some p.lower
  | false, true => some (p.lower + 1)
  | true, true => some (if p.preferLower then p.lower else p.lower + 1)

/-- The nearer neighbour, whether it rounds to the number or not. -/
def GridPoint.nearest (p : GridPoint) : Nat := if p.preferLower then p.lower else p.lower + 1

/-- The shortest decimal that rounds to the magnitude of `x`: the first grid, from one
digit up to sixteen, that has one, and else the nearest point of the grid of seventeen. -/
def shortest (x : Finite) : Digits :=
  let leading := leadingExponent x.units unitsPerOne
  let attempt (more : Nat) : Option Digits :=
    (x.onGrid (leading - more)).choice?.map fun digits => ⟨digits, leading - more⟩
  if x.significand = 0 then ⟨0, 0⟩
  else ((List.range 16).findSome? attempt).getD
    ⟨(x.onGrid (leading - 16)).nearest, leading - 16⟩

end Finite

end PrefixCalc.Binary64
