/-!
# Bands of code points

A property of characters is stored as the ascending list of the code points at which
it changes, starting from "does not hold". Membership is then the parity of the
change points at or below a code point.
-/

namespace PrefixCalc.Text

/-- Whether `point` lies inside a band, given the ascending list of change points. -/
def inBands : List Nat → Nat → Bool
  | [], _ => false
  | change :: changes, point => if point < change then false else !inBands changes point

/-- Below the first change point the property does not hold. -/
theorem inBands_of_lt {change point : Nat} {changes : List Nat} (h : point < change) :
    inBands (change :: changes) point = false := by
  simp [inBands, h]

/-- From a change point on, the later change points decide with the opposite sense. -/
theorem inBands_of_le {change point : Nat} {changes : List Nat} (h : change ≤ point) :
    inBands (change :: changes) point = !inBands changes point := by
  simp [inBands, Nat.not_lt.mpr h]

end PrefixCalc.Text
