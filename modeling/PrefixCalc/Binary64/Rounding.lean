import PrefixCalc.Binary64.Basic
import PrefixCalc.Text.Basic

/-!
# Rounding to a double

Every number that becomes a double goes through one function: a quotient of whole
numbers, counted in least units, is rounded to the nearest double, a tie going to the
even significand and a magnitude past the largest double to infinity.
-/

namespace PrefixCalc.Binary64

/-! ## §1 Quotients -/

/-- The quotient rounded to the nearest whole number, a half to the even neighbour. -/
def roundHalfEven (num den : Nat) : Nat :=
  let quotient := num / den
  let twice := 2 * (num % den)
  if twice < den || (twice == den && quotient % 2 == 0) then quotient else quotient + 1

theorem div_le_roundHalfEven (num den : Nat) : num / den ≤ roundHalfEven num den := by
  unfold roundHalfEven
  dsimp only
  split <;> omega

theorem roundHalfEven_le_div_add_one (num den : Nat) :
    roundHalfEven num den ≤ num / den + 1 := by
  unfold roundHalfEven
  dsimp only
  split <;> omega

/-- The double with this significand and scale; past the largest scale it is infinite. -/
def ofParts (negative : Bool) (significand scale : Nat) : Binary64 :=
  if h : significand < Nat.pow 2 53 ∧ (scale = 0 ∨ Nat.pow 2 52 ≤ significand) ∧ scale ≤ 2045 then
    finite ⟨negative, significand, scale, h.1, h.2.1, h.2.2⟩
  else
    infinite negative

/-- The double nearest to `num / den` least units. -/
def round (negative : Bool) (num den : Nat) : Binary64 :=
  let scale := (num / den).log2 - 52
  let significand := roundHalfEven num (den * Nat.pow 2 scale)
  if significand = Nat.pow 2 53 then ofParts negative (Nat.pow 2 52) (scale + 1)
  else ofParts negative significand scale

/-! ## §2 Whole numbers and decimals -/

/-- The double nearest to a whole number. -/
def ofInt (n : Int) : Binary64 := round (n < 0) (n.natAbs * unitsPerOne) 1

/-- The double nearest to `± significand · 10 ^ exponent`. Far outside the range the
answer is settled by the position of the leading digit alone. -/
def ofDecimal (negative : Bool) (significand : Nat) (exponent : Int) : Binary64 :=
  let leading := exponent + (Text.ofNat significand).length
  if significand = 0 then finite (.zero negative)
  else if 310 < leading then infinite negative
  else if leading < -330 then finite (.zero negative)
  else if 0 ≤ exponent then
    round negative (significand * Nat.pow 10 exponent.toNat * unitsPerOne) 1
  else
    round negative (significand * unitsPerOne) (Nat.pow 10 (-exponent).toNat)

end PrefixCalc.Binary64
