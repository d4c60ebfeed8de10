import PrefixCalc.Binary64.Shortest

/-!
# Layout of decimals

How the shortest digits of a double are laid out: positionally while the exponent of
the leading digit is moderate, and otherwise as one digit, a fraction and an exponent.
-/

namespace PrefixCalc.Binary64

/-- The decisions of a decimal format. -/
structure Layout where
  /-- The least exponent of the leading digit that is written positionally. -/
  lowest : Int
  /-- The first exponent of the leading digit that is no longer written positionally. -/
  highest : Int
  /-- The least number of digits of a written exponent. -/
  exponentWidth : Nat
  deriving Repr

namespace Layout

/-- Digits around a decimal point, with at least one digit on either side of it. -/
def positional (digits : Text) (exponent : Int) : Text :=
  if exponent < 0 then
    "0." ++ Text.zeros ((-exponent).toNat - 1) ++ digits
  else
    let whole := exponent.toNat + 1
    if digits.length ≤ whole then
      digits ++ Text.zeros (whole - digits.length) ++ ".0"
    else
      digits.take whole ++ "." ++ digits.drop whole

/-- One digit, the rest as a fraction if there is any, and a signed exponent. -/
def scientific (layout : Layout) (digits : Text) (exponent : Int) : Text :=
  let point : Text := if digits.length ≤ 1 then [] else "."
  let mark : Text := if exponent < 0 then "e-" else "e+"
  let power := Text.ofNat exponent.natAbs
  digits.take 1 ++ point ++ digits.drop 1 ++ mark
    ++ Text.zeros (layout.exponentWidth - power.length) ++ power

/-- A magnitude laid out; zeros at the end of the digits carry no information. -/
def magnitude (layout : Layout) (d : Digits) : Text :=
  let written := Text.ofNat d.digits
  let exponent := d.exponent + written.length - 1
  let digits := (written.reverse.dropWhile (· = CodePoint.char '0')).reverse
  if d.digits = 0 then "0.0"
  else if layout.lowest ≤ exponent && exponent < layout.highest then
    positional digits exponent
  else layout.scientific digits exponent

/-- A double laid out in its shortest digits. -/
def write (layout : Layout) : Binary64 → Text
  | finite x =>
    let shown := layout.magnitude x.shortest
    if x.negative then "-" ++ shown else shown
  | infinite negative => if negative then "-inf" else "inf"
  | nan => "nan"

end Layout

end PrefixCalc.Binary64
