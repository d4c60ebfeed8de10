import PrefixCalc.Text.Basic

/-!
# Limits

Whole numbers are unbounded in arithmetic, but two conversions are not: a number meets
the range of a double when it is mixed with one, and a number of more than 4300 digits
is neither written nor read in decimal. Data that a client sends nests to a bounded
depth. Going over a limit is no mistake in the expression, so it is kept apart from the
errors of the language.
-/

namespace PrefixCalc

/-- What can hold further data in what a client sends. -/
inductive Container where
  | array
  | object
  deriving DecidableEq, Repr

/-- The name of a container. -/
def Container.name : Container → Text
  | array => "array"
  | object => "object"

/-- A limit that a conversion went over. -/
inductive Limit where
  /-- A whole number lies outside the range of a double. -/
  | doubleRange
  /-- A whole number has too many digits to be written. -/
  | writtenDigits
  /-- A numeral of `count` digits is too long to be read as a whole number. -/
  | readDigits (count : Nat)
  /-- A container lies inside too many others. -/
  | nesting (innermost : Container)
  deriving DecidableEq, Repr

namespace Limit

/-- The longest numeral that is written or read as a whole number. -/
def maxDigits : Nat := 4300

/-- How many containers may lie inside each other. This is a number of the runtime, not of the
language: it allows a thousand calls inside each other unless it is set otherwise, each container
takes one, and the calls around the reader of a request line take the rest. A server that is run
from further inside has that much less room. -/
def maxNesting : Nat := 990

/-- The words that report a limit. -/
def message : Limit → Text
  | doubleRange => "int too large to convert to float"
  | writtenDigits =>
    "Exceeds the limit (4300 digits) for integer string conversion; "
      ++ "use sys.set_int_max_str_digits() to increase the limit"
  | readDigits count =>
    "Exceeds the limit (4300 digits) for integer string conversion: value has "
      ++ Text.ofNat count
      ++ " digits; use sys.set_int_max_str_digits() to increase the limit"
  | nesting innermost =>
    "maximum recursion depth exceeded while decoding a JSON " ++ innermost.name
      ++ " from a unicode string"

end Limit

/-- A whole number in decimal, provided it has at most 4300 digits. -/
def Text.decimal (n : Int) : Except Limit Text :=
  if n.natAbs < Nat.pow 10 Limit.maxDigits then .ok (Text.ofInt n) else .error .writtenDigits

end PrefixCalc
