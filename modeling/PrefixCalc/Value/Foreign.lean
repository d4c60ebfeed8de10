import PrefixCalc.Environment

/-!
# Foreign data

What a host may hand over for writing: values, but also names, alone or inside an
array. A name is no value, so writing anything that holds one fails; the first scalar
that cannot be written decides how.
-/

namespace PrefixCalc

/-- Data from a host. -/
inductive Foreign where
  | scalar (s : Scalar)
  | name (name : Text)
  | array (elements : List Foreign)

namespace Foreign

/-- Why foreign data cannot be written. -/
inductive Refusal where
  /-- A whole number has too many digits. -/
  | limit (limit : Limit)
  /-- A name stands where a value is wanted. -/
  | noValue (name : Text)
  deriving DecidableEq, Repr

/-- The words used when data is written as text or displayed. -/
def Refusal.message : Refusal → Text
  | limit l => l.message
  | noValue word => Environment.symbolText word ++ " is not a pexpr value"

/-- The words used when data is written in canonical form. -/
def Refusal.canonicalMessage : Refusal → Text
  | limit l => l.message
  | noValue _ => "Object of type Symbol is not JSON serializable"

mutual

/-- The value that the data is, if it holds no name. -/
def toValue? : Foreign → Option Value
  | scalar s => some (.scalar s)
  | name _ => none
  | array elements => (toValues? elements).map .array

/-- The values that the elements of an array are, if none holds a name. -/
def toValues? : List Foreign → Option (List Value)
  | [] => some []
  | d :: rest => do return (← toValue? d) :: (← toValues? rest)

end

mutual

/-- The leftmost reason why the data cannot be written. -/
def refusal? : Foreign → Option Refusal
  | scalar s =>
    match s.text with
    | .ok _ => none
    | .error limit => some (.limit limit)
  | name word => some (.noValue word)
  | array elements => refusals? elements

/-- The leftmost reason why the elements of an array cannot be written. -/
def refusals? : List Foreign → Option Refusal
  | [] => none
  | d :: rest => (refusal? d).or (refusals? rest)

end

end Foreign

end PrefixCalc
