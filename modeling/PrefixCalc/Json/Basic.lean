import PrefixCalc.OrderedMap
import PrefixCalc.Value.Written

/-!
# JSON values

The data that a request can hold. The members of an object are kept in the order in
which their names first appeared.
-/

namespace PrefixCalc

/-- A JSON value. -/
inductive Json where
  | null
  | boolean (b : Bool)
  | number (n : Number)
  | string (text : Text)
  | array (elements : List Json)
  | object (members : List (Text × Json))

namespace Json

/-- The number as it is echoed. -/
def numberText : Number → Text
  | .int n => Text.ofInt n
  | .float x => Scalar.doubleLayout.write x

mutual

/-- A value as it is echoed inside another one. -/
def nested : Json → Text
  | null => "None"
  | boolean b => if b then "True" else "False"
  | number n => numberText n
  | string text => text.quoted
  | array elements => "[" ++ Text.join ", " (nestedAll elements) ++ "]"
  | object members => "\x7b" ++ Text.join ", " (nestedMembers members) ++ "\x7d"

/-- The elements of an array as they are echoed. -/
def nestedAll : List Json → List Text
  | [] => []
  | j :: rest => nested j :: nestedAll rest

/-- The members of an object as they are echoed. -/
def nestedMembers : List (Text × Json) → List Text
  | [] => []
  | (name, j) :: rest => (name.quoted ++ ": " ++ nested j) :: nestedMembers rest

end

/-- A value as it is echoed by itself: a string stands for itself. -/
def echo : Json → Text
  | string text => text
  | other => other.nested

/-- A member of an object by name; other values have no members. -/
def member? (j : Json) (name : Text) : Option Json :=
  match j with
  | object members => OrderedMap.get? ⟨members⟩ name
  | _ => none

end Json

end PrefixCalc
