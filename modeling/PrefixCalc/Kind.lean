import PrefixCalc.Text.Basic

/-!
# Kinds

The closed sets of kinds that the language distinguishes: kinds of values, kinds of
tokens, and the kinds of value that a parameter of a builtin accepts. Their names
appear in messages, so each kind has exactly one.
-/

namespace PrefixCalc

/-! ## §1 Values -/

/-- The kinds of value that a single literal denotes. -/
inductive ScalarKind where
  | int
  | float
  | string
  | boolean
  deriving DecidableEq, Repr

/-- The kinds of value. -/
inductive ValueKind where
  | scalar (kind : ScalarKind)
  | array
  deriving DecidableEq, Repr

/-- The name of a scalar kind. -/
def ScalarKind.name : ScalarKind → Text
  | int => "int"
  | float => "float"
  | string => "string"
  | boolean => "boolean"

/-- The name of a value kind. -/
def ValueKind.name : ValueKind → Text
  | scalar kind => kind.name
  | array => "array"

/-- The name of a value kind in the report of a misuse. -/
def ValueKind.typeName : ValueKind → Text
  | scalar .int => "int"
  | scalar .float => "float"
  | scalar .string => "str"
  | scalar .boolean => "bool"
  | array => "list"

/-- Whether arithmetic applies to values of this kind. -/
def ValueKind.isNumber : ValueKind → Bool
  | scalar .int | scalar .float => true
  | _ => false

/-! ## §2 Tokens -/

/-- The kinds of token; a literal carries the kind in which it is written. -/
inductive TokenKind where
  | literal (kind : ScalarKind)
  | whitespace
  | openParen
  | closeParen
  | openBracket
  | closeBracket
  | identifier
  deriving DecidableEq, Repr

namespace TokenKind

/-- The name of a token kind. -/
def name : TokenKind → Text
  | literal kind => kind.name
  | whitespace => "whitespace"
  | openParen => "open_paren"
  | closeParen => "close_paren"
  | openBracket => "open_bracket"
  | closeBracket => "close_bracket"
  | identifier => "identifier"

/-- All token kinds in order of precedence: of two readings that overlap, the kind that
stands earlier wins. -/
def precedence : List TokenKind :=
  [literal .string, whitespace, openParen, closeParen, openBracket, closeBracket,
   literal .float, literal .int, literal .boolean, identifier]

theorem mem_precedence (kind : TokenKind) : kind ∈ precedence := by
  cases kind with
  | literal k => cases k <;> decide
  | _ => decide

/-- The kind of a given name. -/
def ofName? (text : Text) : Option TokenKind := precedence.find? (·.name = text)

end TokenKind

/-! ## §3 Parameters -/

/-- What a parameter of a builtin accepts. -/
inductive ParameterKind where
  | number
  | string
  | boolean
  | anything
  deriving DecidableEq, Repr

namespace ParameterKind

/-- The name of a parameter kind. -/
def name : ParameterKind → Text
  | number => "number"
  | string => "string"
  | boolean => "boolean"
  | anything => "anything"

/-- The parameter kinds in the order in which they are listed. -/
def all : List ParameterKind := [number, string, boolean, anything]

/-- The kind of a given name. -/
def ofName? (text : Text) : Option ParameterKind := all.find? (·.name = text)

/-- Whether a value of the given kind may fill the parameter. -/
def accepts : ParameterKind → ValueKind → Bool
  | number, kind => kind.isNumber
  | string, kind => kind == .scalar .string
  | boolean, kind => kind == .scalar .boolean
  | anything, _ => true

end ParameterKind

end PrefixCalc
