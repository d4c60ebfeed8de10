import PrefixCalc.Machine
import PrefixCalc.Position
import PrefixCalc.Token.Reading

/-!
# The index of a document

What an editor can say about a text without evaluating it: which constants it defines,
which names look wrong, and whether its brackets and quotes are balanced. One loop over
the tokens suffices; at an open paren it looks ahead for the name of a function, over
literals, as evaluation does, and goes on behind what it has taken.
-/

namespace PrefixCalc

/-! ## §1 Findings -/

/-- What can be wrong at one place of a document. -/
inductive Finding where
  | ignoredValue
  | unknownFunction (name : Text)
  | undefinedConstant (name : Text)
  | brokenDefinition
  | tooManyClosed
  | arrayInArray
  | noArrayToClose
  deriving DecidableEq, Repr

namespace Finding

/-- The words that report a finding. -/
def message : Finding → Text
  | ignoredValue => "Value in function position is ignored"
  | unknownFunction name => "Unknown function '" ++ name ++ "'"
  | undefinedConstant name => "Undefined constant '" ++ name ++ "'"
  | brokenDefinition => "def expects (def <identifier> <literal>)"
  | tooManyClosed => "Too many close parenthesis"
  | arrayInArray => "Arrays cannot be nested"
  | noArrayToClose => "Closing an array that was never opened"

/-- How many characters a finding is about. -/
def length : Finding → Nat
  | unknownFunction name | undefinedConstant name => name.length
  | brokenDefinition => definitionWord.length
  | ignoredValue | tooManyClosed | arrayInArray | noArrayToClose => 1

end Finding

/-- A finding and where it starts. -/
structure Problem where
  finding : Finding
  place : Position
  deriving DecidableEq, Repr

/-- A constant of a document: the kind of its literal and where its name stands. -/
structure Constant where
  kind : ScalarKind
  place : Position
  deriving DecidableEq, Repr

/-- What is known of a document. -/
structure Index where
  constants : OrderedMap Text Constant := {}
  unknownFunctions : List Problem := []
  undefinedConstants : List Problem := []
  structural : List Problem := []
  ignoredValues : List Problem := []
  parenBalance : Int := 0
  bracketBalance : Int := 0
  unmatchedQuote : Bool := false
  deriving DecidableEq, Repr

namespace Index

/-! ## §2 Notes -/

/-- Notes a problem of the form of the text. -/
def noteStructural (index : Index) (finding : Finding) (place : Position) : Index :=
  { index with structural := index.structural ++ [⟨finding, place⟩] }

/-- Notes a literal where the name of a function is expected. -/
def noteIgnored (index : Index) (place : Position) : Index :=
  { index with ignoredValues := index.ignoredValues ++ [⟨.ignoredValue, place⟩] }

/-- Notes a name that is called and is not that of a function. -/
def noteUnknown (index : Index) (name : Text) (place : Position) : Index :=
  { index with
    unknownFunctions := index.unknownFunctions ++ [⟨.unknownFunction name, place⟩] }

/-- Notes a name that stands for a value and is not bound in front of it. -/
def noteUndefined (index : Index) (name : Text) (place : Position) : Index :=
  { index with
    undefinedConstants := index.undefinedConstants ++ [⟨.undefinedConstant name, place⟩] }

/-- What a token changes by itself; a name stands for a constant. -/
def takeToken (index : Index) (token : Token) (place : Position) : Index :=
  match token.lexeme with
  | .openParen => { index with parenBalance := index.parenBalance + 1 }
  | .closeParen =>
    if index.parenBalance - 1 < 0 then
      { index with parenBalance := 0 }.noteStructural .tooManyClosed place
    else { index with parenBalance := index.parenBalance - 1 }
  | .openBracket =>
    let next := { index with bracketBalance := index.bracketBalance + 1 }
    if 1 < next.bracketBalance then next.noteStructural .arrayInArray place else next
  | .closeBracket =>
    if index.bracketBalance - 1 < 0 then
      { index with bracketBalance := 0 }.noteStructural .noArrayToClose place
    else { index with bracketBalance := index.bracketBalance - 1 }
  | .identifier name =>
    if index.constants.contains name then index else index.noteUndefined name place
  | .literal .. | .whitespace _ => index

/-! ## §3 Heads of calls -/

/-- The name, its place in the text and its kind, if the tokens behind a `def` make up a
definition. -/
def definition? : List Token → Option (Text × Int × ScalarKind)
  | ⟨.identifier name, offset⟩ :: ⟨.literal kind _, _⟩ :: ⟨.closeParen, _⟩ :: _ =>
    some (name, offset, kind)
  | _ => none

/-- The word of a definition, which stands at `offset`, with the tokens behind it. Says also how
many of these belong to the definition; its close paren balances the open paren of the call. -/
def takeDefinition (place : Int → Position) (index : Index) (offset : Int)
    (ahead : List Token) : Index × Nat :=
  match definition? ahead with
  | some (key, keyOffset, kind) =>
    ({ index with
        constants := index.constants.insert key ⟨kind, place keyOffset⟩
        parenBalance := index.parenBalance - 1 }, 3)
  | none => (index.noteStructural .brokenDefinition (place offset), 0)

/-- A name where a function is expected, with the tokens behind it. Says also how many of these
it takes with it. -/
def takeHead (place : Int → Position) (index : Index) (name : Text) (offset : Int)
    (ahead : List Token) : Index × Nat :=
  if name = definitionWord then index.takeDefinition place offset ahead
  else if Registry.standard.contains name then (index, 0)
  else (index.noteUnknown name (place offset), 0)

/-- Looks ahead, where a function is expected, over the literals, which evaluation drops there.
Returns the tokens from the first one on that is none. -/
def skipLiterals (place : Int → Position) (index : Index) : List Token → Index × List Token
  | [] => (index, [])
  | token :: ahead =>
    if token.lexeme.isLiteral then
      skipLiterals place (index.noteIgnored (place token.offset)) ahead
    else (index, token :: ahead)

/-- What follows an open paren: literals, and the name of a function if one stands behind them.
Returns the tokens to go on with. -/
def takeCall (place : Int → Position) (index : Index) (tokens : List Token) :
    Index × List Token :=
  let (index, rest) := skipLiterals place index tokens
  match rest with
  | ⟨.identifier name, offset⟩ :: behind =>
    let (next, taken) := index.takeHead place name offset behind
    (next, behind.drop taken)
  | _ => (index, rest)

/-! ## §4 All tokens -/

/-- One turn of the loop: a token, and if it is an open paren, what follows it. Returns the tokens
to go on with. -/
def turn (place : Int → Position) (index : Index) (token : Token) (ahead : List Token) :
    Index × List Token :=
  let next := index.takeToken token (place token.offset)
  match token.lexeme with
  | .openParen => next.takeCall place ahead
  | _ => (next, ahead)

theorem length_skipLiterals_le (place : Int → Position) (index : Index) (tokens : List Token) :
    (index.skipLiterals place tokens).2.length ≤ tokens.length := by
  induction tokens generalizing index with
  | nil => exact Nat.le_refl _
  | cons token ahead ih =>
    rw [skipLiterals]
    split
    · exact Nat.le_succ_of_le (ih _)
    · exact Nat.le_refl _

theorem length_takeCall_le (place : Int → Position) (index : Index) (tokens : List Token) :
    (index.takeCall place tokens).2.length ≤ tokens.length := by
  have skipped := length_skipLiterals_le place index tokens
  unfold takeCall
  dsimp only
  split
  · rename_i name offset behind rest
    rw [rest, List.length_cons] at skipped
    exact Nat.le_trans (List.drop_sublist _ behind).length_le (Nat.le_of_succ_le skipped)
  · exact skipped

/-- A turn leaves no more tokens than stand behind its own, so the loop ends. -/
theorem length_turn_le (place : Int → Position) (index : Index) (token : Token)
    (ahead : List Token) : (index.turn place token ahead).2.length ≤ ahead.length := by
  unfold turn
  dsimp only
  split
  · exact length_takeCall_le place _ ahead
  · exact Nat.le_refl _

/-- What all tokens change, turn by turn. -/
def collect (place : Int → Position) (index : Index) : List Token → Index
  | [] => index
  | token :: ahead =>
    collect place (index.turn place token ahead).1 (index.turn place token ahead).2
termination_by tokens => tokens.length
decreasing_by exact Nat.lt_succ_of_le (length_turn_le place index token ahead)

/-- The index of a text. A string ends at the next quote, so a quote is unmatched exactly
if their number is odd. -/
def ofText (text : Text) : Index :=
  let place (offset : Int) : Position := Position.ofOffset text offset.toNat
  let index := collect place {} (Token.significant (Token.read text))
  { index with unmatchedQuote := text.count (.char '"') % 2 == 1 }

end Index

end PrefixCalc
