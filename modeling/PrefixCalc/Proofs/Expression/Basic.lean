import PrefixCalc.Machine

/-!
# Expressions

The machine never builds a tree. Here are the trees that it evaluates all the same: their
spelling as tokens, and their meaning as a recursion over them that knows no stack. The
offsets in a tree are those of its tokens; only the offsets of names show in an outcome,
since mistakes are blamed on names.
-/

namespace PrefixCalc

/-! ## §1 Trees -/

/-- A literal and where it stands. -/
structure Literal where
  kind : ScalarKind
  value : Scalar
  offset : Int

/-- An expression. -/
inductive Expression where
  /-- A literal by itself. -/
  | literal (l : Literal)
  /-- The name of a constant. -/
  | reference (name : Text) (offset : Int)
  /-- Literals between brackets. -/
  | array (opening : Int) (elements : List Literal) (closing : Int)
  /-- A definition; literals in front of its first word are dropped. -/
  | definition (opening : Int) (dropped : List Literal) (word : Int) (key : Text)
      (keyOffset : Int) (value : Literal) (closing : Int)
  /-- A call; literals in front of the name of its function are dropped. -/
  | call (opening : Int) (dropped : List Literal) (head : Head) (arguments : List Expression)
      (closing : Int)

/-- The token of a literal. -/
def Literal.token (l : Literal) : Token := ⟨.literal l.kind l.value, l.offset⟩

namespace Expression

mutual

/-- The tokens that spell an expression. -/
def tokens : Expression → List Token
  | literal l => [l.token]
  | reference name offset => [⟨.identifier name, offset⟩]
  | array opening elements closing =>
    ⟨.openBracket, opening⟩ :: (elements.map Literal.token ++ [⟨.closeBracket, closing⟩])
  | definition opening dropped word key keyOffset value closing =>
    ⟨.openParen, opening⟩ :: (dropped.map Literal.token ++
      [⟨.identifier definitionWord, word⟩, ⟨.identifier key, keyOffset⟩, value.token,
       ⟨.closeParen, closing⟩])
  | call opening dropped head arguments closing =>
    ⟨.openParen, opening⟩ :: (dropped.map Literal.token ++
      ⟨.identifier head.name, head.offset⟩ ::
        (tokensAll arguments ++ [⟨.closeParen, closing⟩]))

/-- The tokens that spell expressions, one after another. -/
def tokensAll : List Expression → List Token
  | [] => []
  | e :: rest => e.tokens ++ tokensAll rest

end

mutual

/-- Whether calls are well formed: no function is named like the word of a definition, and
a builtin has as many arguments as parameters. -/
def wellFormed (registry : Registry) : Expression → Bool
  | call _ _ head arguments _ =>
    head.name ≠ definitionWord &&
      (match registry.get? head.name with
        | some builtin => arguments.length = builtin.arity
        | none => true) &&
      wellFormedAll registry arguments
  | _ => true

/-- Whether all calls of the given expressions are well formed. -/
def wellFormedAll (registry : Registry) : List Expression → Bool
  | [] => true
  | e :: rest => wellFormed registry e && wellFormedAll registry rest

end

/-! ## §2 Meaning -/

/-- The last argument that its parameter does not accept, with its parameter and its index. -/
def misfit? (parameters : List ParameterKind) (arguments : List Value) :
    Option ((ParameterKind × Value) × Nat) :=
  (parameters.zip arguments).zipIdx.reverse.find? fun found => !found.1.1.accepts found.1.2.kind

/-- A call of the function named by `head`, once its arguments are evaluated. -/
def apply (registry : Registry) (head : Head) (arguments : List Value) : Except Failure Value :=
  match registry.get? head.name with
  | none => .error (.refused (.unknownFunction head.name) (some head.offset))
  | some builtin =>
    match misfit? builtin.parameters arguments with
    | some ((expected, found), index) =>
      .error (.refused (.wrongArgument head.name index expected found.kind) (some head.offset))
    | none => Machine.invoke builtin head arguments

/-- Evaluation with constants: a failure leaves those that were bound before it. -/
abbrev Evaluation := EStateM Failure Environment

mutual

/-- The value of an expression. -/
def meaning (registry : Registry) : Expression → Evaluation Value
  | literal l => return .scalar l.value
  | reference name offset => do ofExcept ((← get).lookup name (some offset))
  | array _ elements _ => return .array (elements.map fun l => .scalar l.value)
  | definition _ _ _ key _ value _ => do
    modify fun env => env.define key (.scalar value.value)
    return .scalar value.value
  | call _ _ head arguments _ => do
    let values ← meanings registry arguments
    ofExcept (apply registry head values)

/-- The values of expressions, from first to last. -/
def meanings (registry : Registry) : List Expression → Evaluation (List Value)
  | [] => return []
  | e :: rest => do
    let value ← meaning registry e
    let values ← meanings registry rest
    return value :: values

end

variable {registry : Registry} {env : Environment}

theorem meaning_reference (name : Text) (offset : Int) :
    meaning registry (reference name offset) env =
      match env.lookup name (some offset) with
      | .ok value => .ok value env
      | .error failure => .error failure env := by
  show (ofExcept (env.lookup name (some offset)) : Evaluation Value) env = _
  cases env.lookup name (some offset) with
  | error failure => rfl
  | ok value => rfl

theorem meaning_call (opening : Int) (dropped : List Literal) (head : Head)
    (arguments : List Expression) (closing : Int) :
    meaning registry (call opening dropped head arguments closing) env =
      match meanings registry arguments env with
      | .error failure env' => .error failure env'
      | .ok values env' =>
        match apply registry head values with
        | .ok value => .ok value env'
        | .error failure => .error failure env' := by
  simp only [meaning, bind, EStateM.bind]
  cases meanings registry arguments env with
  | error failure env' => rfl
  | ok values env' =>
    simp only
    cases apply registry head values <;> rfl

theorem meanings_cons (e : Expression) (rest : List Expression) :
    meanings registry (e :: rest) env =
      match meaning registry e env with
      | .error failure env' => .error failure env'
      | .ok value env' =>
        match meanings registry rest env' with
        | .ok values env'' => .ok (value :: values) env''
        | .error failure env'' => .error failure env'' := by
  simp only [meanings, bind, EStateM.bind]
  cases meaning registry e env with
  | error failure env' => rfl
  | ok value env' =>
    simp only
    cases meanings registry rest env' <;> rfl

theorem length_of_meanings {env' : Environment} {es : List Expression} {values : List Value}
    (h : meanings registry es env = .ok values env') : values.length = es.length := by
  induction es generalizing env values with
  | nil =>
    cases h
    rfl
  | cons e es ih =>
    rw [meanings_cons] at h
    split at h
    · cases h
    · split at h
      · rename_i later
        cases h
        rw [List.length_cons, List.length_cons, ih later]
      · cases h

/-- The value of a program: its expressions are evaluated from first to last, and the value of
the last one counts. -/
def program (registry : Registry) (es : List Expression) : Evaluation Value := do
  let values ← meanings registry es
  match values.getLast? with
  | some value => return value
  | none => throw (.refused .nothing none)

theorem program_eq (es : List Expression) :
    program registry es env =
      match meanings registry es env with
      | .error failure env' => .error failure env'
      | .ok values env' =>
        match values.getLast? with
        | some value => .ok value env'
        | none => .error (.refused .nothing none) env' := by
  simp only [program, bind, EStateM.bind]
  cases meanings registry es env with
  | error failure env' => rfl
  | ok values env' =>
    simp only
    cases values.getLast? with
    | none => rfl
    | some value => rfl

end Expression

end PrefixCalc
