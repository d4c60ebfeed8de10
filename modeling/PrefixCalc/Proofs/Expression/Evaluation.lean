import Mathlib.Data.List.Induction
import PrefixCalc.Proofs.Expression.Basic
import PrefixCalc.Proofs.Machine.Transition

/-!
# Evaluation of expressions

The machine computes the meaning of the expressions that its tokens spell. The statement
that goes through by recursion over the trees is about one expression in the middle of a
run: whatever lies on the stacks below and whatever tokens come behind, the machine ends
in the failure of the expression, or goes on with its value pushed.
-/

namespace PrefixCalc.Expression

open Machine

variable {registry : Registry} {m : Machine}

/-! ## §1 Arguments -/

/-- The arguments of a call are exactly what it takes, unless one of them does not fit. -/
theorem takeArguments_eq (head : Head) (arity : Nat) (parameters : List ParameterKind)
    (arguments taken below : List Value) (fit : arguments.length = parameters.length) :
    takeArguments head arity parameters.reverse taken (arguments.reverse ++ below) =
      match misfit? parameters arguments with
      | some ((expected, found), index) =>
        .error (.refused (.wrongArgument head.name index expected found.kind) (some head.offset))
      | none => .ok (arguments ++ taken, below) := by
  -- from the back, since that is where the machine starts
  induction parameters using List.reverseRecOn generalizing arguments taken with
  | nil =>
    cases List.length_eq_zero_iff.mp fit
    rfl
  | append_singleton parameters expected ih =>
    rcases List.eq_nil_or_concat arguments with rfl | ⟨arguments, found, rfl⟩
    · simp at fit
    rw [List.concat_eq_append] at fit ⊢
    have fit' : arguments.length = parameters.length := by simpa using fit
    have last : misfit? (parameters ++ [expected]) (arguments ++ [found])
        = if expected.accepts found.kind then misfit? parameters arguments
          else some ((expected, found), parameters.length) := by
      simp only [misfit?, List.zip_append fit'.symm, List.zip_cons_cons, List.zip_nil_right,
        List.zipIdx_append, List.zipIdx_singleton, List.reverse_append, List.reverse_singleton,
        List.singleton_append, List.find?_cons]
      cases expected.accepts found.kind <;> simp [fit']
    rw [last]
    simp only [List.reverse_append, List.reverse_singleton, List.cons_append, List.nil_append,
      takeArguments]
    -- the last argument is tried first, and the others only if it fits
    by_cases accepted : expected.accepts found.kind = true
    · rw [if_pos accepted, if_pos accepted, ih _ _ fit']
      simp
    · rw [if_neg accepted, if_neg accepted]
      simp

/-! ## §2 Pieces of an expression -/

/-- A machine in front of an expression. -/
structure Ready (m : Machine) : Prop where
  passing : m.passing = 0
  expecting : m.expecting = false
  building : m.building = false
  buffer : m.buffer = []
  depth : 0 ≤ m.depth

/-- The machine behind the open paren of a call and the name of its function. -/
def called (m : Machine) (head : Head) : Machine :=
  { m with depth := m.depth + 1, functions := head :: m.functions }

theorem Ready.called (ready : Ready m) (head : Head) : Ready (called m head) :=
  ⟨ready.passing, ready.expecting, ready.building, ready.buffer, Int.le_add_one ready.depth⟩

private theorem run_dropped (m : Machine) (passing : m.passing = 0) (expecting : m.expecting = true)
    (dropped : List Literal) (rest : List Token) :
    run registry m (dropped.map Literal.token ++ rest) = run registry m rest := by
  induction dropped with
  | nil => rfl
  | cons l dropped ih =>
    have accepted : m.step registry l.token (dropped.map Literal.token ++ rest)
        = .ok (m, none) := by
      simp [step, passing, Literal.token, takeLiteral, expecting]
    rw [List.map_cons, List.cons_append, run_cons_of_step accepted, ih]

private theorem run_elements (m : Machine) (passing : m.passing = 0)
    (expecting : m.expecting = false)
    (building : m.building = true) {collected : List Scalar} (buffer : m.buffer = collected)
    (elements : List Literal) (rest : List Token) :
    run registry m (elements.map Literal.token ++ rest)
      = run registry
          { m with buffer := (elements.map Literal.value).reverse ++ collected } rest := by
  induction elements generalizing m collected with
  | nil => simp only [List.map_nil, List.nil_append, List.reverse_nil, ← buffer]
  | cons l elements ih =>
    have accepted : m.step registry l.token (elements.map Literal.token ++ rest)
        = .ok ({ m with buffer := l.value :: collected }, none) := by
      simp [step, passing, Literal.token, takeLiteral, expecting, building, buffer]
    rw [List.map_cons, List.cons_append, run_cons_of_step accepted,
      ih { m with buffer := l.value :: collected } passing expecting building rfl]
    simp

theorem run_array (ready : Ready m) (opening closing : Int) (elements : List Literal)
    (rest : List Token) :
    run registry m (tokens (.array opening elements closing) ++ rest)
      = run registry
          { m with values := .array (elements.map fun l => .scalar l.value) :: m.values } rest := by
  obtain ⟨passing, expecting, building, buffer, depth⟩ := ready
  have opened : m.step registry ⟨.openBracket, opening⟩
      (elements.map Literal.token ++ (⟨.closeBracket, closing⟩ :: rest))
      = .ok ({ m with building := true }, none) := by
    simp [step, passing, building]
  have closed : Machine.step registry
      { m with building := true, buffer := (elements.map Literal.value).reverse }
      ⟨.closeBracket, closing⟩ rest
      = .ok ({ m with values := .array (elements.map fun l => .scalar l.value) :: m.values },
          none) := by
    simp [step, passing, closeArray, building, buffer, bind, Except.bind, pure, Except.pure]
  rw [tokens, List.cons_append, List.append_assoc, List.singleton_append,
    run_cons_of_step opened,
    run_elements { m with building := true } passing expecting rfl buffer, List.append_nil]
  exact run_cons_of_step closed

/-- An open paren makes the machine expect a function, and literals behind it are dropped. -/
theorem run_openParen (ready : Ready m) (opening : Int) (dropped : List Literal)
    (rest : List Token) :
    run registry m (⟨.openParen, opening⟩ :: (dropped.map Literal.token ++ rest))
      = run registry { m with depth := m.depth + 1, expecting := true } rest := by
  have accepted : m.step registry ⟨.openParen, opening⟩ (dropped.map Literal.token ++ rest)
      = .ok ({ m with depth := m.depth + 1, expecting := true }, none) := by
    simp [step, ready.passing, ready.building]
  rw [run_cons_of_step accepted,
    run_dropped { m with depth := m.depth + 1, expecting := true } ready.passing rfl]

/-- A definition binds its constant and is a value itself. -/
theorem run_definition (ready : Ready m) (opening word keyOffset closing : Int) (key : Text)
    (dropped : List Literal) (value : Literal) (rest : List Token) :
    run registry m
        (tokens (.definition opening dropped word key keyOffset value closing) ++ rest)
      = run registry { m with
          env := m.env.define key (.scalar value.value)
          values := .scalar value.value :: m.values } rest := by
  have defined : Machine.step registry { m with depth := m.depth + 1, expecting := true }
      ⟨.identifier definitionWord, word⟩
      (⟨.identifier key, keyOffset⟩ :: value.token :: ⟨.closeParen, closing⟩ :: rest)
      = .ok (define { m with depth := m.depth + 1, expecting := true } key value.value,
          some (.defined key value.value)) := by
    simp [step, ready.passing, takeHead, Literal.token, Machine.definition, bind, Except.bind,
      pure, Except.pure]
  -- the rest of the definition is passed over, and its call is closed already
  have passed : run registry (define { m with depth := m.depth + 1, expecting := true } key
        value.value)
        (⟨.identifier key, keyOffset⟩ :: value.token :: ⟨.closeParen, closing⟩ :: rest)
      = run registry { define { m with depth := m.depth + 1, expecting := true } key value.value
          with passing := 0 } rest :=
    (reaches_define _ _ _).run_append
  simp only [tokens, List.cons_append, List.append_assoc, List.nil_append]
  rw [run_openParen ready, run_cons_of_step defined, passed]
  simp only [define, Int.add_sub_cancel, ready.expecting, ready.passing]

private theorem run_head (ready : Ready m) (opening : Int) (dropped : List Literal) {head : Head}
    (ordinary : head.name ≠ definitionWord) (rest : List Token) :
    run registry m (⟨.openParen, opening⟩ :: (dropped.map Literal.token ++
        ⟨.identifier head.name, head.offset⟩ :: rest))
      = run registry (called m head) rest := by
  have accepted : Machine.step registry { m with depth := m.depth + 1, expecting := true }
      ⟨.identifier head.name, head.offset⟩ rest = .ok (called m head, none) := by
    simp [step, ready.passing, takeHead, ordinary, called, ready.expecting]
  rw [run_openParen ready, run_cons_of_step accepted]

/-- A close paren calls the function that was named behind its open paren. -/
theorem run_closeParen (ready : Ready m) {head : Head} {arguments : List Value}
    (fit : ∀ builtin, registry.get? head.name = some builtin →
      arguments.length = builtin.parameters.length)
    (env : Environment) (closing : Int) (rest : List Token) :
    run registry { called m head with env, values := arguments.reverse ++ m.values }
        (⟨.closeParen, closing⟩ :: rest) =
      match apply registry head arguments with
      | .ok value => run registry { m with env, values := value :: m.values } rest
      | .error failure => ⟨.error failure, env⟩ := by
  obtain ⟨passing, expecting, building, buffer, depth⟩ := ready
  have notBelow : ¬ m.depth + 1 - 1 < 0 := by omega
  simp only [called, run, step, passing, closeCall, building, Bool.false_eq_true, if_false,
    notBelow, reduce, apply]
  cases known : registry.get? head.name with
  | none => rfl
  | some builtin =>
    simp only [takeArguments_eq head builtin.arity builtin.parameters arguments [] m.values
      (fit builtin known)]
    cases misfit? builtin.parameters arguments with
    | some found => rfl
    | none =>
      cases invoked : invoke builtin head arguments with
      | error failure => simp [bind, Except.bind, invoked]
      | ok value => simp [bind, Except.bind, invoked, pure, Except.pure, expecting]

/-! ## §3 Expressions -/

/-- What a machine in front of `rest` does with the value of the expression before: it goes on
with the value pushed, or stops at its failure. -/
def resume (registry : Registry) (m : Machine) (rest : List Token) :
    EStateM.Result Failure Environment Value → Outcome
  | .ok value env => run registry { m with env, values := value :: m.values } rest
  | .error failure env => ⟨.error failure, env⟩

/-- What a machine in front of `rest` does with the values of the expressions before. -/
def resumeAll (registry : Registry) (m : Machine) (rest : List Token) :
    EStateM.Result Failure Environment (List Value) → Outcome
  | .ok values env => run registry { m with env, values := values.reverse ++ m.values } rest
  | .error failure env => ⟨.error failure, env⟩

mutual

/-- **One expression in a run.** -/
theorem run_tokens {m : Machine} (e : Expression) (wf : wellFormed registry e = true)
    (ready : Ready m) (rest : List Token) :
    run registry m (e.tokens ++ rest) = resume registry m rest (meaning registry e m.env) := by
  match e with
  -- A literal and a reference are one token each.
  | .literal l =>
    have accepted : m.step registry l.token rest
        = .ok ({ m with values := .scalar l.value :: m.values }, none) := by
      simp [step, ready.passing, Literal.token, takeLiteral, ready.expecting, ready.building]
    exact run_cons_of_step accepted
  | .reference name offset =>
    rw [meaning_reference]
    cases found : m.env.lookup name (some offset) with
    | error failure =>
      simp [tokens, run, step, ready.passing, ready.expecting, found, bind, Except.bind, resume]
    | ok value =>
      have accepted : m.step registry ⟨.identifier name, offset⟩ rest
          = .ok ({ m with values := value :: m.values }, none) := by
        simp [step, ready.passing, ready.expecting, ready.building, found, bind, Except.bind, pure,
          Except.pure]
      exact run_cons_of_step accepted
  -- An array and a definition are runs of their own, and a call is run as its arguments are.
  | .array opening elements closing => exact run_array ready opening closing elements rest
  | .definition opening dropped word key keyOffset value closing =>
    exact run_definition ready opening word keyOffset closing key dropped value rest
  | .call opening dropped head arguments closing =>
    simp only [wellFormed, Bool.and_eq_true, decide_eq_true_eq] at wf
    obtain ⟨⟨ordinary, fit⟩, wfArguments⟩ := wf
    rw [tokens, List.cons_append, List.append_assoc, List.cons_append, List.append_assoc,
      List.singleton_append, run_head ready opening dropped ordinary,
      run_tokensAll arguments wfArguments (ready.called head), meaning_call]
    -- the machine is now behind the arguments, in front of the close paren
    show resumeAll registry (called m head) _ (meanings registry arguments m.env) = _
    cases evaluated : meanings registry arguments m.env with
    | error failure env => rfl
    | ok values env =>
      have length := length_of_meanings evaluated
      refine (run_closeParen ready ?_ env closing rest).trans ?_
      · intro builtin known
        simp only [known, decide_eq_true_eq] at fit
        rw [length, fit, Builtin.arity]
      · simp only
        cases apply registry head values with
        | error failure => rfl
        | ok value => rfl

theorem run_tokensAll {m : Machine} (es : List Expression)
    (wf : wellFormedAll registry es = true) (ready : Ready m) (rest : List Token) :
    run registry m (tokensAll es ++ rest)
      = resumeAll registry m rest (meanings registry es m.env) := by
  match es with
  | [] => rfl
  | e :: es =>
    obtain ⟨wfFirst, wfRest⟩ := Bool.and_eq_true_iff.mp wf
    -- the first expression, and the others in the state that it leaves
    rw [tokensAll, List.append_assoc, run_tokens e wfFirst ready]
    rw [meanings_cons]
    cases meaning registry e m.env with
    | error failure env => rfl
    | ok value env =>
      have ready' : Ready { m with env, values := value :: m.values } :=
        ⟨ready.passing, ready.expecting, ready.building, ready.buffer, ready.depth⟩
      simp only [resume]
      rw [run_tokensAll es wfRest ready']
      cases meanings registry es env with
      | error failure env' => rfl
      | ok values env' => simp [resumeAll]

end

/-! ## §4 Programs -/

/-- How an evaluation of the trees ends, as the machine tells it. -/
def outcome : EStateM.Result Failure Environment Value → Outcome
  | .ok value env => ⟨.ok value, env⟩
  | .error failure env => ⟨.error failure, env⟩

/-- **The machine computes the meaning of expressions.** Whatever white space stands between
the tokens that spell expressions, evaluating them ends like the recursion over the trees: with
the value of the last one or with the first failure, and with the same constants. -/
theorem evaluate_eq_program (registry : Registry) (env : Environment) (trees : List Expression)
    (tokens : List Token) (wf : wellFormedAll registry trees = true)
    (spelled : Token.significant tokens = tokensAll trees) :
    Machine.evaluate registry env tokens = outcome (program registry trees env) := by
  have ready : Ready { env } := ⟨rfl, rfl, rfl, rfl, Int.le_refl 0⟩
  have evaluated := run_tokensAll trees wf ready []
  rw [List.append_nil] at evaluated
  rw [Machine.evaluate, spelled, evaluated, program_eq]
  cases meanings registry trees env with
  | error failure env' => rfl
  | ok values env' =>
    -- all calls are closed, so the newest value is the result
    simp only [resumeAll, run, result, List.append_nil]
    cases values using List.reverseRecOn with
    | nil => rfl
    | append_singleton values last => simp [outcome]

/-- The expressions of `(def x 2) (plus x (minus 5 4))`. -/
def sumWithConstant : List Expression :=
  [definition 0 [] 1 "x" 5 ⟨.int, .int 2, 7⟩ 8,
   call 10 [] ⟨"plus", 11⟩
    [reference "x" 16,
     call 18 [] ⟨"minus", 19⟩
      [literal ⟨.int, .int 5, 25⟩, literal ⟨.int, .int 4, 27⟩] 28] 29]

/-- The tokens of these expressions, each with white space behind it. -/
def sumWithConstantTokens : List Token :=
  (tokensAll sumWithConstant).flatMap fun t => [t, ⟨.whitespace " ", t.offset + 1⟩]

theorem evaluate_sumWithConstant :
    wellFormedAll .standard sumWithConstant = true ∧
    Token.significant sumWithConstantTokens = tokensAll sumWithConstant ∧
    Machine.evaluate .standard {} sumWithConstantTokens
      = outcome (program .standard sumWithConstant {}) :=
  ⟨by decide, by decide, evaluate_eq_program .standard {} sumWithConstant sumWithConstantTokens
    (by decide) (by decide)⟩

end PrefixCalc.Expression
