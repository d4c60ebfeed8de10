import Mathlib.Data.List.Forall2
import PrefixCalc.Proofs.Machine.Transition
import PrefixCalc.Proofs.Token.Piece

/-!
# Calls and failures

The ways in which a token is not accepted, said once: `failing_of_step` is to steps that fail what
the transitions are to steps that succeed. In the end a step fails in one of two ways: it refuses
its token, or it comes to a call whose arguments fit and the builtin fails on them. So whatever else
can go wrong in a run goes wrong in a call whose arguments were checked.
-/

namespace PrefixCalc

/-- The mistakes that are only seen at the end of the input. -/
inductive Cause.OfEnd : Cause → Prop where
  | unbalanced (depth : Int) : OfEnd (.unbalanced depth)
  | openArray : OfEnd .openArray
  | nothing : OfEnd .nothing

/-- The arguments fit the parameters of a builtin, one by one. -/
def Fit (parameters : List ParameterKind) (arguments : List Value) : Prop :=
  List.Forall₂ (fun expected v => expected.accepts v.kind = true) parameters arguments

namespace Machine

variable {registry : Registry} {m : Machine} {token : Token} {ahead : List Token}
  {head : Head} {builtin : Builtin} {arguments rest : List Value} {failure : Failure}

/-! ## §1 Arguments -/

private theorem exists_taken_eq {arity : Nat} {pending : List ParameterKind}
    {taken values : List Value}
    (h : takeArguments head arity pending taken values = .ok (arguments, rest)) :
    ∃ newest, values = newest ++ rest ∧ arguments = newest.reverse ++ taken ∧
      Fit pending newest := by
  induction pending generalizing taken values with
  | nil =>
    cases h
    exact ⟨[], rfl, rfl, .nil⟩
  | cons expected pending ih =>
    cases values with
    | nil => cases h
    | cons v values =>
      rw [takeArguments] at h
      split at h
      · rename_i fits
        obtain ⟨newest, rfl, rfl, fit⟩ := ih h
        exact ⟨v :: newest, rfl, by simp, .cons fits fit⟩
      · cases h

/-- The arguments of a call are the newest values, the last argument being the newest, and they
fit. -/
theorem fit_of_taken {values : List Value}
    (h : takeArguments head builtin.arity builtin.parameters.reverse [] values
      = .ok (arguments, rest)) :
    values = arguments.reverse ++ rest ∧ Fit builtin.parameters arguments := by
  obtain ⟨newest, split, reversed, fit⟩ := exists_taken_eq h
  rw [List.append_nil] at reversed
  rw [reversed, List.reverse_reverse, Fit, ← List.forall₂_reverse_iff, List.reverse_reverse]
  exact ⟨split, fit⟩

private theorem refused_of_takeArguments {arity : Nat} {pending : List ParameterKind}
    {taken values : List Value}
    (h : takeArguments head arity pending taken values = .error failure) :
    ∃ cause offset, failure = .refused cause offset := by
  induction pending generalizing taken values with
  | nil => cases h
  | cons expected pending ih =>
    cases values with
    | nil =>
      cases h
      exact ⟨_, _, rfl⟩
    | cons v values =>
      rw [takeArguments] at h
      split at h
      · exact ih h
      · cases h
        exact ⟨_, _, rfl⟩

theorem run_of_invoke {result : Value} (h : invoke builtin head arguments = .ok result) :
    builtin.run arguments = .ok result := by
  unfold invoke at h
  split at h
  · cases h
  · rename_i value ran
    split at h
    · cases h
      exact ran
    · cases h

/-! ## §2 Checked calls -/

/-- In front of the token, the machine applies the builtin to the arguments, which fit. -/
structure Applies (registry : Registry) (m : Machine) (token : Token) (head : Head)
    (builtin : Builtin) (arguments : List Value) : Prop where
  passing : m.passing = 0
  lexeme : token.lexeme = .closeParen
  building : m.building = false
  depth : 0 < m.depth
  pending : m.functions.head? = some head
  known : registry.get? head.name = some builtin
  taken : ∃ rest, takeArguments head builtin.arity builtin.parameters.reverse [] m.values
    = .ok (arguments, rest)

/-- A step that comes to a checked call fails as the builtin does. -/
theorem Applies.step_eq_error (applies : Applies registry m token head builtin arguments)
    (failed : invoke builtin head arguments = .error failure) (ahead : List Token) :
    m.step registry token ahead = .error failure := by
  obtain ⟨passing, lexeme, building, depth, pending, known, rest, taken⟩ := applies
  obtain ⟨functions, waiting⟩ := List.head?_eq_some_iff.mp pending
  have notBelow : ¬ m.depth - 1 < 0 := by omega
  simp [step, passing, lexeme, closeCall, building, notBelow, reduce, waiting, known, taken,
    failed, bind, Except.bind]

/-! ## §3 Failing steps -/

/-- A computation in two parts fails in the first one or in the second. -/
theorem error_of_bind {α β ε : Type} {x : Except ε α} {f : α → Except ε β} {e : ε}
    (h : x >>= f = .error e) : x = .error e ∨ ∃ made, x = .ok made ∧ f made = .error e := by
  cases x with
  | ok made => exact .inr ⟨made, rfl, h⟩
  | error found =>
    cases h
    exact .inl rfl

/-- The ways in which a token is not accepted, given the tokens after it. -/
inductive Failing (registry : Registry) (m : Machine) (token : Token) (ahead : List Token) :
    Failure → Prop where
  /-- A paren or a bracket that may not stand there. -/
  | misplaced (cause : Cause) (mark : Mark) (passing : m.passing = 0)
      (lexeme : token.lexeme = mark.lexeme) (category : cause.category = .syntactic)
      (notEnd : ¬ cause.OfEnd) :
      Failing registry m token ahead (.refused cause (some token.offset))
  /-- The word that opens a definition, with none behind it. -/
  | broken (failure : Failure) (passing : m.passing = 0) (expecting : m.expecting = true)
      (lexeme : token.lexeme = .identifier definitionWord)
      (form : definition token.offset ahead = .error failure) :
      Failing registry m token ahead failure
  /-- The name of a constant that nothing is bound to. -/
  | unbound (name : Text) (passing : m.passing = 0) (expecting : m.expecting = false)
      (lexeme : token.lexeme = .identifier name) (none : m.env.get? name = none) :
      Failing registry m token ahead (.refused (.undefinedConstant name) (some token.offset))
  /-- A close paren, with the name of no function waiting for it. -/
  | unknown (head : Head) (functions : List Head) (passing : m.passing = 0)
      (lexeme : token.lexeme = .closeParen) (pending : m.functions = head :: functions)
      (none : registry.get? head.name = none) :
      Failing registry m token ahead (.refused (.unknownFunction head.name) (some head.offset))
  /-- A close paren, with too few arguments or one that does not fit. -/
  | unfit (failure : Failure) (head : Head) (functions : List Head) (builtin : Builtin)
      (passing : m.passing = 0) (lexeme : token.lexeme = .closeParen)
      (pending : m.functions = head :: functions)
      (known : registry.get? head.name = some builtin)
      (untaken : takeArguments head builtin.arity builtin.parameters.reverse [] m.values
        = .error failure) : Failing registry m token ahead failure
  /-- A checked call of a builtin that fails. -/
  | failed (failure : Failure) (head : Head) (builtin : Builtin) (arguments : List Value)
      (applies : Applies registry m token head builtin arguments)
      (invoked : invoke builtin head arguments = .error failure) :
      Failing registry m token ahead failure

private theorem failing_of_takeHead {name : Text} (passing : m.passing = 0)
    (expecting : m.expecting = true)
    (lexeme : token.lexeme = .identifier name)
    (h : m.takeHead name token.offset ahead = .error failure) :
    Failing registry m token ahead failure := by
  unfold takeHead at h
  split at h
  · rename_i word
    rcases error_of_bind h with form | ⟨bound, -, impossible⟩
    · exact .broken failure passing expecting (word ▸ lexeme) form
    · cases impossible
  · cases h

private theorem failing_of_lookup {name : Text} (passing : m.passing = 0)
    (expecting : m.expecting = false)
    (lexeme : token.lexeme = .identifier name)
    (h : m.env.lookup name (some token.offset) = .error failure) :
    Failing registry m token ahead failure := by
  unfold Environment.lookup at h
  split at h
  · cases h
  · rename_i none
    cases h
    exact .unbound name passing expecting lexeme none

private theorem failing_of_closeCall (passing : m.passing = 0) (lexeme : token.lexeme = .closeParen)
    (h : closeCall registry m token.offset = .error failure) :
    Failing registry m token ahead failure := by
  -- first the marks: no array may be open, and there must be a call to close
  unfold closeCall at h
  split at h
  · cases h
    exact .misplaced .callInArray .closeParen passing lexeme rfl (by rintro ⟨⟩)
  rename_i building
  split at h
  · cases h
    exact .misplaced .tooManyClosed .closeParen passing lexeme rfl (by rintro ⟨⟩)
  rename_i depth
  rcases error_of_bind h with unreduced | ⟨reduced, -, impossible⟩
  swap
  · cases impossible
  -- the function that waits is looked up, its arguments are taken, and it is run on them
  unfold reduce at unreduced
  split at unreduced
  · cases unreduced
    exact .misplaced .noFunction .closeParen passing lexeme rfl (by rintro ⟨⟩)
  rename_i head functions pending
  split at unreduced
  · rename_i none
    cases unreduced
    exact .unknown head functions passing lexeme pending none
  rename_i builtin known
  rcases error_of_bind unreduced with untaken | ⟨⟨arguments, rest⟩, taken, later⟩
  · exact .unfit failure head functions builtin passing lexeme pending known untaken
  rcases error_of_bind later with invoked | ⟨result, -, impossible⟩
  · have waiting : m.functions.head? = some head := List.head?_eq_some_iff.mpr ⟨functions, pending⟩
    exact .failed failure head builtin arguments
      ⟨passing, lexeme, by simpa using building, by omega, waiting, known, rest, taken⟩ invoked
  · cases impossible

/-- **Inversion of a failing step**: a token that is not accepted fails in one of these ways. -/
theorem failing_of_step (h : m.step registry token ahead = .error failure) :
    Failing registry m token ahead failure := by
  -- nothing is refused that is passed over, and no blank or literal is
  cases passing : m.passing with
  | succ left =>
    simp only [step, passing] at h
    cases h
  | zero =>
    cases lexeme : token.lexeme with
    | whitespace text | literal kind value =>
      simp only [step, passing, lexeme] at h
      cases h
    -- Three marks ask only for the state of the array.
    | openParen =>
      simp only [step, passing, lexeme] at h
      split at h
      · cases h
        exact .misplaced .openInArray .openParen passing lexeme rfl (by rintro ⟨⟩)
      · cases h
    | openBracket =>
      simp only [step, passing, lexeme] at h
      split at h
      · cases h
        exact .misplaced .arrayInArray .openBracket passing lexeme rfl (by rintro ⟨⟩)
      · cases h
    | closeBracket =>
      simp only [step, passing, lexeme, closeArray] at h
      split at h
      · cases h
      · cases h
        exact .misplaced .noArrayToClose .closeBracket passing lexeme rfl (by rintro ⟨⟩)
    -- A close paren applies a function, and a name is taken as a head or looked up.
    | closeParen =>
      simp only [step, passing, lexeme] at h
      exact failing_of_closeCall passing lexeme h
    | identifier name =>
      simp only [step, passing, lexeme] at h
      split at h
      · rename_i expecting
        exact failing_of_takeHead passing expecting lexeme h
      · rename_i expecting
        rcases error_of_bind h with unbound | ⟨value, -, impossible⟩
        · exact failing_of_lookup passing (by simpa using expecting) lexeme unbound
        · cases impossible

/-! ## §4 Refusals -/

private theorem refused_of_definition {offset : Int}
    (h : definition offset ahead = .error failure) :
    ∃ cause place, failure = .refused cause place := by
  unfold definition at h
  split at h
  · split at h
    · split at h
      · split at h
        · cases h
        · cases h
          exact ⟨_, _, rfl⟩
      · cases h
        exact ⟨_, _, rfl⟩
    · cases h
      exact ⟨_, _, rfl⟩
  · cases h
    exact ⟨_, _, rfl⟩

/-- At the end of the input only its own mistakes are found, and none is blamed on a place. -/
theorem ofEnd_of_result (h : m.result = .error failure) :
    ∃ cause, failure = .refused cause none ∧ cause.OfEnd := by
  unfold result at h
  split at h
  · cases h
    exact ⟨_, rfl, .unbalanced m.depth⟩
  split at h
  · cases h
    exact ⟨_, rfl, .openArray⟩
  split at h
  · cases h
    exact ⟨_, rfl, .nothing⟩
  · cases h

theorem refused_of_result (h : m.result = .error failure) :
    ∃ cause place, failure = .refused cause place := by
  obtain ⟨cause, rfl, -⟩ := ofEnd_of_result h
  exact ⟨cause, none, rfl⟩

/-- Where a step fails, the token is refused or a builtin fails in a checked call. -/
theorem refused_or_applies (h : m.step registry token ahead = .error failure) :
    (∃ cause offset, failure = .refused cause offset) ∨
    ∃ head builtin arguments, Applies registry m token head builtin arguments ∧
      invoke builtin head arguments = .error failure := by
  cases failing_of_step h with
  | misplaced | unbound | unknown => exact .inl ⟨_, _, rfl⟩
  | broken _ _ _ _ form => exact .inl (refused_of_definition form)
  | unfit _ _ _ _ _ _ _ _ untaken => exact .inl (refused_of_takeArguments untaken)
  | failed _ head builtin arguments applies invoked =>
    exact .inr ⟨head, builtin, arguments, applies, invoked⟩

end Machine

end PrefixCalc
