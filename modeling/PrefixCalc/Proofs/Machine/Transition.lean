import PrefixCalc.Machine

/-!
# Transitions of the machine

Everything that a step can do, said once. A `Transition` lists the ways in which a token
is accepted, each with the conditions under which it happens and the state it leads to;
`transition_of_step` says that there are no others. A law of the machine is then a case
analysis over the transitions, and `Reaches.invariant` carries it along a whole run.

A run is cut at any token: `Reaches registry ahead m done last` says that the machine
accepts the tokens `done` from `m` on, with `ahead` behind them, and is in `last` then.
-/

namespace PrefixCalc.Machine

/-! ## §1 One token -/

/-- The ways in which a machine accepts a token, given the tokens after it. -/
inductive Transition (registry : Registry) (m : Machine) (token : Token)
    (ahead : List Token) : Machine → Option Event → Prop where
  /-- The token belongs to a definition that was recognised before. -/
  | passed (left : Nat) (passing : m.passing = left + 1) :
      Transition registry m token ahead { m with passing := left } none
  /-- White space. -/
  | blank (text : Text) (passing : m.passing = 0) (lexeme : token.lexeme = .whitespace text) :
      Transition registry m token ahead m none
  /-- The word that opens a definition, with a whole definition behind it. -/
  | defined (key : Text) (value : Scalar) (passing : m.passing = 0)
      (expecting : m.expecting = true) (lexeme : token.lexeme = .identifier definitionWord)
      (form : definition token.offset ahead = .ok (key, value)) :
      Transition registry m token ahead (m.define key value) (some (.defined key value))
  /-- The name of the function of a call. -/
  | headed (name : Text) (passing : m.passing = 0) (expecting : m.expecting = true)
      (lexeme : token.lexeme = .identifier name) (ordinary : name ≠ definitionWord) :
      Transition registry m token ahead
        { m with expecting := false, functions := ⟨name, token.offset⟩ :: m.functions } none
  /-- The name of a constant. -/
  | referred (name : Text) (value : Value) (passing : m.passing = 0)
      (expecting : m.expecting = false) (lexeme : token.lexeme = .identifier name)
      (bound : m.env.get? name = some value) :
      Transition registry m token ahead { m with values := value :: m.values } none
  /-- A literal where a function is expected. -/
  | dropped (kind : ScalarKind) (value : Scalar) (passing : m.passing = 0)
      (expecting : m.expecting = true) (lexeme : token.lexeme = .literal kind value) :
      Transition registry m token ahead m none
  /-- A literal inside an array. -/
  | collected (kind : ScalarKind) (value : Scalar) (passing : m.passing = 0)
      (expecting : m.expecting = false) (lexeme : token.lexeme = .literal kind value)
      (building : m.building = true) :
      Transition registry m token ahead { m with buffer := value :: m.buffer } none
  /-- A literal that is a value by itself. -/
  | shifted (kind : ScalarKind) (value : Scalar) (passing : m.passing = 0)
      (expecting : m.expecting = false) (lexeme : token.lexeme = .literal kind value)
      (building : m.building = false) :
      Transition registry m token ahead { m with values := .scalar value :: m.values } none
  /-- An open paren. -/
  | opened (passing : m.passing = 0) (lexeme : token.lexeme = .openParen)
      (building : m.building = false) :
      Transition registry m token ahead
        { m with depth := m.depth + 1, expecting := true } none
  /-- A close paren, which applies the newest function. -/
  | applied (head : Head) (functions : List Head) (builtin : Builtin)
      (arguments values : List Value) (result : Value)
      (passing : m.passing = 0) (lexeme : token.lexeme = .closeParen)
      (building : m.building = false) (depth : 0 < m.depth)
      (pending : m.functions = head :: functions)
      (known : registry.get? head.name = some builtin)
      (taken : takeArguments head builtin.arity builtin.parameters.reverse [] m.values
        = .ok (arguments, values))
      (invoked : invoke builtin head arguments = .ok result) :
      Transition registry m token ahead
        { m with
          depth := m.depth - 1, expecting := false, functions, values := result :: values }
        (some (.applied head.name arguments result))
  /-- An open bracket. -/
  | arrayOpened (passing : m.passing = 0) (lexeme : token.lexeme = .openBracket)
      (building : m.building = false) :
      Transition registry m token ahead { m with building := true } none
  /-- A close bracket. -/
  | arrayClosed (passing : m.passing = 0) (lexeme : token.lexeme = .closeBracket)
      (building : m.building = true) :
      Transition registry m token ahead
        { m with
          values := .array (m.buffer.reverse.map .scalar) :: m.values, building := false,
          buffer := [] } none

variable {registry : Registry} {m next : Machine} {token : Token} {ahead : List Token}
  {event : Option Event}

/-! ## §2 What the parts of a step accept -/

private theorem takeHead_eq_ok {name : Text} {offset : Int}
    (h : m.takeHead name offset ahead = .ok (next, event)) :
    (name = definitionWord ∧ ∃ key value, definition offset ahead = .ok (key, value) ∧
      next = m.define key value ∧ event = some (.defined key value)) ∨
    (name ≠ definitionWord ∧ event = none ∧
      next = { m with expecting := false, functions := ⟨name, offset⟩ :: m.functions }) := by
  unfold takeHead at h
  split at h
  · rename_i word
    cases form : definition offset ahead with
    | error failure =>
      rw [form] at h
      cases h
    | ok bound =>
      rw [form] at h
      cases h
      exact .inl ⟨word, bound.1, bound.2, rfl, rfl, rfl⟩
  · rename_i ordinary
    cases h
    exact .inr ⟨ordinary, rfl, rfl⟩

private theorem lookup_eq_ok {env : Environment} {name : Text} {offset : Option Int} {value : Value}
    (h : env.lookup name offset = .ok value) : env.get? name = some value := by
  unfold Environment.lookup at h
  split at h
  · cases h
    assumption
  · cases h

private theorem reduce_eq_ok {offset : Int} {applied : Event}
    (h : reduce registry m offset = .ok (next, applied)) :
    ∃ head functions builtin arguments values result,
      m.functions = head :: functions ∧ registry.get? head.name = some builtin ∧
      takeArguments head builtin.arity builtin.parameters.reverse [] m.values
        = .ok (arguments, values) ∧
      invoke builtin head arguments = .ok result ∧
      next = { m with functions, values := result :: values } ∧
      applied = .applied head.name arguments result := by
  unfold reduce at h
  split at h
  · cases h
  rename_i head functions pending
  split at h
  · cases h
  rename_i builtin known
  cases taken : takeArguments head builtin.arity builtin.parameters.reverse [] m.values with
  | error failure =>
    rw [taken] at h
    cases h
  | ok found =>
    obtain ⟨arguments, values⟩ := found
    rw [taken] at h
    cases invoked : invoke builtin head arguments with
    | error failure =>
      simp only [bind, Except.bind, invoked] at h
      cases h
    | ok result =>
      simp only [bind, Except.bind, invoked] at h
      cases h
      exact ⟨head, functions, builtin, arguments, values, result, pending, known, taken,
        invoked, rfl, rfl⟩

private theorem closeCall_eq_ok {offset : Int}
    (h : closeCall registry m offset = .ok (next, event)) :
    m.building = false ∧ 0 < m.depth ∧ ∃ applied, event = some applied ∧
      reduce registry { m with depth := m.depth - 1, expecting := false } offset
        = .ok (next, applied) := by
  unfold closeCall at h
  split at h
  · cases h
  rename_i building
  split at h
  · cases h
  rename_i depth
  refine ⟨by simpa using building, by omega, ?_⟩
  cases reduced : reduce registry { m with depth := m.depth - 1, expecting := false } offset with
  | error failure =>
    rw [reduced] at h
    cases h
  | ok found =>
    rw [reduced] at h
    cases h
    exact ⟨found.2, rfl, rfl⟩

private theorem closeArray_eq_ok {offset : Int} (h : m.closeArray offset = .ok next) :
    m.building = true ∧
      next = { m with
        values := .array (m.buffer.reverse.map .scalar) :: m.values, building := false,
        buffer := [] } := by
  unfold closeArray at h
  split at h
  · rename_i building
    cases h
    exact ⟨building, rfl⟩
  · cases h

theorem definition_eq_ok {offset : Int} {key : Text} {value : Scalar}
    (h : definition offset ahead = .ok (key, value)) :
    ∃ name literal close kind after, ahead = name :: literal :: close :: after ∧
      name.lexeme = .identifier key ∧ literal.lexeme = .literal kind value ∧
      close.lexeme = .closeParen := by
  unfold definition at h
  split at h
  · rename_i name literal close after
    split at h
    · rename_i nameLexeme
      split at h
      · rename_i kind _ literalLexeme
        split at h
        · rename_i closeLexeme
          cases h
          exact ⟨name, literal, close, kind, after, rfl, nameLexeme, literalLexeme, closeLexeme⟩
        · cases h
      · cases h
    · cases h
  · cases h

/-! ## §3 What a step makes of a kind of token -/

theorem openParen_of_step (passing : m.passing = 0) (lexeme : token.lexeme = .openParen)
    (h : m.step registry token ahead = .ok (next, event)) :
    m.building = false ∧ event = none ∧
      next = { m with depth := m.depth + 1, expecting := true } := by
  simp only [step, passing, lexeme] at h
  split at h
  · cases h
  · rename_i building
    cases h
    exact ⟨by simpa using building, rfl, by rw [passing]⟩

theorem closeParen_of_step (passing : m.passing = 0) (lexeme : token.lexeme = .closeParen)
    (h : m.step registry token ahead = .ok (next, event)) :
    ∃ head functions builtin arguments values result,
      m.building = false ∧ 0 < m.depth ∧ m.functions = head :: functions ∧
      registry.get? head.name = some builtin ∧
      takeArguments head builtin.arity builtin.parameters.reverse [] m.values
        = .ok (arguments, values) ∧
      invoke builtin head arguments = .ok result ∧
      next = { m with
        depth := m.depth - 1, expecting := false, functions, values := result :: values } ∧
      event = some (.applied head.name arguments result) := by
  simp only [step, passing, lexeme] at h
  obtain ⟨building, depth, applied, rfl, reduced⟩ := closeCall_eq_ok h
  obtain ⟨head, functions, builtin, arguments, values, result, pending, known, taken, invoked,
    rfl, rfl⟩ := reduce_eq_ok reduced
  exact ⟨head, functions, builtin, arguments, values, result, building, depth, pending, known,
    taken, invoked, rfl, rfl⟩

theorem openBracket_of_step (passing : m.passing = 0) (lexeme : token.lexeme = .openBracket)
    (h : m.step registry token ahead = .ok (next, event)) :
    m.building = false ∧ event = none ∧ next = { m with building := true } := by
  simp only [step, passing, lexeme] at h
  split at h
  · cases h
  · rename_i building
    cases h
    exact ⟨by simpa using building, rfl, by rw [passing]⟩

theorem name_of_step {name : Text} (passing : m.passing = 0) (expecting : m.expecting = true)
    (lexeme : token.lexeme = .identifier name)
    (h : m.step registry token ahead = .ok (next, event)) :
    (name = definitionWord ∧ ∃ key value, definition token.offset ahead = .ok (key, value) ∧
      next = m.define key value ∧ event = some (.defined key value)) ∨
    (name ≠ definitionWord ∧ event = none ∧
      next = { m with expecting := false, functions := ⟨name, token.offset⟩ :: m.functions }) := by
  simp only [step, passing, lexeme, expecting, if_true] at h
  exact takeHead_eq_ok h

/-! ## §4 Inversion -/

/-- **Inversion of a step**: a token that is accepted is accepted by one of the
transitions. -/
theorem transition_of_step (h : m.step registry token ahead = .ok (next, event)) :
    Transition registry m token ahead next event := by
  -- the cases are those of `step`: what is passed over, and then the kinds of token
  cases passing : m.passing with
  | succ left =>
    simp only [step, passing] at h
    cases h
    exact .passed left passing
  | zero =>
    cases lexeme : token.lexeme with
    | whitespace text =>
      simp only [step, passing, lexeme] at h
      cases h
      exact .blank text passing lexeme
    -- For a paren or a bracket the state of the array is asked first.
    | openParen =>
      obtain ⟨building, rfl, rfl⟩ := openParen_of_step passing lexeme h
      exact .opened passing lexeme building
    | closeParen =>
      obtain ⟨head, functions, builtin, arguments, values, result, building, depth, pending, known,
        taken, invoked, rfl, rfl⟩ := closeParen_of_step passing lexeme h
      exact .applied head functions builtin arguments values result passing lexeme building depth
        pending known taken invoked
    | openBracket =>
      obtain ⟨building, rfl, rfl⟩ := openBracket_of_step passing lexeme h
      exact .arrayOpened passing lexeme building
    | closeBracket =>
      simp only [step, passing, lexeme] at h
      cases closed : m.closeArray token.offset with
      | error failure =>
        rw [closed] at h
        cases h
      | ok after =>
        rw [closed] at h
        cases h
        obtain ⟨building, rfl⟩ := closeArray_eq_ok closed
        exact .arrayClosed passing lexeme building
    | literal kind value =>
      simp only [step, passing, lexeme] at h
      cases h
      -- in function position the literal is lost, whether an array is open or not
      unfold takeLiteral
      split
      · rename_i expecting
        exact .dropped kind value passing expecting lexeme
      · rename_i expecting
        split
        · rename_i building
          exact .collected kind value passing (by simpa using expecting) lexeme building
        · rename_i building
          exact .shifted kind value passing (by simpa using expecting) lexeme
            (by simpa using building)
    -- A name in function position opens a definition or a call, any other one is looked up.
    | identifier name =>
      cases expecting : m.expecting with
      | true =>
        rcases name_of_step passing expecting lexeme h with
          ⟨rfl, key, value, form, rfl, rfl⟩ | ⟨ordinary, rfl, rfl⟩
        · exact .defined key value passing expecting lexeme form
        · exact .headed name passing expecting lexeme ordinary
      | false =>
        have accepted : m.step registry token ahead = do
            let value ← m.env.lookup name (some token.offset)
            return ({ m with values := value :: m.values }, none) := by
          simp [step, passing, lexeme, expecting]
        rw [accepted] at h
        cases bound : m.env.lookup name (some token.offset) with
        | error failure =>
          rw [bound] at h
          cases h
        | ok value =>
          rw [bound] at h
          cases h
          exact .referred name value passing expecting lexeme (lookup_eq_ok bound)

/-- Every transition is a step: nothing is asked of a state beyond what the transitions say. -/
theorem step_of_transition (h : Transition registry m token ahead next event) :
    m.step registry token ahead = .ok (next, event) := by
  cases h with
  | passed left passing => simp only [step, passing]
  | blank text passing lexeme => simp only [step, passing, lexeme]
  | defined key value passing expecting lexeme form =>
    simp [step, passing, lexeme, expecting, takeHead, form, bind, Except.bind, pure, Except.pure]
  | headed name passing expecting lexeme ordinary =>
    simp [step, passing, lexeme, expecting, takeHead, ordinary]
  | referred name value passing expecting lexeme bound =>
    simp [step, passing, lexeme, expecting, Environment.lookup, bound, bind, Except.bind, pure,
      Except.pure]
  | dropped kind value passing expecting lexeme =>
    simp [step, passing, lexeme, takeLiteral, expecting]
  | collected kind value passing expecting lexeme building =>
    simp [step, passing, lexeme, takeLiteral, expecting, building]
  | shifted kind value passing expecting lexeme building =>
    simp [step, passing, lexeme, takeLiteral, expecting, building]
  | opened passing lexeme building => simp [step, passing, lexeme, building]
  | applied head functions builtin arguments values result passing lexeme building depth
      pending known taken invoked =>
    have notBelow : ¬ m.depth - 1 < 0 := by omega
    simp [step, passing, lexeme, closeCall, building, notBelow, reduce, pending, known, taken,
      invoked, bind, Except.bind, pure, Except.pure]
  | arrayOpened passing lexeme building => simp [step, passing, lexeme, building]
  | arrayClosed passing lexeme building =>
    simp [step, passing, lexeme, closeArray, building, bind, Except.bind, pure, Except.pure]

/-! ## §5 Runs -/

/-- From `m` on, with `ahead` behind them, the tokens `done` are accepted, and the machine
is in `last` then. -/
inductive Reaches (registry : Registry) (ahead : List Token) :
    Machine → List Token → Machine → Prop where
  | refl (m : Machine) : Reaches registry ahead m [] m
  | step {m next last : Machine} {token : Token} {done : List Token} {event : Option Event}
      (accepted : m.step registry token (done ++ ahead) = .ok (next, event))
      (later : Reaches registry ahead next done last) :
      Reaches registry ahead m (token :: done) last

variable {last : Machine} {done more : List Token} {value : Value}

theorem run_cons_of_step (accepted : m.step registry token ahead = .ok (next, event)) :
    run registry m (token :: ahead) = run registry next ahead := by
  simp only [run, accepted]

namespace Reaches

/-- **Laws of a run**: what every step carries from the tokens up to it to the tokens behind
it holds after any run if it holds before. -/
theorem invariant {P : List Token → Machine → List Token → Prop}
    (keeps : ∀ {before m token ahead next event}, m.step registry token ahead = .ok (next, event) →
      P before m (token :: ahead) → P (before ++ [token]) next ahead)
    (h : Reaches registry ahead m done last) (before : List Token)
    (start : P before m (done ++ ahead)) : P (before ++ done) last ahead := by
  induction h generalizing before with
  | refl m => simpa using start
  | step accepted later ih =>
    have kept := ih _ (keeps accepted start)
    rwa [List.append_assoc, List.singleton_append] at kept

theorem trans {mid : Machine} (first : Reaches registry (more ++ ahead) m done mid)
    (second : Reaches registry ahead mid more last) :
    Reaches registry ahead m (done ++ more) last := by
  induction first with
  | refl m => exact second
  | step accepted later ih =>
    rw [← List.append_assoc] at accepted
    exact .step accepted (ih second)

theorem single (accepted : m.step registry token ahead = .ok (next, event)) :
    Reaches registry ahead m [token] next :=
  .step accepted (.refl next)

theorem run_append (h : Reaches registry ahead m done last) :
    run registry m (done ++ ahead) = run registry last ahead := by
  induction h with
  | refl m => rfl
  | step accepted later ih => rw [List.cons_append, run_cons_of_step accepted, ih]

end Reaches

/-- A run that yields a value accepts its first token. -/
theorem exists_step_of_run_eq_ok (h : (run registry m (token :: ahead)).result = .ok value) :
    ∃ next event, m.step registry token ahead = .ok (next, event) ∧
      (run registry next ahead).result = .ok value := by
  rw [run] at h
  cases accepted : m.step registry token ahead with
  | error failure =>
    rw [accepted] at h
    cases h
  | ok found =>
    rw [accepted] at h
    exact ⟨found.1, found.2, rfl, h⟩

/-- A run that yields a value gets behind any of its tokens. -/
theorem exists_reaches_of_run_eq_ok (h : (run registry m (done ++ ahead)).result = .ok value) :
    ∃ last, Reaches registry ahead m done last ∧ (run registry last ahead).result = .ok value := by
  induction done generalizing m with
  | nil => exact ⟨m, .refl m, h⟩
  | cons token done ih =>
    obtain ⟨next, event, accepted, rest⟩ := exists_step_of_run_eq_ok h
    obtain ⟨last, reached, ended⟩ := ih rest
    exact ⟨last, .step accepted reached, ended⟩

theorem step_of_passing {left : Nat} (passing : m.passing = left + 1) :
    m.step registry token ahead = .ok ({ m with passing := left }, none) := by
  simp only [step, passing]

theorem reaches_define {key : Text} {bound : Scalar} (t u v : Token) :
    Reaches registry ahead (m.define key bound) [t, u, v]
      { m.define key bound with passing := 0 } :=
  .step (step_of_passing rfl) (.step (step_of_passing rfl) (.step (step_of_passing rfl) (.refl _)))

end PrefixCalc.Machine
