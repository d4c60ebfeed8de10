import PrefixCalc.Proofs.Machine.Nesting

/-!
# Frames

What a successful run does hangs neither on the places of its tokens nor on the values that
lay on the stack before it, and it is over when its tokens are: the tokens behind it change
nothing. So two runs that succeed one after the other are together one run.
-/

namespace PrefixCalc.Machine

open Token

variable {registry : Registry} {m next last : Machine} {token token' : Token}
  {ahead ahead' done tokens tokens' more : List Token} {event : Option Event} {value : Value}

/-! ## §1 Other places and values below -/

/-- The machine with other entries for the functions that wait and with more values below
its own. -/
def lift (m : Machine) (functions : List Head) (below : List Value) : Machine :=
  { m with functions, values := m.values ++ below }

private theorem definition_congr {offset offset' : Int} {key : Text} {bound : Scalar}
    (h : definition offset ahead = .ok (key, bound))
    (same : ahead'.map lexeme = ahead.map lexeme) :
    definition offset' ahead' = .ok (key, bound) := by
  obtain ⟨name, literal, close, kind, after, rfl, nameLexeme, literalLexeme, closeLexeme⟩ :=
    definition_eq_ok h
  -- the other list has three such tokens in front too
  rcases ahead' with _ | ⟨name', _ | ⟨literal', _ | ⟨close', after'⟩⟩⟩
  · simp at same
  · simp at same
  · simp at same
  · simp only [List.map_cons, List.cons.injEq] at same
    obtain ⟨sameName, sameLiteral, sameClose, -⟩ := same
    simp only [definition, sameName, nameLexeme, sameLiteral, literalLexeme, sameClose, closeLexeme]

private theorem takeArguments_append {head head' : Head} {arity : Nat}
    {pending : List ParameterKind}
    {taken values arguments rest : List Value} (below : List Value)
    (h : takeArguments head arity pending taken values = .ok (arguments, rest)) :
    takeArguments head' arity pending taken (values ++ below) = .ok (arguments, rest ++ below) := by
  induction pending generalizing taken values with
  | nil =>
    cases h
    rfl
  | cons expected pending ih =>
    cases values with
    | nil => cases h
    | cons v values =>
      rw [takeArguments] at h
      split at h
      · rename_i fits
        rw [List.cons_append, takeArguments, if_pos fits]
        exact ih h
      · cases h

private theorem invoke_congr {builtin : Builtin} {head head' : Head} {arguments : List Value}
    {result : Value} (h : invoke builtin head arguments = .ok result) :
    invoke builtin head' arguments = .ok result := by
  unfold invoke at h ⊢
  cases ran : builtin.run arguments with
  | error failure =>
    rw [ran] at h
    cases h
  | ok value =>
    rw [ran] at h
    exact h

/-- **Frame of a step**: an accepted token is accepted all the same by a machine with other
places and with more values below, and has the same effect. -/
theorem step_lift {functions : List Head} (below : List Value)
    (h : m.step registry token ahead = .ok (next, event))
    (same : token'.lexeme = token.lexeme) (behind : ahead'.map lexeme = ahead.map lexeme)
    (names : functions.map Head.name = m.functions.map Head.name) :
    ∃ functions', functions'.map Head.name = next.functions.map Head.name ∧
      (m.lift functions below).step registry token' ahead'
        = .ok (next.lift functions' below, event) := by
  -- the transition is the same one; only a name that is pushed or popped changes the functions
  cases transition_of_step h with
  | passed left passing => exact ⟨functions, names, step_of_transition (.passed left passing)⟩
  | blank text passing lexeme =>
    exact ⟨functions, names, step_of_transition (.blank text passing (same.trans lexeme))⟩
  | defined key bound passing expecting lexeme form =>
    exact ⟨functions, names, step_of_transition
      (.defined key bound passing expecting (same.trans lexeme) (definition_congr form behind))⟩
  -- A call is pushed with its own place, which may be another one here.
  | headed name passing expecting lexeme ordinary =>
    refine ⟨⟨name, token'.offset⟩ :: functions, ?_, step_of_transition
      (.headed name passing expecting (same.trans lexeme) ordinary)⟩
    show name :: functions.map Head.name = name :: m.functions.map Head.name
    rw [names]
  | referred name bound passing expecting lexeme found =>
    exact ⟨functions, names, step_of_transition
      (.referred name bound passing expecting (same.trans lexeme) found)⟩
  | dropped kind literal passing expecting lexeme =>
    exact ⟨functions, names, step_of_transition
      (.dropped kind literal passing expecting (same.trans lexeme))⟩
  | collected kind literal passing expecting lexeme building =>
    exact ⟨functions, names, step_of_transition
      (.collected kind literal passing expecting (same.trans lexeme) building)⟩
  | shifted kind literal passing expecting lexeme building =>
    exact ⟨functions, names, step_of_transition
      (.shifted kind literal passing expecting (same.trans lexeme) building)⟩
  | opened passing lexeme building =>
    exact ⟨functions, names, step_of_transition (.opened passing (same.trans lexeme) building)⟩
  | applied head waiting builtin arguments values result passing lexeme building depth pending known
      taken invoked =>
    -- the function on top has the same name, so it is the same builtin
    rw [pending, List.map_cons] at names
    obtain ⟨head', waiting', rfl, name, names'⟩ := List.map_eq_cons_iff.mp names
    rw [← name] at known
    have applied : Transition registry (m.lift (head' :: waiting') below) token' ahead' _ _ :=
      .applied head' waiting' builtin arguments (values ++ below) result passing
        (same.trans lexeme) building depth rfl known (takeArguments_append below taken)
        (invoke_congr invoked)
    refine ⟨waiting', names', ?_⟩
    rw [← name]
    exact step_of_transition applied
  | arrayOpened passing lexeme building =>
    exact ⟨functions, names, step_of_transition
      (.arrayOpened passing (same.trans lexeme) building)⟩
  | arrayClosed passing lexeme building =>
    exact ⟨functions, names, step_of_transition
      (.arrayClosed passing (same.trans lexeme) building)⟩

/-- A run may end when no call and no array is open, and its result is the newest value. -/
theorem result_eq_ok_iff :
    m.result = .ok value ↔ m.depth = 0 ∧ m.building = false ∧ m.values.head? = some value := by
  unfold result
  by_cases depth : m.depth = 0
  · cases m.building <;> cases m.values <;> simp [depth]
  · simp [depth]

private theorem result_lift {functions : List Head} (below : List Value)
    (h : m.result = .ok value) :
    (m.lift functions below).result = .ok value := by
  obtain ⟨depth, building, newest⟩ := result_eq_ok_iff.mp h
  refine result_eq_ok_iff.mpr ⟨depth, building, ?_⟩
  obtain ⟨older, values⟩ := List.head?_eq_some_iff.mp newest
  simp [lift, values]

/-- **Frame of a run.** -/
theorem run_lift {functions : List Head} (below : List Value)
    (h : (run registry m tokens).result = .ok value)
    (same : tokens'.map lexeme = tokens.map lexeme)
    (names : functions.map Head.name = m.functions.map Head.name) :
    run registry (m.lift functions below) tokens' = run registry m tokens := by
  induction tokens generalizing m tokens' functions with
  | nil =>
    obtain rfl : tokens' = [] := by simpa using same
    have ended : m.result = .ok value := h
    simp only [run, result_lift below ended, ended]
    rfl
  | cons t rest ih =>
    obtain ⟨t', rest', rfl, sameToken, sameRest⟩ := List.map_eq_cons_iff.mp same
    obtain ⟨next, event, accepted, later⟩ := exists_step_of_run_eq_ok h
    obtain ⟨functions', names', lifted⟩ := step_lift below accepted sameToken sameRest names
    rw [run_cons_of_step lifted, run_cons_of_step accepted]
    exact ih later sameRest names'

/-! ## §2 Tokens behind -/

private theorem definition_append {offset : Int} {key : Text} {bound : Scalar}
    (h : definition offset ahead = .ok (key, bound)) (more : List Token) :
    definition offset (ahead ++ more) = .ok (key, bound) := by
  obtain ⟨name, literal, close, kind, after, rfl, nameLexeme, literalLexeme, closeLexeme⟩ :=
    definition_eq_ok h
  simp only [List.cons_append, definition, nameLexeme, literalLexeme, closeLexeme]

/-- A token that is accepted is accepted with more tokens behind it: a definition looks at no
more of them than it takes. -/
theorem step_append (h : m.step registry token ahead = .ok (next, event)) (more : List Token) :
    m.step registry token (ahead ++ more) = .ok (next, event) := by
  apply step_of_transition
  cases transition_of_step h with
  | passed left passing => exact .passed left passing
  | blank text passing lexeme => exact .blank text passing lexeme
  | defined key bound passing expecting lexeme form =>
    exact .defined key bound passing expecting lexeme (definition_append form more)
  | headed name passing expecting lexeme ordinary =>
    exact .headed name passing expecting lexeme ordinary
  | referred name bound passing expecting lexeme found =>
    exact .referred name bound passing expecting lexeme found
  | dropped kind literal passing expecting lexeme =>
    exact .dropped kind literal passing expecting lexeme
  | collected kind literal passing expecting lexeme building =>
    exact .collected kind literal passing expecting lexeme building
  | shifted kind literal passing expecting lexeme building =>
    exact .shifted kind literal passing expecting lexeme building
  | opened passing lexeme building => exact .opened passing lexeme building
  | applied head waiting builtin arguments values result passing lexeme building depth pending known
      taken invoked =>
    exact .applied head waiting builtin arguments values result passing lexeme building depth
      pending known taken invoked
  | arrayOpened passing lexeme building => exact .arrayOpened passing lexeme building
  | arrayClosed passing lexeme building => exact .arrayClosed passing lexeme building

theorem Reaches.append (h : Reaches registry ahead m done last) (more : List Token) :
    Reaches registry (ahead ++ more) m done last := by
  induction h with
  | refl m => exact .refl m
  | step accepted later ih =>
    have accepted' := step_append accepted more
    rw [List.append_assoc] at accepted'
    exact .step accepted' ih

/-! ## §3 One run behind another -/

/-- A run that yields a value leaves nothing behind but constants and values: no call and no
array is open, no function waits and none is expected. -/
theorem exists_settled {env : Environment}
    (h : (run registry { env } tokens).result = .ok value) :
    ∃ env' values, Reaches registry [] { env } tokens { env := env', values } ∧
      run registry { env } tokens = ⟨.ok value, env'⟩ := by
  obtain ⟨-, last, reached, ended, functions⟩ := exists_final h
  have owed := (attentive_of_reaches reached).owed
  obtain ⟨-, bound, buffer⟩ := orderly_of_reaches reached
  obtain ⟨depth, building, -⟩ := result_eq_ok_iff.mp ended
  -- no token is left that could be owed
  have passing : last.passing = 0 := by
    generalize last.passing = left at owed
    cases owed
    rfl
  have expecting : last.expecting = false := by
    cases expected : last.expecting with
    | false => rfl
    | true =>
      simp only [functions, depth, expected, if_true, List.length_nil] at bound
      omega
  have settled : last = { env := last.env, values := last.values } := by
    cases last
    simp_all
  have outcome : run registry { env } tokens = ⟨.ok value, last.env⟩ := by
    have whole := reached.run_append
    rw [List.append_nil] at whole
    rw [whole, run, ended]
  rw [settled] at reached
  exact ⟨last.env, last.values, reached, outcome⟩

/-- **Two evaluations in one.** If tokens yield a value, and further tokens yield another with
the constants that the first ones left, then both together yield the second value and leave
the same constants. -/
theorem evaluate_of_lexemes {env env₁ env₂ : Environment} {first second whole : List Token}
    {value₁ value₂ : Value} (h₁ : evaluate registry env first = ⟨.ok value₁, env₁⟩)
    (h₂ : evaluate registry env₁ second = ⟨.ok value₂, env₂⟩)
    (split : (significant whole).map lexeme
      = (significant first).map lexeme ++ (significant second).map lexeme) :
    evaluate registry env whole = ⟨.ok value₂, env₂⟩ := by
  have ok₁ : (run registry { env } (significant first)).result = .ok value₁ :=
    congrArg Outcome.result h₁
  have ok₂ : (run registry { env := env₁ } (significant second)).result = .ok value₂ :=
    congrArg Outcome.result h₂
  obtain ⟨env', values, reached, ended⟩ := exists_settled ok₁
  obtain rfl : env' = env₁ := congrArg Outcome.env (ended.symm.trans h₁)
  -- the first tokens lead to the start of the second run, but for the values left on the stack
  have through : run registry { env } (significant first ++ significant second)
      = run registry (lift { env := env' } [] values) (significant second) :=
    (reached.append (significant second)).run_append
  have together : run registry { env } (significant first ++ significant second)
      = ⟨.ok value₂, env₂⟩ := by
    rw [through, run_lift values ok₂ rfl rfl]
    exact h₂
  have ok : (run registry { env } (significant first ++ significant second)).result
      = .ok value₂ := congrArg Outcome.result together
  show run registry { env } (significant whole) = _
  rw [← together]
  have unlifted : lift { env } [] [] = { env } := rfl
  rw [← unlifted]
  apply run_lift [] ok
  · rw [split, List.map_append]
  · rfl

end PrefixCalc.Machine
