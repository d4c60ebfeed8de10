import PrefixCalc.Proofs.Machine.Transition
import PrefixCalc.Proofs.Token.Paren

/-!
# Nesting of calls

The machine has no tree, yet what it accepts is nested. The reason is one number: the
`slack` of a state is the count of open calls that neither have a function waiting nor
expect one. No step lowers it, so it is never negative; and a value is only returned
without slack, so on a run that yields a value it is zero all along. Hence no open paren
is left without a name, and a close paren finds the function of its own open paren.
-/

namespace PrefixCalc.Machine

open Token

variable {registry : Registry} {m next last : Machine} {token : Token}
  {done ahead tokens : List Token} {event : Option Event} {value : Value}

/-! ## §1 Slack -/

/-- How many of the open calls have lost their function. -/
def slack (m : Machine) : Int :=
  m.depth - m.functions.length - if m.expecting then 1 else 0

theorem slack_le_of_step (h : m.step registry token ahead = .ok (next, event)) :
    m.slack ≤ next.slack := by
  cases transition_of_step h with
  | passed | blank | referred | dropped | collected | shifted | arrayOpened | arrayClosed =>
    exact Int.le_refl _
  | defined key value passing expecting =>
    simp only [slack, define, expecting, if_true, Bool.false_eq_true, if_false]
    omega
  | headed name passing expecting =>
    simp only [slack, expecting, if_true, Bool.false_eq_true, if_false, List.length_cons]
    omega
  | opened =>
    simp only [slack, if_true]
    split <;> omega
  | applied head functions builtin arguments values result passing lexeme array depth pending =>
    simp only [slack, pending, Bool.false_eq_true, if_false, List.length_cons]
    split <;> omega

private theorem Reaches.slack_le (h : Reaches registry ahead m done last) :
    m.slack ≤ last.slack := by
  refine h.invariant (P := fun _ state _ => m.slack ≤ state.slack) ?_ [] (Int.le_refl _)
  intro before state token ahead next event accepted bound
  exact Int.le_trans bound (slack_le_of_step accepted)

private theorem depth_eq_zero_of_result (h : m.result = .ok value) : m.depth = 0 := by
  unfold result at h
  split at h
  · cases h
  · rename_i closed
    simpa using closed

private theorem slack_nonpos_of_run (h : (run registry m tokens).result = .ok value) :
    m.slack ≤ 0 := by
  have whole : (run registry m (tokens ++ [])).result = .ok value := by simpa using h
  obtain ⟨last, reached, ended⟩ := exists_reaches_of_run_eq_ok whole
  have closed : last.depth = 0 := depth_eq_zero_of_result ended
  have used : last.slack ≤ 0 := by
    unfold slack
    split <;> omega
  exact Int.le_trans reached.slack_le used

/-! ## §2 Calls -/

/-- The part of a state that has to do with calls. -/
structure Calls where
  depth : Int
  functions : List Head
  expecting : Bool
  passing : Nat

/-- What a state knows of the calls around it. -/
def calls (m : Machine) : Calls := ⟨m.depth, m.functions, m.expecting, m.passing⟩

private theorem calls_eq_of_step (passing : m.passing = 0) (notParen : token.isParen = false)
    (notHead : m.expecting = true → token.isName = false)
    (h : m.step registry token ahead = .ok (next, event)) : next.calls = m.calls := by
  cases transition_of_step h with
  | passed left positive => simp [positive] at passing
  | blank | referred | dropped | collected | shifted | arrayOpened | arrayClosed => rfl
  | defined _ _ _ expecting lexeme | headed _ _ expecting lexeme =>
    have notName := notHead expecting
    simp [isName, lexeme] at notName
  | opened _ lexeme => simp [isParen, lexeme] at notParen
  | applied _ _ _ _ _ _ _ lexeme => simp [isParen, lexeme] at notParen

/-- Where a function is expected, a paren raises the slack. -/
theorem slack_lt_of_isParen (passing : m.passing = 0) (expecting : m.expecting = true)
    (isParen : token.isParen = true) (h : m.step registry token ahead = .ok (next, event)) :
    m.slack < next.slack := by
  rcases isParen_eq_true_iff.mp isParen with lexeme | lexeme
  · -- one more call is open, and the function expected is still one
    obtain ⟨-, -, rfl⟩ := openParen_of_step passing lexeme h
    simp only [slack, expecting, if_true]
    omega
  · -- the call is closed by the function of another one
    obtain ⟨head, functions, _, _, _, _, -, -, pending, -, -, -, rfl, -⟩ :=
      closeParen_of_step passing lexeme h
    simp only [slack, pending, expecting, if_true, Bool.false_eq_true, if_false, List.length_cons]
    omega

/-- Behind an open paren the name of its function comes before any other name and before
any paren. -/
theorem exists_head (passing : m.passing = 0) (expecting : m.expecting = true)
    (orderly : 0 ≤ m.slack) (h : (run registry m tokens).result = .ok value) :
    ∃ lead head rest last, tokens = lead ++ head :: rest ∧
      (∀ t ∈ lead, t.isParen = false ∧ t.isName = false) ∧ head.isName = true ∧
      Reaches registry (head :: rest) m lead last ∧ last.calls = m.calls := by
  induction tokens generalizing m with
  | nil =>
    -- the call is still open at the end
    have closed : m.depth = 0 := depth_eq_zero_of_result h
    simp only [slack, expecting, if_true] at orderly
    omega
  | cons t rest ih =>
    by_cases isName : t.isName = true
    · exact ⟨[], t, rest, m, rfl, by simp, isName, .refl m, rfl⟩
    obtain ⟨next, event, accepted, later⟩ := exists_step_of_run_eq_ok h
    have notParen : t.isParen = false := by
      cases isParen : t.isParen with
      | false => rfl
      | true =>
        -- a paren here would leave slack that nothing takes away again
        have raised := slack_lt_of_isParen passing expecting isParen accepted
        have used := slack_nonpos_of_run later
        omega
    have notName : t.isName = false := by simpa using isName
    -- neither a paren nor a name, so the calls are as before and the search goes on
    have same : next.calls = m.calls :=
      calls_eq_of_step passing notParen (fun _ => notName) accepted
    obtain ⟨lead, head, rest, last, rfl, plain, headName, reached, kept⟩ :=
      ih ((congrArg Calls.passing same).trans passing)
        ((congrArg Calls.expecting same).trans expecting)
        (Int.le_trans orderly (slack_le_of_step accepted)) later
    refine ⟨t :: lead, head, rest, last, rfl, ?_, headName, .step accepted reached,
      kept.trans same⟩
    intro u hu
    rcases List.mem_cons.mp hu with rfl | inLead
    · exact ⟨notParen, notName⟩
    · exact plain u inLead

/-- How a call ends whose function name is `head`, seen from the state `m` in front of that
name: `body` are the tokens up to the close paren `closing`. -/
inductive Settles (registry : Registry) (m : Machine) (head : Token) (body : List Token)
    (closing : Token) (after : List Token) (last : Machine) : Prop where
  /-- The call is a definition, of which `closing` is the fourth token. -/
  | definition (name literal : Token) (kind : ScalarKind) (key : Text) (bound : Scalar)
      (word : head.lexeme = .identifier definitionWord) (form : body = [name, literal])
      (nameLexeme : name.lexeme = .identifier key)
      (literalLexeme : literal.lexeme = .literal kind bound)
      (defined : m.step registry head (body ++ closing :: after)
        = .ok (m.define key bound, some (.defined key bound)))
      (passed : Reaches registry after (m.define key bound) (body ++ [closing]) last)
  /-- The call is an ordinary one, and `closing` applies the function named by `head`. -/
  | application (name : Text) (atClosing : Machine) (arguments : List Value) (result : Value)
      (headLexeme : head.lexeme = .identifier name) (ordinary : name ≠ definitionWord)
      (reached : Reaches registry (closing :: after) m (head :: body) atClosing)
      (waiting : atClosing.functions = ⟨name, head.offset⟩ :: m.functions)
      (applied : atClosing.step registry closing after
        = .ok (last, some (.applied name arguments result)))
      (popped : last.functions = m.functions)

variable {head closing : Token} {lead body after : List Token}

theorem Settles.reaches (h : Settles registry m head body closing after last) :
    Reaches registry after m (head :: (body ++ [closing])) last := by
  cases h with
  | definition name literal kind key bound word form nameLexeme literalLexeme defined passed =>
    rw [List.append_cons] at defined
    exact .step defined passed
  | application name atClosing arguments result headLexeme ordinary reached waiting applied =>
    exact Reaches.trans reached (.single applied)

/-- In value position the machine reads a balanced stretch, up to a close paren or to the
end, and is among the same calls behind it. -/
def ReadsBalanced (registry : Registry) (tokens : List Token) : Prop :=
  ∀ (m : Machine) (value : Value), m.passing = 0 → m.expecting = false → 0 ≤ m.slack →
    (run registry m tokens).result = .ok value →
    ∃ inside after last, tokens = inside ++ after ∧ Balanced (parens inside) ∧
      Reaches registry after m inside last ∧ last.calls = m.calls ∧
      (after = [] ∨ ∃ closing rest, after = closing :: rest ∧ closing.lexeme = .closeParen)

/-- A call from its function name to its close paren. -/
theorem exists_settles (shorter : ReadsBalanced registry tokens) (passing : m.passing = 0)
    (expecting : m.expecting = true) (orderly : 0 ≤ m.slack) (headName : head.isName = true)
    (h : (run registry m (head :: tokens)).result = .ok value) :
    ∃ body closing after last, tokens = body ++ closing :: after ∧
      closing.lexeme = .closeParen ∧ Balanced (parens body) ∧
      Settles registry m head body closing after last ∧
      last.calls = ⟨m.depth - 1, m.functions, false, 0⟩ := by
  obtain ⟨next, event, accepted, later⟩ := exists_step_of_run_eq_ok h
  have raised := Int.le_trans orderly (slack_le_of_step accepted)
  obtain ⟨name, lexeme⟩ := isName_eq_true_iff.mp headName
  rcases name_of_step passing expecting lexeme accepted with
    ⟨rfl, key, bound, form, rfl, rfl⟩ | ⟨ordinary, rfl, rfl⟩
  · -- a definition is over with the third token behind its word
    obtain ⟨name, literal, close, kind, after, rfl, nameLexeme, literalLexeme, closeLexeme⟩ :=
      definition_eq_ok form
    have plain : parens [name, literal] = [] := by
      simp [parens, isParen, nameLexeme, literalLexeme]
    exact ⟨[name, literal], close, after, { m.define key bound with passing := 0 }, rfl,
      closeLexeme, plain ▸ .nil,
      .definition name literal kind key bound lexeme rfl nameLexeme literalLexeme accepted
        (reaches_define name literal close), rfl⟩
  · -- any other call is over where the tokens behind its name stop being balanced
    obtain ⟨body, after, atClosing, rfl, balanced, reached, kept, ending⟩ :=
      shorter { m with expecting := false, functions := ⟨name, head.offset⟩ :: m.functions }
        value passing rfl raised later
    have waiting : atClosing.functions = ⟨name, head.offset⟩ :: m.functions :=
      congrArg Calls.functions kept
    have open' : atClosing.depth = m.depth := congrArg Calls.depth kept
    have ready : atClosing.passing = 0 := (congrArg Calls.passing kept).trans passing
    have rest : (run registry atClosing after).result = .ok value := by
      rwa [← reached.run_append]
    -- the tokens may be over, or the close paren of the call follows
    rcases ending with rfl | ⟨closing, after, rfl, closeLexeme⟩
    · -- the function still waits at the end
      have closed : atClosing.depth = 0 := depth_eq_zero_of_result rest
      simp only [slack, expecting, if_true] at orderly
      omega
    · obtain ⟨last, event, applied, -⟩ := exists_step_of_run_eq_ok rest
      obtain ⟨top, functions, builtin, arguments, values, result, -, -, pending, -, -, -, rfl,
        rfl⟩ := closeParen_of_step ready closeLexeme applied
      obtain ⟨rfl, rfl⟩ := List.cons.inj (pending.symm.trans waiting)
      exact ⟨body, closing, after, _, rfl, closeLexeme, balanced,
        .application name atClosing arguments result lexeme ordinary (.step accepted reached)
          waiting applied rfl, by simp [calls, open', ready]⟩

/-- A call from behind its open paren to its close paren. -/
theorem exists_call (shorter : ∀ rest, rest.length < tokens.length → ReadsBalanced registry rest)
    (passing : m.passing = 0) (expecting : m.expecting = true) (orderly : 0 ≤ m.slack)
    (h : (run registry m tokens).result = .ok value) :
    ∃ lead head body closing after atHead last,
      tokens = lead ++ head :: (body ++ closing :: after) ∧
      (∀ t ∈ lead, t.isParen = false ∧ t.isName = false) ∧ head.isName = true ∧
      closing.lexeme = .closeParen ∧ Balanced (parens body) ∧
      Reaches registry (head :: (body ++ closing :: after)) m lead atHead ∧
      atHead.calls = m.calls ∧ Settles registry atHead head body closing after last ∧
      last.calls = ⟨m.depth - 1, m.functions, false, 0⟩ := by
  obtain ⟨lead, head, rest, atHead, rfl, plain, headName, reached, kept⟩ :=
    exists_head passing expecting orderly h
  have fromHead : (run registry atHead (head :: rest)).result = .ok value := by
    rwa [← reached.run_append]
  have isShorter : rest.length < (lead ++ head :: rest).length := by
    simp only [List.length_append, List.length_cons]
    omega
  obtain ⟨body, closing, after, last, rfl, closeLexeme, balanced, settles, closed⟩ :=
    exists_settles (shorter rest isShorter) ((congrArg Calls.passing kept).trans passing)
      ((congrArg Calls.expecting kept).trans expecting)
      (Int.le_trans orderly reached.slack_le) headName fromHead
  have depth : atHead.depth = m.depth := congrArg Calls.depth kept
  have functions : atHead.functions = m.functions := congrArg Calls.functions kept
  rw [depth, functions] at closed
  exact ⟨lead, head, body, closing, after, atHead, last, rfl, plain, headName, closeLexeme,
    balanced, reached, kept, settles, closed⟩

/-- A call and the balanced stretch behind it are balanced together. -/
theorem exists_balanced_of_open {opening : Token}
    (shorter : ∀ rest, rest.length ≤ tokens.length → ReadsBalanced registry rest)
    (passing : m.passing = 0) (notExpecting : m.expecting = false) (orderly : 0 ≤ m.slack)
    (isOpen : opening.lexeme = .openParen)
    (h : (run registry m (opening :: tokens)).result = .ok value) :
    ∃ inside after last, opening :: tokens = inside ++ after ∧ Balanced (parens inside) ∧
      Reaches registry after m inside last ∧ last.calls = m.calls ∧
      (after = [] ∨ ∃ closing rest, after = closing :: rest ∧ closing.lexeme = .closeParen) := by
  obtain ⟨next, event, accepted, later⟩ := exists_step_of_run_eq_ok h
  have raised := Int.le_trans orderly (slack_le_of_step accepted)
  obtain ⟨-, -, opened⟩ := openParen_of_step passing isOpen accepted
  obtain ⟨lead, head, body, closing, after, atHead, closed, rfl, plain, headName, closeLexeme,
    balanced, toHead, -, settles, back⟩ :=
    exists_call (fun rest isShorter => shorter rest (Nat.le_of_lt isShorter))
      (by rw [opened]; exact passing) (by rw [opened]) raised later
  -- the call as one run, from its open paren to its close paren
  have call :
      Reaches registry after m (opening :: (lead ++ head :: (body ++ [closing]))) closed := by
    have shape : lead ++ head :: (body ++ closing :: after)
        = (lead ++ head :: (body ++ [closing])) ++ after := by
      simp
    rw [shape] at accepted
    refine .step accepted (.trans ?_ settles.reaches)
    simpa using toHead
  -- behind it nothing has changed but values, so the rest is as balanced as before
  have same : closed.calls = m.calls := by
    rw [back, opened]
    simp [calls, passing, notExpecting]
  have fromClosed : (run registry closed after).result = .ok value := by
    rw [← call.run_append]
    simpa using h
  obtain ⟨inside, after, last, rfl, balanced', reached, kept, ending⟩ :=
    shorter after (by simp; omega) closed value ((congrArg Calls.passing same).trans passing)
      ((congrArg Calls.expecting same).trans notExpecting)
      (Int.le_trans orderly call.slack_le) fromClosed
  refine ⟨(opening :: (lead ++ head :: (body ++ [closing]))) ++ inside, after, last, by simp, ?_,
    call.trans reached, kept.trans same, ending⟩
  -- the parens of both together: those of the call around those inside it, and then the rest
  have word := parens_call isOpen (fun u hu => (plain u hu).1) headName closeLexeme body inside
  have shape : (opening :: (lead ++ head :: (body ++ [closing]))) ++ inside
      = opening :: (lead ++ head :: (body ++ closing :: inside)) := by
    simp
  rw [shape, word]
  exact .nest balanced balanced'

/-- **What a successful run reads in value position is balanced.** -/
theorem readsBalanced (registry : Registry) (tokens : List Token) :
    ReadsBalanced registry tokens := by
  -- by the number of tokens, since a call and the tokens behind it are both shorter
  induction size : tokens.length using Nat.strongRecOn generalizing tokens with
  | _ n ih =>
    intro m value passing notExpecting orderly h
    cases tokens with
    | nil => exact ⟨[], [], m, rfl, .nil, .refl m, rfl, .inl rfl⟩
    | cons t rest =>
      rw [List.length_cons] at size
      by_cases isClose : t.lexeme = .closeParen
      · exact ⟨[], t :: rest, m, rfl, .nil, .refl m, rfl, .inr ⟨t, rest, rfl, isClose⟩⟩
      by_cases isOpen : t.lexeme = .openParen
      · refine exists_balanced_of_open ?_ passing notExpecting orderly isOpen h
        intro shorter bound
        exact ih shorter.length (by omega) shorter rfl
      · -- any other token leaves the calls alone
        obtain ⟨next, event, accepted, later⟩ := exists_step_of_run_eq_ok h
        have notParen : t.isParen = false := by
          simp [← Bool.not_eq_true, isParen_eq_true_iff, isOpen, isClose]
        have same : next.calls = m.calls :=
          calls_eq_of_step passing notParen (by simp [notExpecting]) accepted
        obtain ⟨inside, after, last, rfl, balanced, reached, kept, ending⟩ :=
          ih rest.length (by omega) rest rfl next value
            ((congrArg Calls.passing same).trans passing)
            ((congrArg Calls.expecting same).trans notExpecting)
            (Int.le_trans orderly (slack_le_of_step accepted)) later
        refine ⟨t :: inside, after, last, rfl, ?_, .step accepted reached, kept.trans same, ending⟩
        rwa [parens_cons_of_not_isParen notParen]

/-! ## §3 Function position -/

/-- The tokens that are still to be passed over are the rest of a definition. -/
inductive Owed : Nat → List Token → Prop where
  | nothing (ahead : List Token) : Owed 0 ahead
  | close {t : Token} {ahead : List Token} (lexeme : t.lexeme = .closeParen) :
      Owed 1 (t :: ahead)
  | literal {t : Token} {ahead : List Token} {kind : ScalarKind} {bound : Scalar}
      (lexeme : t.lexeme = .literal kind bound) (rest : Owed 1 ahead) : Owed 2 (t :: ahead)
  | name {t : Token} {ahead : List Token} {key : Text} (lexeme : t.lexeme = .identifier key)
      (rest : Owed 2 ahead) : Owed 3 (t :: ahead)

/-- Nothing is owed in front of a token that occurs in no definition behind its word. -/
theorem Owed.eq_zero {owed : Nat} (h : Owed owed (token :: ahead))
    (notClose : token.lexeme ≠ .closeParen) (notLiteral : token.lexeme.isLiteral = false)
    (notName : token.isName = false) : owed = 0 := by
  cases h with
  | nothing => rfl
  | close lexeme => exact absurd lexeme notClose
  | literal lexeme => simp [lexeme, Lexeme.isLiteral] at notLiteral
  | name lexeme => simp [isName, lexeme] at notName

/-- What a state in front of `ahead` knows of the tokens `before` it. -/
structure Attentive (before : List Token) (m : Machine) (ahead : List Token) : Prop where
  owed : Owed m.passing ahead
  expecting_iff : m.expecting = true ↔ FunctionDue before
  idle : m.passing ≠ 0 → m.expecting = false

theorem attentive_of_step {before : List Token}
    (h : m.step registry token ahead = .ok (next, event))
    (attentive : Attentive before m (token :: ahead)) :
    Attentive (before ++ [token]) next ahead := by
  obtain ⟨owed, expecting_iff, idle⟩ := attentive
  cases transition_of_step h with
  | passed left passing =>
    have notExpecting : m.expecting = false := idle (by omega)
    rw [passing] at owed
    -- of what is passed over, only the close paren could end a function position, and none
    -- is open
    refine ⟨?_, ?_, fun _ => notExpecting⟩
    · cases owed with
      | close => exact .nothing ahead
      | literal _ rest => exact rest
      | name _ rest => exact rest
    · rw [functionDue_append_singleton, ← expecting_iff]
      cases owed with
      | close lexeme | literal lexeme | name lexeme => simp [notExpecting, lexeme]
  -- A definition owes its three tokens, and leaves function position at once.
  | defined key bound passing expecting lexeme form =>
    obtain ⟨name, literal, close, kind, after, rfl, nameLexeme, literalLexeme, closeLexeme⟩ :=
      definition_eq_ok form
    exact ⟨.name nameLexeme (.literal literalLexeme (.close closeLexeme)),
      by simp [define, functionDue_append_singleton, lexeme, isName], fun _ => rfl⟩
  -- A name and a close paren end function position, an open paren starts it, others leave it.
  | headed name passing expecting lexeme =>
    exact ⟨passing ▸ .nothing ahead,
      by simp [functionDue_append_singleton, lexeme, isName], fun _ => rfl⟩
  | opened passing lexeme =>
    exact ⟨passing ▸ .nothing ahead,
      by simp [functionDue_append_singleton, lexeme], by simp [passing]⟩
  | applied head functions builtin arguments values result passing lexeme =>
    exact ⟨passing ▸ .nothing ahead,
      by simp [functionDue_append_singleton, lexeme, isParen], fun _ => rfl⟩
  | referred name bound passing notExpecting lexeme =>
    exact ⟨passing ▸ .nothing ahead,
      by simp [functionDue_append_singleton, lexeme, isName, notExpecting], fun _ => notExpecting⟩
  | blank _ passing lexeme | dropped _ _ passing _ lexeme | collected _ _ passing _ lexeme
  | shifted _ _ passing _ lexeme | arrayOpened passing lexeme | arrayClosed passing lexeme =>
    exact ⟨passing ▸ .nothing ahead,
      by simp [functionDue_append_singleton, lexeme, isParen, isName, expecting_iff],
      by simp [passing]⟩

/-- **A function is expected exactly where its name is due.** -/
theorem attentive_of_reaches {env : Environment} (h : Reaches registry ahead { env } done m) :
    Attentive done m ahead := by
  refine h.invariant attentive_of_step [] ⟨.nothing _, ?_, fun _ => rfl⟩
  simp [not_functionDue_nil]

/-! ## §4 Elements -/

/-- An array is left without elements for the next one: no step leaves elements behind. -/
theorem buffer_eq_nil_of_step (h : m.step registry token ahead = .ok (next, event))
    (tidy : m.building = false → m.buffer = []) : next.building = false → next.buffer = [] := by
  cases transition_of_step h with
  | passed | blank | defined | headed | referred | dropped | shifted | opened | applied =>
    exact tidy
  | collected _ _ _ _ _ building =>
    -- the array goes on
    intro outside
    rw [building] at outside
    cases outside
  | arrayOpened =>
    intro outside
    cases outside
  | arrayClosed =>
    intro _
    rfl

/-- **Elements are only held while an array is read.** -/
theorem Reaches.buffer_eq_nil (h : Reaches registry ahead m done last)
    (tidy : m.building = false → m.buffer = []) : last.building = false → last.buffer = [] := by
  apply h.invariant (P := fun _ state _ => state.building = false → state.buffer = []) ?_ [] tidy
  intro before state token ahead next event accepted tidy
  exact buffer_eq_nil_of_step accepted tidy

/-! ## §5 The law of nesting -/

/-- What holds in every state of an evaluation. -/
structure Orderly (m : Machine) : Prop where
  depth_nonneg : 0 ≤ m.depth
  functions_le : (m.functions.length : Int) + (if m.expecting then 1 else 0) ≤ m.depth
  buffer_eq_nil : m.building = false → m.buffer = []

theorem depth_nonneg_of_slack (h : 0 ≤ m.slack) : 0 ≤ m.depth := by
  unfold slack at h
  split at h <;> omega

theorem orderly_of_reaches {env : Environment} (h : Reaches registry ahead { env } done m) :
    Orderly m := by
  have start : (0 : Int) ≤ slack { env } := Int.le_refl _
  have bound : 0 ≤ m.slack := Int.le_trans start h.slack_le
  refine ⟨depth_nonneg_of_slack bound, ?_, h.buffer_eq_nil fun _ => rfl⟩
  unfold slack at bound
  omega

/-- Whether the machine takes a token as the name of a function. -/
def TakesHead (m : Machine) (token : Token) : Prop :=
  m.passing = 0 ∧ m.expecting = true ∧ token.isName = true

/-- What becomes of the call that is opened by the last token of `before`, in the evaluation
of `before ++ rest`: up to the next paren exactly one token is taken as the name of a function,
and the matching close paren settles the call of that very name. -/
def OneHeadSettled (registry : Registry) (env : Environment) (before rest : List Token) : Prop :=
  ∃ lead head body closing after atHead last,
    rest = lead ++ head :: (body ++ closing :: after) ∧
    (∀ t ∈ lead, t.isParen = false) ∧ closing.lexeme = .closeParen ∧
    Balanced (parens (lead ++ head :: body)) ∧
    Reaches registry (head :: (body ++ closing :: after)) { env } (before ++ lead) atHead ∧
    atHead.TakesHead head ∧
    (∀ lead' head' rest' m, rest = lead' ++ head' :: rest' → (∀ t ∈ lead', t.isParen = false) →
      Reaches registry (head' :: rest') { env } (before ++ lead') m → m.TakesHead head' →
      lead' = lead) ∧
    Settles registry atHead head body closing after last

/-- A run that yields a value ends with no function waiting, behind balanced parens. -/
theorem exists_final {env : Environment}
    (h : (run registry { env } tokens).result = .ok value) :
    Balanced (parens tokens) ∧ ∃ last, Reaches registry [] { env } tokens last ∧
      last.result = .ok value ∧ last.functions = [] := by
  obtain ⟨inside, after, last, rfl, balanced, reached, kept, ending⟩ :=
    readsBalanced registry tokens { env } value rfl rfl (Int.le_refl _) h
  have functions : last.functions = [] := congrArg Calls.functions kept
  rw [reached.run_append] at h
  rcases ending with rfl | ⟨closing, rest, rfl, closeLexeme⟩
  · simp only [List.append_nil]
    exact ⟨balanced, last, reached, h, functions⟩
  · -- a close paren finds no function to apply
    obtain ⟨next, event, accepted, -⟩ := exists_step_of_run_eq_ok h
    have passing : last.passing = 0 := congrArg Calls.passing kept
    obtain ⟨head, waiting, _, _, _, _, -, -, pending, -⟩ :=
      closeParen_of_step passing closeLexeme accepted
    simp [functions] at pending

private theorem oneHeadSettled_of_run {env : Environment} {before rest : List Token}
    {opening : Token}
    (h : (run registry { env } (before ++ opening :: rest)).result = .ok value)
    (isOpen : opening.lexeme = .openParen) :
    OneHeadSettled registry env (before ++ [opening]) rest := by
  obtain ⟨m, reached, ended⟩ := exists_reaches_of_run_eq_ok h
  -- an open paren is no token of a definition
  have passing : m.passing = 0 :=
    (attentive_of_reaches reached).owed.eq_zero (by simp [isOpen])
      (by simp [isOpen, Lexeme.isLiteral])
      (by simp [isOpen, isName])
  obtain ⟨next, event, accepted, later⟩ := exists_step_of_run_eq_ok ended
  obtain ⟨-, -, opened⟩ := openParen_of_step passing isOpen accepted
  have ready : next.passing = 0 := by rw [opened]; exact passing
  have expects : next.expecting = true := by rw [opened]
  have start : (0 : Int) ≤ slack { env } := Int.le_refl _
  have orderly := Int.le_trans (Int.le_trans start reached.slack_le) (slack_le_of_step accepted)
  -- the call that opens here, from its lead to its close paren
  obtain ⟨lead, head, body, closing, after, atHead, last, rfl, plain, headName, closeLexeme,
    balanced, toHead, kept, settles, -⟩ :=
    exists_call (fun rest' _ => readsBalanced registry rest') ready expects orderly later
  have leadPlain : ∀ t ∈ lead, t.isParen = false := fun t ht => (plain t ht).1
  have fromStart : Reaches registry (head :: (body ++ closing :: after)) { env }
      (before ++ [opening] ++ lead) atHead := by
    rw [List.append_assoc, List.singleton_append]
    exact reached.trans (.step accepted toHead)
  refine ⟨lead, head, body, closing, after, atHead, last, rfl, leadPlain, closeLexeme, ?_,
    fromStart, ⟨(congrArg Calls.passing kept).trans ready,
      (congrArg Calls.expecting kept).trans expects, headName⟩, ?_, settles⟩
  · rw [parens_append, parens_eq_nil leadPlain,
      parens_cons_of_not_isParen (isParen_of_isName headName)]
    exact balanced
  · -- any other token that is taken would stand in front of the first name or behind it
    intro lead' head' rest' m' split plain' reached' takes
    obtain ⟨-, expecting', headName'⟩ := takes
    rcases List.append_eq_append_iff.mp split with ⟨between, rfl, order⟩ | ⟨between, rfl, order⟩
    · cases between with
      | nil => simp
      | cons first between =>
        obtain ⟨rfl, -⟩ := List.cons.inj order
        -- behind the name no function is due before the next open paren
        have due := (attentive_of_reaches reached').expecting_iff.mp expecting'
        rw [← List.append_assoc] at due
        refine absurd due (not_functionDue_of_isName headName ?_ _)
        exact fun t ht => plain' t (by simp [ht])
    · cases between with
      | nil => simp
      | cons first between =>
        obtain ⟨rfl, -⟩ := List.cons.inj order
        have notName := (plain head' (by simp)).2
        simp [notName] at headName'

/-- **The law of nesting.** In every state of an evaluation the depth is not negative, the
functions that wait and the one that is expected are at most as many as the open calls, and
elements are only held while an array is read. When the evaluation yields a value, the parens
form a balanced word, no function is left waiting, and every open paren has exactly one name
taken for it before the next paren, which its own close paren settles: by applying the
function of that name, or as the end of the definition that the name opens. -/
theorem evaluate_nesting (registry : Registry) (env : Environment) (tokens : List Token) :
    (∀ done ahead m, significant tokens = done ++ ahead →
      Reaches registry ahead { env } done m → Orderly m) ∧
    (∀ value, (evaluate registry env tokens).result = .ok value →
      Balanced (parens tokens) ∧
      (∃ last, Reaches registry [] { env } (significant tokens) last ∧
        last.result = .ok value ∧ last.functions = []) ∧
      ∀ before opening rest, significant tokens = before ++ opening :: rest →
        opening.lexeme = .openParen → OneHeadSettled registry env (before ++ [opening]) rest) := by
  constructor
  · intro done ahead m _ reached
    exact orderly_of_reaches reached
  · intro value h
    obtain ⟨balanced, final⟩ := exists_final h
    rw [parens_significant] at balanced
    refine ⟨balanced, final, ?_⟩
    intro before opening rest split isOpen
    rw [evaluate, split] at h
    exact oneHeadSettled_of_run h isOpen

/-- The tokens of `(if true true false)`. -/
def choiceTokens : List Token :=
  [⟨.openParen, 0⟩, ⟨.identifier "if", 1⟩, ⟨.whitespace " ", 3⟩,
   ⟨.literal .boolean (.boolean true), 4⟩, ⟨.literal .boolean (.boolean true), 9⟩,
   ⟨.literal .boolean (.boolean false), 14⟩, ⟨.closeParen, 19⟩]

theorem evaluate_nesting_choiceTokens :
    (evaluate .standard {} choiceTokens).result = .ok (.scalar (.boolean true)) ∧
    Balanced (parens choiceTokens) ∧
    OneHeadSettled .standard {} [⟨.openParen, 0⟩] (significant choiceTokens).tail :=
  have law := (evaluate_nesting .standard {} choiceTokens).2 (.scalar (.boolean true)) (by rfl)
  ⟨by rfl, law.1, law.2.2 [] ⟨.openParen, 0⟩ _ rfl rfl⟩

end PrefixCalc.Machine
