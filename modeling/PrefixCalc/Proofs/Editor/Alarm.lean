import PrefixCalc.Proofs.Editor.Heads
import PrefixCalc.Proofs.Machine.Frame

/-!
# Alarms of the index

On a text that has a value, the balances of the index are those of the machine, so both are zero in
the end and nothing is said about the form of the text; and as every function that waits is found
in the end, none is called unknown. Only inside brackets the index can be behind: a name where the
machine awaits that of a function is a constant for it, also if it opens a definition. So a text
that has a value may still have constants that are called undefined, but only if a bracket stands
between an open paren and the name behind it.
-/

namespace PrefixCalc.Index

open Machine Token

variable {place : Int → Position} {p q : Progress} {m next last : Machine} {token : Token}
  {before ahead : List Token} {event : Option Event}

/-! ## §1 Balances -/

/-- How the index stands to the machine: at the same place of the same call or, in a definition
that only the machine has recognised, in front of its close paren. -/
inductive Level (m : Machine) (p : Progress) : Prop where
  | abreast (passing : p.passing = m.passing) (balance : p.index.parenBalance = m.depth)
  | behind (passing : p.passing = 0) (owes : m.passing ≠ 0)
      (balance : p.index.parenBalance = m.depth + 1)

/-- What the index knows of the calls and arrays that are open in the machine. -/
structure Shadows (before : List Token) (m : Machine) (p : Progress) (ahead : List Token) :
    Prop where
  attentive : Attentive before m ahead
  slack : 0 ≤ m.slack
  /-- The index awaits no function that the machine does not await. -/
  heading : p.heading = true → m.expecting = true
  level : Level m p
  bracketBalance : p.index.bracketBalance = if m.building then 1 else 0
  structural : p.index.structural = []
  /-- A function is noted only if one waits that is unknown. -/
  unknownFunctions : (∀ head ∈ m.functions, Registry.standard.contains head.name = true) →
    p.index.unknownFunctions = []

private theorem Shadows.abreast (shadows : Shadows before m p ahead) (passing : m.passing = 0) :
    p.passing = 0 ∧ p.index.parenBalance = m.depth := by
  cases shadows.level with
  | abreast same balance => exact ⟨same.trans passing, balance⟩
  | behind _ owes => exact absurd passing owes

/-! ## §2 One token -/

/-- What the index does with a name outside function position. -/
theorem exists_takeOther_of_name (index : Index) (at' : Position) {name : Text}
    (lexeme : token.lexeme = .identifier name) :
    ∃ undefinedConstants, takeOther index token at'
      = { index := { index with undefinedConstants } } := by
  rw [takeOther, takeToken, lexeme]
  dsimp only
  split <;> exact ⟨_, rfl⟩

private theorem takeOther_closeParen (index : Index) (at' : Position)
    (lexeme : token.lexeme = .closeParen)
    (opened : 0 < index.parenBalance) : takeOther index token at'
      = { index := { index with parenBalance := index.parenBalance - 1 } } := by
  have notBelow : ¬ index.parenBalance - 1 < 0 := by omega
  rw [takeOther, takeToken, lexeme]
  dsimp only
  rw [if_neg notBelow]

/-- A token that opens and closes nothing and names no function leaves the balances as they are. -/
theorem Shadows.of_silent (shadows : Shadows before m p (token :: ahead))
    (h : m.step .standard token ahead = .ok (next, event))
    (heading : q.heading = true → next.expecting = true) (level : Level next q)
    (building : next.building = m.building) (functions : next.functions = m.functions)
    (bracketBalance : q.index.bracketBalance = p.index.bracketBalance)
    (structural : q.index.structural = p.index.structural)
    (unknownFunctions : q.index.unknownFunctions = p.index.unknownFunctions) :
    Shadows (before ++ [token]) next q ahead where
  attentive := attentive_of_step h shadows.attentive
  slack := Int.le_trans shadows.slack (slack_le_of_step h)
  heading := heading
  level := level
  bracketBalance := by rw [bracketBalance, shadows.bracketBalance, building]
  structural := structural.trans shadows.structural
  unknownFunctions known := by
    rw [unknownFunctions]
    rw [functions] at known
    exact shadows.unknownFunctions known

/-- The rest of a definition: passed over by both, or read by the index as a name, a literal and
a close paren. -/
theorem Shadows.of_passed {left : Nat} (shadows : Shadows before m p (token :: ahead))
    (h : m.step .standard token ahead = .ok ({ m with passing := left }, event))
    (passing : m.passing = left + 1) :
    Shadows (before ++ [token]) { m with passing := left } (step place p token ahead) ahead := by
  have notExpecting : m.expecting = false := shadows.attentive.idle (by omega)
  cases shadows.level with
  | abreast same balance =>
    rw [step_of_passing (same.trans passing)]
    exact shadows.of_silent h shadows.heading (.abreast rfl balance) rfl rfl rfl rfl rfl
  | behind idle owes balance =>
    -- no function is awaited inside a definition, so the index reads its tokens as any others
    have notHeading : p.heading = false := by
      rw [← Bool.not_eq_true]
      intro heading
      rw [shadows.heading heading] at notExpecting
      cases notExpecting
    have owed := shadows.attentive.owed
    rw [passing] at owed
    rw [step_of_other idle (by simp [notHeading])]
    cases owed with
    | name lexeme rest =>
      obtain ⟨undefinedConstants, taken⟩ :=
        exists_takeOther_of_name p.index (place token.offset) lexeme
      rw [taken]
      exact shadows.of_silent h Bool.noConfusion (.behind rfl (Nat.succ_ne_zero _) balance)
        rfl rfl rfl rfl rfl
    | literal lexeme rest =>
      rw [takeOther, takeToken, lexeme]
      exact shadows.of_silent h Bool.noConfusion (.behind rfl (Nat.succ_ne_zero _) balance)
        rfl rfl rfl rfl rfl
    | close lexeme =>
      -- only here the index sees the call closed
      have bound := depth_nonneg_of_slack shadows.slack
      rw [takeOther_closeParen p.index _ lexeme (by omega)]
      refine shadows.of_silent h Bool.noConfusion (.abreast rfl ?_) rfl rfl rfl rfl rfl
      show p.index.parenBalance - 1 = m.depth
      omega

theorem Shadows.of_definition {key : Text} {bound : Scalar}
    (shadows : Shadows before m p (token :: ahead))
    (h : m.step .standard token ahead = .ok (m.define key bound, event)) (passing : m.passing = 0)
    (lexeme : token.lexeme = .identifier definitionWord)
    (form : definition token.offset ahead = .ok (key, bound)) :
    Shadows (before ++ [token]) (m.define key bound) (step place p token ahead) ahead := by
  obtain ⟨idle, balance⟩ := shadows.abreast passing
  by_cases heading : p.heading = true
  · obtain ⟨keyOffset, kind, found⟩ := definition?_of_definition form
    rw [step_of_definition idle heading lexeme found]
    refine shadows.of_silent h Bool.noConfusion (.abreast rfl ?_) rfl rfl rfl rfl rfl
    show p.index.parenBalance - 1 = m.depth - 1
    rw [balance]
  · -- inside brackets the index reads the word as the name of a constant
    obtain ⟨undefinedConstants, taken⟩ :=
      exists_takeOther_of_name p.index (place token.offset) lexeme
    rw [step_of_other idle (fun awaits => absurd awaits heading), taken]
    refine shadows.of_silent h Bool.noConfusion (.behind rfl (Nat.succ_ne_zero _) ?_)
      rfl rfl rfl rfl rfl
    show p.index.parenBalance = m.depth - 1 + 1
    omega

theorem Shadows.of_head {name : Text} (shadows : Shadows before m p (token :: ahead))
    (h : m.step .standard token ahead = .ok
      ({ m with expecting := false, functions := ⟨name, token.offset⟩ :: m.functions }, event))
    (passing : m.passing = 0) (lexeme : token.lexeme = .identifier name)
    (ordinary : name ≠ definitionWord) :
    Shadows (before ++ [token])
      { m with expecting := false, functions := ⟨name, token.offset⟩ :: m.functions }
      (step place p token ahead) ahead := by
  obtain ⟨idle, balance⟩ := shadows.abreast passing
  have attentive := attentive_of_step h shadows.attentive
  have slack := Int.le_trans shadows.slack (slack_le_of_step h)
  -- the functions that waited before are among those that wait now
  have earlier (known : ∀ head ∈ (⟨name, token.offset⟩ :: m.functions : List Head),
      Registry.standard.contains head.name = true) : p.index.unknownFunctions = [] :=
    shadows.unknownFunctions fun head pending => known head (List.mem_cons_of_mem _ pending)
  -- the index may be behind and take the name for that of a constant
  by_cases heading : p.heading = true
  · rw [step_of_head idle heading lexeme, takeHead, if_neg ordinary]
    split
    · exact ⟨attentive, slack, Bool.noConfusion, .abreast passing.symm balance,
        shadows.bracketBalance, shadows.structural, earlier⟩
    · -- an unknown name is noted, and from now on it waits among the functions
      rename_i unknown
      refine ⟨attentive, slack, Bool.noConfusion, .abreast passing.symm balance,
        shadows.bracketBalance, shadows.structural, fun known => ?_⟩
      exact absurd (known ⟨name, token.offset⟩ List.mem_cons_self) unknown
  · obtain ⟨undefinedConstants, taken⟩ :=
      exists_takeOther_of_name p.index (place token.offset) lexeme
    rw [step_of_other idle (fun awaits => absurd awaits heading), taken]
    exact ⟨attentive, slack, Bool.noConfusion, .abreast passing.symm balance,
      shadows.bracketBalance, shadows.structural, earlier⟩

theorem Shadows.of_literal (shadows : Shadows before m p (token :: ahead))
    (h : m.step .standard token ahead = .ok (next, event)) (passing : m.passing = 0)
    (literal : token.lexeme.isLiteral = true) (calls : next.calls = m.calls)
    (building : next.building = m.building) :
    Shadows (before ++ [token]) next (step place p token ahead) ahead := by
  obtain ⟨idle, balance⟩ := shadows.abreast passing
  obtain ⟨ignoredValues, stepped⟩ :=
    exists_step_of_isLiteral place ahead idle literal
  have expecting : next.expecting = m.expecting := congrArg Calls.expecting calls
  have stays : next.passing = 0 := (congrArg Calls.passing calls).trans passing
  have depth : next.depth = m.depth := congrArg Calls.depth calls
  rw [stepped]
  refine shadows.of_silent h ?_ ?_ building (congrArg Calls.functions calls) rfl rfl rfl
  · rw [expecting]
    exact shadows.heading
  · exact .abreast (idle.trans stays.symm) (balance.trans depth.symm)

private theorem Shadows.of_closeParen {functions : List Head} {values : List Value} {head : Head}
    (shadows : Shadows before m p (token :: ahead))
    (h : m.step .standard token ahead = .ok
      ({ m with depth := m.depth - 1, expecting := false, functions, values }, event))
    (passing : m.passing = 0) (lexeme : token.lexeme = .closeParen) (depth : 0 < m.depth)
    (pending : m.functions = head :: functions)
    (known : Registry.standard.contains head.name = true) :
    Shadows (before ++ [token])
      { m with depth := m.depth - 1, expecting := false, functions, values }
      (step place p token ahead) ahead := by
  obtain ⟨idle, balance⟩ := shadows.abreast passing
  have opened : 0 < p.index.parenBalance := balance ▸ depth
  rw [step_of_other idle fun _ => by simp [isName, lexeme, Lexeme.isLiteral],
    takeOther_closeParen p.index _ lexeme opened]
  refine ⟨attentive_of_step h shadows.attentive, Int.le_trans shadows.slack (slack_le_of_step h),
    Bool.noConfusion, .abreast passing.symm ?_, shadows.bracketBalance, shadows.structural, ?_⟩
  · show p.index.parenBalance - 1 = m.depth - 1
    rw [balance]
  · -- the function that is applied was found
    intro others
    apply shadows.unknownFunctions
    rw [pending]
    exact List.forall_mem_cons.mpr ⟨known, others⟩

/-- A bracket changes the balance of brackets as it changes whether an array is open. -/
theorem Shadows.of_bracket {building : Bool} {buffer : List Scalar} {values : List Value}
    {balance : Int} (shadows : Shadows before m p (token :: ahead))
    (h : m.step .standard token ahead = .ok ({ m with values, building, buffer }, event))
    (passing : m.passing = 0)
    (stepped : step place p token ahead = { index := { p.index with bracketBalance := balance } })
    (bracketBalance : balance = if building then 1 else 0) :
    Shadows (before ++ [token]) { m with values, building, buffer }
      (step place p token ahead) ahead := by
  have parenBalance := (shadows.abreast passing).2
  rw [stepped]
  exact ⟨attentive_of_step h shadows.attentive, Int.le_trans shadows.slack (slack_le_of_step h),
    Bool.noConfusion, .abreast passing.symm parenBalance, bracketBalance, shadows.structural,
    shadows.unknownFunctions⟩

private theorem Shadows.step_openBracket (shadows : Shadows before m p (token :: ahead))
    (passing : m.passing = 0) (lexeme : token.lexeme = .openBracket)
    (outside : m.building = false) :
    step place p token ahead = { index := { p.index with bracketBalance := 1 } } := by
  obtain ⟨idle, -⟩ := shadows.abreast passing
  have none : p.index.bracketBalance = 0 := by
    rw [shadows.bracketBalance, outside]
    rfl
  rw [step_of_other idle (fun _ => by simp [isName, lexeme, Lexeme.isLiteral]), takeOther,
    takeToken, lexeme]
  dsimp only
  rw [none]
  rfl

private theorem Shadows.step_closeBracket (shadows : Shadows before m p (token :: ahead))
    (passing : m.passing = 0) (lexeme : token.lexeme = .closeBracket)
    (building : m.building = true) :
    step place p token ahead = { index := { p.index with bracketBalance := 0 } } := by
  obtain ⟨idle, -⟩ := shadows.abreast passing
  have one : p.index.bracketBalance = 1 := by
    rw [shadows.bracketBalance, building]
    rfl
  rw [step_of_other idle (fun _ => by simp [isName, lexeme, Lexeme.isLiteral]), takeOther,
    takeToken, lexeme]
  dsimp only
  rw [one]
  rfl

/-- **The index shadows the machine**: a token that is accepted keeps the balances together. -/
theorem shadows_of_step (h : m.step .standard token ahead = .ok (next, event))
    (shadows : Shadows before m p (token :: ahead)) :
    Shadows (before ++ [token]) next (step place p token ahead) ahead := by
  cases transition_of_step h with
  | passed left passing => exact shadows.of_passed h passing
  | defined key bound passing expecting lexeme form =>
    exact shadows.of_definition h passing lexeme form
  | headed name passing expecting lexeme ordinary =>
    exact shadows.of_head h passing lexeme ordinary
  | blank text passing lexeme =>
    obtain ⟨idle, balance⟩ := shadows.abreast passing
    rw [step_of_other idle (fun _ => by simp [isName, lexeme, Lexeme.isLiteral]), takeOther,
      takeToken, lexeme]
    exact shadows.of_silent h Bool.noConfusion (.abreast passing.symm balance) rfl rfl rfl rfl rfl
  -- The index may or may not know the constant, but not knowing it is no matter of balances.
  | referred name bound passing expecting lexeme found =>
    obtain ⟨idle, balance⟩ := shadows.abreast passing
    obtain ⟨undefinedConstants, taken⟩ :=
      exists_takeOther_of_name p.index (place token.offset) lexeme
    have notHeading : ¬ p.heading = true := by
      intro heading
      rw [shadows.heading heading] at expecting
      cases expecting
    rw [step_of_other idle (fun awaits => absurd awaits notHeading), taken]
    exact shadows.of_silent h Bool.noConfusion (.abreast passing.symm balance) rfl rfl rfl rfl rfl
  | dropped _ _ passing _ lexeme | collected _ _ passing _ lexeme | shifted _ _ passing _ lexeme =>
    exact shadows.of_literal h passing (by rw [lexeme]; rfl) rfl rfl
  -- Both count the paren, and both await a function behind it.
  | opened passing lexeme outside =>
    obtain ⟨idle, balance⟩ := shadows.abreast passing
    rw [step_of_other idle (fun _ => by simp [isName, lexeme, Lexeme.isLiteral]), takeOther,
      takeToken, lexeme]
    refine shadows.of_silent h (fun _ => rfl) (.abreast passing.symm ?_) rfl rfl rfl rfl rfl
    show p.index.parenBalance + 1 = m.depth + 1
    rw [balance]
  -- A function that is applied was found, so the index has noted nothing about it.
  | applied head waiting builtin arguments values result passing lexeme _ depth pending found =>
    have known : Registry.standard.contains head.name = true := by
      rw [OrderedMap.contains, found, Option.isSome_some]
    exact shadows.of_closeParen h passing lexeme depth pending known
  | arrayOpened passing lexeme outside =>
    exact shadows.of_bracket h passing (shadows.step_openBracket passing lexeme outside) rfl
  | arrayClosed passing lexeme building =>
    exact shadows.of_bracket h passing (shadows.step_closeBracket passing lexeme building) rfl

/-! ## §3 Texts that have a value -/

private theorem shadows_start (tokens : List Token) : Shadows [] { env := {} } {} tokens where
  attentive := ⟨.nothing _, by simp [not_functionDue_nil], fun _ => rfl⟩
  slack := Int.le_refl _
  heading := Bool.noConfusion
  level := .abreast rfl rfl
  bracketBalance := rfl
  structural := rfl
  unknownFunctions _ := rfl

/-- Behind tokens that leave no call and no array open, no function waiting and nothing owed, the
balances are zero and nothing else is noted but names of constants. -/
theorem scan_of_reaches (place : Int → Position) {tokens : List Token} {env : Environment}
    {values : List Value} (reached : Reaches .standard [] { env := {} } tokens { env, values }) :
    (scan place {} tokens).parenBalance = 0 ∧ (scan place {} tokens).bracketBalance = 0 ∧
    (scan place {} tokens).structural = [] ∧ (scan place {} tokens).unknownFunctions = [] := by
  obtain ⟨q, scanned, shadows⟩ :=
    exists_scan_of_reaches place shadows_of_step reached [] (shadows_start _)
  rw [List.append_nil] at scanned
  rw [scanned]
  exact ⟨(shadows.abreast rfl).2, shadows.bracketBalance, shadows.structural,
    shadows.unknownFunctions fun _ pending => absurd pending List.not_mem_nil⟩

private theorem undefinedConstants_of_reaches {tokens : List Token}
    (reached : Reaches .standard [] { env := {} } tokens last) (bare : HeadsBare tokens)
    (solid : ∀ t ∈ tokens, t.lexeme.isBlank = false) :
    (scan place {} tokens).undefinedConstants = [] := by
  have start := inStep_start bare solid
  rw [← List.append_nil tokens] at start
  obtain ⟨q, scanned, together⟩ :=
    exists_scan_of_reaches place inStep_of_step reached [] start
  rw [List.append_nil] at scanned
  rw [scanned]
  exact together.undefinedConstants

/-- **No false alarm about the form of a text or about functions.** If a text has a value, then
the balances of its index are zero, and the index reports no problem of form and no unknown
function. It reports no undefined constant either, if no bracket stands between an open paren and
the next name or paren. -/
theorem ofText_of_evaluate (text : Text) (value : Value) (h : evaluate text = .ok value) :
    (ofText text).parenBalance = 0 ∧ (ofText text).bracketBalance = 0 ∧
    (ofText text).structural = [] ∧ (ofText text).unknownFunctions = [] ∧
    (HeadsBare (significant (read text)) → (ofText text).undefinedConstants = []) := by
  have ran : (run .standard { env := {} } (significant (read text))).result = .ok value := h
  obtain ⟨env, values, reached, -⟩ := exists_settled ran
  obtain ⟨parens, brackets, form, functions⟩ :=
    scan_of_reaches (placeIn text) reached
  rw [ofText_eq]
  refine ⟨parens, brackets, form, functions, fun bare => ?_⟩
  exact undefinedConstants_of_reaches reached bare (solid_significant _)

/-- A text in which the brackets behind a head hold a name. -/
def chosenText : Text := "(def x true) (if x [\"a\" x] false)"

/-- The tokens of its definition. -/
def chosenBinding : List Token :=
  [⟨.openParen, 0⟩, ⟨.identifier "def", 1⟩, ⟨.identifier "x", 5⟩,
    ⟨.literal .boolean (.boolean true), 7⟩, ⟨.closeParen, 11⟩]

/-- The tokens of its call. -/
def chosenCall : List Token :=
  [⟨.openParen, 13⟩, ⟨.identifier "if", 14⟩, ⟨.identifier "x", 17⟩, ⟨.openBracket, 19⟩,
    ⟨.literal .string (.string "a"), 20⟩, ⟨.identifier "x", 24⟩, ⟨.closeBracket, 25⟩,
    ⟨.literal .boolean (.boolean false), 27⟩, ⟨.closeParen, 32⟩]

theorem ofText_of_evaluate_chosenText :
    evaluate chosenText = .ok (.array [.string "a"]) ∧
    HeadsBare (significant (read chosenText)) ∧ (ofText chosenText).parenBalance = 0 ∧
    (ofText chosenText).structural = [] ∧ (ofText chosenText).undefinedConstants = [] := by
  have tokens : significant (read chosenText) = chosenBinding ++ chosenCall := by
    rw [read_eq_onePassFrom]
    decide +kernel
  have bound : Reaches .standard chosenCall { env := {} } chosenBinding
      { env := ⟨[("x", .boolean true)]⟩, values := [.boolean true] } :=
    .step rfl (.step rfl (.step rfl (.step rfl (.step rfl (.refl _)))))
  have value : evaluate chosenText = .ok (.array [.string "a"]) := by
    show (run .standard _ (significant (read chosenText))).result = _
    rw [tokens, bound.run_append]
    rfl
  have bare : HeadsBare (significant (read chosenText)) := by
    rw [tokens]
    decide
  obtain ⟨parens, -, form, -, constants⟩ := ofText_of_evaluate chosenText _ value
  exact ⟨value, bare, parens, form, constants bare⟩

/-- A false alarm: the machine calls the function that is named inside the brackets, and the index
takes the name for that of a constant, which is not defined. -/
theorem undefinedConstants_bracketedHead :
    evaluate "([if] true false true)" = .ok (.boolean false) ∧
    (ofText "([if] true false true)").undefinedConstants
      = [⟨.undefinedConstant "if", ⟨0, 2⟩⟩] := by
  have tokens : significant (read "([if] true false true)") = [⟨.openParen, 0⟩,
      ⟨.openBracket, 1⟩, ⟨.identifier "if", 2⟩, ⟨.closeBracket, 4⟩,
      ⟨.literal .boolean (.boolean true), 6⟩, ⟨.literal .boolean (.boolean false), 11⟩,
      ⟨.literal .boolean (.boolean true), 17⟩, ⟨.closeParen, 21⟩] := by
    rw [read_eq_onePassFrom]
    decide +kernel
  constructor
  · show (run .standard _ (significant (read "([if] true false true)"))).result = _
    rw [tokens]
    rfl
  · rw [ofText_eq]
    rw [tokens]
    decide +kernel

end PrefixCalc.Index
