import PrefixCalc.Proofs.Machine.Constants

/-!
# What a run asks of its environment

A run asks its environment for the values of names, and for nothing else. So two environments that
give the same answers lead to the same run, and each of them is left with the same definitions.
Which functions a run applies hangs on even less: the calls that are open, with the names that wait
in them, follow from the tokens alone, whatever is bound to those names.
-/

namespace PrefixCalc

/-- What an event binds. -/
def Event.binding? : Event → Option (Text × Scalar)
  | .defined name value => some (name, value)
  | .applied .. => none

namespace Machine

open Token

variable {registry : Registry} {m m' next : Machine} {token : Token} {ahead tokens : List Token}
  {event : Option Event}

/-! ## §1 Visits -/

/-- A token that a run comes to: the machine in front of it, and what it tells if it is
accepted. -/
structure Visit where
  machine : Machine
  token : Token
  event : Option Event

/-- The tokens that a run comes to, the one that is refused included. -/
def visits (registry : Registry) (m : Machine) : List Token → List Visit
  | [] => []
  | token :: ahead =>
    match m.step registry token ahead with
    | .error _ => [⟨m, token, none⟩]
    | .ok (next, event) => ⟨m, token, event⟩ :: visits registry next ahead

/-- The name whose value is asked for at a token: a name where no function is due. -/
def asked? (m : Machine) (token : Token) : Option Text :=
  match m.passing, m.expecting, token.lexeme with
  | 0, false, .identifier name => some name
  | _, _, _ => none

/-- The function that is applied at a token: at a close paren, that of the newest name that waits
for one. -/
def Calls.callee? (registry : Registry) (c : Calls) (token : Token) : Option Builtin :=
  match c.passing, token.lexeme, c.functions with
  | 0, .closeParen, head :: _ => registry.get? head.name
  | _, _, _ => none

namespace Visit

/-- What was told, in order. -/
def events (visits : List Visit) : List Event := visits.filterMap Visit.event

/-- What was bound, in order. -/
def bindings (visits : List Visit) : List (Text × Scalar) :=
  (events visits).filterMap Event.binding?

/-- The names that were asked for and not bound before, `own` being bound at the start. -/
def borrowed (own : List Text) : List Visit → List Text
  | [] => []
  | v :: later =>
    (v.machine.asked? v.token).toList.filter (· ∉ own)
      ++ borrowed (own ++ (bindings [v]).map Prod.fst) later

/-- The function that was applied at each of the tokens, if one was. -/
def callees (registry : Registry) (visits : List Visit) : List (Option Builtin) :=
  visits.map fun v => v.machine.calls.callee? registry v.token

private theorem bindings_cons (v : Visit) (later : List Visit) :
    bindings (v :: later) = bindings [v] ++ bindings later := by
  rw [bindings, bindings, bindings, ← List.filterMap_append, events, events, events,
    ← List.filterMap_append, List.singleton_append]

end Visit

open Visit

theorem visits_cons_of_step (h : m.step registry token ahead = .ok (next, event)) :
    visits registry m (token :: ahead) = ⟨m, token, event⟩ :: visits registry next ahead := by
  simp only [visits, h]

theorem visits_cons_of_error {failure : Failure}
    (h : m.step registry token ahead = .error failure) :
    visits registry m (token :: ahead) = [⟨m, token, none⟩] := by
  simp only [visits, h]

/-! ## §2 What a run binds -/

/-- The environment after an event. -/
def imprint (env : Environment) (event : Option Event) : Environment :=
  env.insertAll ((event.bind Event.binding?).toList.map entry)

private theorem insertAll_bindings_cons (env : Environment) (later : List Visit) :
    env.insertAll ((bindings (⟨m, token, event⟩ :: later)).map entry)
      = (imprint env event).insertAll ((bindings later).map entry) := by
  rw [bindings_cons, List.map_append, OrderedMap.insertAll, List.foldl_append]
  cases event with
  | none => rfl
  | some told => cases told <;> rfl

private theorem env_of_step (h : m.step registry token ahead = .ok (next, event)) :
    next.env = imprint m.env event := by
  cases transition_of_step h <;> rfl

/-- A run does nothing to the environment but bind what it tells. -/
theorem env_run_eq_insertAll (registry : Registry) (m : Machine) (tokens : List Token) :
    (run registry m tokens).env
      = m.env.insertAll ((bindings (visits registry m tokens)).map entry) := by
  induction tokens generalizing m with
  | nil => rfl
  | cons token ahead ih =>
    cases stepped : m.step registry token ahead with
    | error failure =>
      rw [visits_cons_of_error stepped, run, stepped]
      rfl
    | ok made =>
      rw [visits_cons_of_step stepped, run_cons_of_step stepped, ih, insertAll_bindings_cons,
        env_of_step stepped]

/-! ## §3 Environments that give the same answers -/

/-- A machine in another environment. -/
def withEnv (m : Machine) (env : Environment) : Machine := { m with env }

private theorem closeCall_withEnv (m : Machine) (env : Environment) (offset : Int) :
    closeCall registry (m.withEnv env) offset
      = (closeCall registry m offset).map fun made =>
          (made.1.withEnv (imprint env made.2), made.2) := by
  have building : (m.withEnv env).building = m.building := rfl
  have depth : (m.withEnv env).depth = m.depth := rfl
  unfold closeCall
  rw [building, depth]
  split
  · rfl
  split
  · rfl
  -- the function, its arguments and its result are the same in any environment
  have functions : (m.withEnv env).functions = m.functions := rfl
  have values : (m.withEnv env).values = m.values := rfl
  unfold reduce
  simp only [functions, values]
  cases m.functions with
  | nil => rfl
  | cons head functions =>
    simp only
    cases registry.get? head.name with
    | none => rfl
    | some b =>
      simp only
      cases takeArguments head b.arity b.parameters.reverse [] m.values with
      | error failure => rfl
      | ok taken =>
        show ((invoke b head taken.1 >>= _) >>= _)
          = Except.map _ ((invoke b head taken.1 >>= _) >>= _)
        cases invoke b head taken.1 <;> rfl

/-- **Answers decide a step**: in an environment that gives the same answer to what is asked at
the token, the step is the same. -/
theorem step_withEnv (m : Machine) (env : Environment) (token : Token) (ahead : List Token)
    (same : ∀ name ∈ m.asked? token, env.get? name = m.env.get? name) :
    (m.withEnv env).step registry token ahead
      = (m.step registry token ahead).map fun made =>
          (made.1.withEnv (imprint env made.2), made.2) := by
  -- the machine and the token are taken apart, so that the step can be computed
  obtain ⟨own, depth, functions, values, expecting, building, buffer, passing⟩ := m
  obtain ⟨lexeme, offset⟩ := token
  cases passing with
  | succ left => rfl
  | zero =>
    cases lexeme with
    | whitespace text => rfl
    | literal kind value => cases expecting <;> cases building <;> rfl
    | openParen | openBracket | closeBracket => cases building <;> rfl
    | closeParen =>
      exact closeCall_withEnv ⟨own, depth, functions, values, expecting, building, buffer, 0⟩ env
        offset
    -- Only a name in value position asks anything; the word of a definition binds without asking.
    | identifier name =>
      cases expecting with
      | true =>
        show takeHead _ name offset ahead = (takeHead _ name offset ahead).map _
        unfold takeHead
        split
        · cases definition offset ahead <;> rfl
        · rfl
      | false =>
        have answer : env.get? name = own.get? name := same name rfl
        show (env.lookup name (some offset) >>= _) = (own.lookup name (some offset) >>= _).map _
        unfold Environment.lookup
        rw [answer]
        cases own.get? name <;> rfl

private theorem get?_imprint {env env' : Environment} {name : Text}
    (h : name ∈ (bindings [⟨m, token, event⟩]).map Prod.fst ∨ env.get? name = env'.get? name) :
    (imprint env event).get? name = (imprint env' event).get? name := by
  rcases event with _ | ⟨key, value⟩ | ⟨head, arguments, result⟩
  · exact h.resolve_left nofun
  · show (env.insert key _).get? name = (env'.insert key _).get? name
    by_cases bound : key = name
    · rw [bound, OrderedMap.get?_insert_self, OrderedMap.get?_insert_self]
    · rw [OrderedMap.get?_insert_of_ne env bound, OrderedMap.get?_insert_of_ne env' bound]
      exact h.resolve_left fun member => bound (List.mem_singleton.mp member).symm
  · exact h.resolve_left nofun

/-- **Answers decide a run.** -/
theorem run_withEnv (own : List Text) (m : Machine) (env : Environment) (tokens : List Token)
    (known : ∀ name ∈ own, env.get? name = m.env.get? name)
    (same : ∀ name ∈ borrowed own (visits registry m tokens), env.get? name = m.env.get? name) :
    (run registry (m.withEnv env) tokens).result = (run registry m tokens).result ∧
    events (visits registry (m.withEnv env) tokens) = events (visits registry m tokens) := by
  induction tokens generalizing own m env with
  | nil => exact ⟨rfl, rfl⟩
  | cons token ahead ih =>
    -- what is asked at the token is bound already, or it is borrowed
    have answers (event : Option Event) (later : List Visit)
        (split : visits registry m (token :: ahead) = ⟨m, token, event⟩ :: later) :
        ∀ name ∈ m.asked? token, env.get? name = m.env.get? name := by
      intro name asked
      by_cases bound : name ∈ own
      · exact known name bound
      · apply same
        rw [split, borrowed]
        exact List.mem_append_left _
          (List.mem_filter.mpr ⟨by simpa using asked, by simpa using bound⟩)
    cases stepped : m.step registry token ahead with
    | error failure =>
      have split := visits_cons_of_error stepped
      have stepped' : (m.withEnv env).step registry token ahead = .error failure := by
        rw [step_withEnv m env token ahead (answers _ _ split), stepped]
        rfl
      rw [split, visits_cons_of_error stepped', run, run, stepped, stepped']
      exact ⟨rfl, rfl⟩
    | ok made =>
      obtain ⟨next, event⟩ := made
      have split := visits_cons_of_step stepped
      have stepped' : (m.withEnv env).step registry token ahead
          = .ok (next.withEnv (imprint env event), event) := by
        rw [step_withEnv m env token ahead (answers _ _ split), stepped]
        rfl
      have agree (name : Text) (h : name ∈ (bindings [⟨m, token, event⟩]).map Prod.fst ∨
          env.get? name = m.env.get? name) :
          (imprint env event).get? name = next.env.get? name := by
        rw [env_of_step stepped]
        exact get?_imprint h
      rw [split, borrowed] at same
      rw [split, visits_cons_of_step stepped', run_cons_of_step stepped, run_cons_of_step stepped']
      -- what the step binds counts as known from here on, and the rest is borrowed later
      obtain ⟨result, told⟩ := ih _ next (imprint env event)
        (fun name member => agree name ((List.mem_append.mp member).symm.imp_right (known name)))
        (fun name member => agree name (.inr (same name (List.mem_append_right _ member))))
      refine ⟨result, ?_⟩
      cases event with
      | none => exact told
      | some first => exact congrArg (first :: ·) told

/-! ## §4 Calls in any environment -/

/-- What a token makes of the calls that are open, if it is accepted. -/
def Calls.after (c : Calls) (token : Token) : Calls :=
  match c.passing with
  | left + 1 => { c with passing := left }
  | 0 =>
    match token.lexeme with
    | .openParen => { c with depth := c.depth + 1, expecting := true }
    | .closeParen => ⟨c.depth - 1, c.functions.tail, false, 0⟩
    | .identifier name =>
      if c.expecting then
        if name = definitionWord then ⟨c.depth - 1, c.functions, false, 3⟩
        else ⟨c.depth, ⟨name, token.offset⟩ :: c.functions, false, 0⟩
      else c
    | _ => c

/-- **The calls follow from the tokens**, and from no constant and no value. -/
theorem calls_of_step (h : m.step registry token ahead = .ok (next, event)) :
    next.calls = m.calls.after token := by
  cases transition_of_step h with
  | passed left passing => simp [calls, Calls.after, passing]
  | blank _ passing lexeme | dropped _ _ passing _ lexeme | collected _ _ passing _ lexeme
  | shifted _ _ passing _ lexeme | arrayOpened passing lexeme | arrayClosed passing lexeme
  | opened passing lexeme => simp [calls, Calls.after, passing, lexeme]
  | referred _ _ passing expecting lexeme =>
    simp [calls, Calls.after, passing, lexeme, expecting]
  | defined _ _ passing expecting lexeme =>
    simp [calls, Calls.after, passing, lexeme, expecting, define]
  | headed _ passing expecting lexeme ordinary =>
    simp [calls, Calls.after, passing, lexeme, expecting, ordinary]
  | applied _ _ _ _ _ _ passing lexeme _ _ pending =>
    simp [calls, Calls.after, passing, lexeme, pending]

/-- What is told at a token is what the function that is applied there makes of the arguments. -/
theorem callee?_of_applied {name : Text} {arguments : List Value} {result : Value}
    (h : m.step registry token ahead = .ok (next, some (.applied name arguments result))) :
    ∃ b head, m.calls.callee? registry token = some b ∧ head.name = name ∧
      invoke b head arguments = .ok result := by
  cases transition_of_step h with
  | applied head functions b _ values _ passing lexeme _ _ pending known _ invoked =>
    refine ⟨b, head, ?_, rfl, invoked⟩
    simp [calls, Calls.callee?, passing, lexeme, pending, known]

private theorem callee?_of_told {v : Visit} (member : v ∈ visits registry m tokens) {name : Text}
    {arguments : List Value} {result : Value}
    (told : v.event = some (.applied name arguments result)) :
    ∃ b head, v.machine.calls.callee? registry v.token = some b ∧ head.name = name ∧
      invoke b head arguments = .ok result := by
  induction tokens generalizing m with
  | nil => cases member
  | cons token ahead ih =>
    cases stepped : m.step registry token ahead with
    | error failure =>
      rw [visits_cons_of_error stepped, List.mem_singleton] at member
      subst member
      cases told
    | ok made =>
      rw [visits_cons_of_step stepped] at member
      rcases List.mem_cons.mp member with rfl | later
      · obtain ⟨next, event⟩ := made
        obtain rfl : event = some (.applied name arguments result) := told
        exact callee?_of_applied stepped
      · exact ih later

/-- Two runs of the same tokens apply the same functions at the tokens that both come to. -/
theorem callees_comparable (same : m.calls = m'.calls) (tokens : List Token) :
    callees registry (visits registry m tokens) <+: callees registry (visits registry m' tokens) ∨
    callees registry (visits registry m' tokens)
      <+: callees registry (visits registry m tokens) := by
  induction tokens generalizing m m' with
  | nil => exact .inl List.nil_prefix
  | cons token ahead ih =>
    have first : m.calls.callee? registry token = m'.calls.callee? registry token := by rw [same]
    -- The calls are the same, so the first callees are. The run that stops first has the shorter
    -- list.
    cases stepped : m.step registry token ahead with
    | error failure =>
      refine .inl ?_
      rw [visits_cons_of_error stepped]
      cases stepped' : m'.step registry token ahead with
      | error failure' =>
        rw [visits_cons_of_error stepped']
        simp [callees, first]
      | ok made' =>
        rw [visits_cons_of_step stepped']
        simp [callees, first]
    | ok made =>
      rw [visits_cons_of_step stepped]
      cases stepped' : m'.step registry token ahead with
      | error failure' =>
        refine .inr ?_
        rw [visits_cons_of_error stepped']
        simp [callees, first]
      | ok made' =>
        have next : made.1.calls = made'.1.calls := by
          rw [calls_of_step stepped, calls_of_step stepped', same]
        rw [visits_cons_of_step stepped']
        simpa [callees, first] using ih next

/-! ## §5 The law -/

/-- The tokens that an evaluation comes to. -/
def visited (registry : Registry) (env : Environment) (tokens : List Token) : List Visit :=
  visits registry { env } (significant tokens)

/-- **Constants never influence calls.** If two environments give the same answer for each name that
an evaluation in the first one asks for and has not bound itself, then the evaluation in the
second one ends in the same way, tells the same, and adds the same definitions in the same order.
And in any two environments the same functions are applied at the tokens that both evaluations come
to, whatever names are bound; what they make of their arguments is what is told there. -/
theorem evaluate_of_answers (registry : Registry) (env env' : Environment) (tokens : List Token) :
    ((∀ name ∈ borrowed [] (visited registry env tokens), env'.get? name = env.get? name) →
      (evaluate registry env' tokens).result = (evaluate registry env tokens).result ∧
      events (visited registry env' tokens) = events (visited registry env tokens) ∧
      (evaluate registry env tokens).env
        = env.insertAll ((bindings (visited registry env tokens)).map entry) ∧
      (evaluate registry env' tokens).env
        = env'.insertAll ((bindings (visited registry env tokens)).map entry)) ∧
    (callees registry (visited registry env tokens)
        <+: callees registry (visited registry env' tokens) ∨
      callees registry (visited registry env' tokens)
        <+: callees registry (visited registry env tokens)) ∧
    ∀ v ∈ visited registry env tokens, ∀ name arguments result,
      v.event = some (.applied name arguments result) →
      ∃ b head, v.machine.calls.callee? registry v.token = some b ∧ head.name = name ∧
        invoke b head arguments = .ok result := by
  refine ⟨fun same => ?_, ?_,
    fun v member name arguments result told => callee?_of_told member told⟩
  · obtain ⟨result, told⟩ := run_withEnv [] { env } env' (significant tokens) nofun same
    have bound : bindings (visited registry env' tokens) = bindings (visited registry env tokens) :=
      congrArg (List.filterMap Event.binding?) told
    refine ⟨result, told, env_run_eq_insertAll registry { env } _, ?_⟩
    rw [← bound]
    exact env_run_eq_insertAll registry { env := env' } _
  · have same : calls { env } = calls { env := env' } := rfl
    exact callees_comparable same (significant tokens)

/-- The tokens of `(def y "a") (concat x (concat y "c"))`. -/
def joinedNames : List Token :=
  [⟨.openParen, 0⟩, ⟨.identifier "def", 1⟩, ⟨.identifier "y", 5⟩,
   ⟨.literal .string (.string "a"), 7⟩, ⟨.closeParen, 10⟩, ⟨.openParen, 12⟩,
   ⟨.identifier "concat", 13⟩, ⟨.identifier "x", 20⟩, ⟨.openParen, 22⟩,
   ⟨.identifier "concat", 23⟩, ⟨.identifier "y", 30⟩, ⟨.literal .string (.string "c"), 32⟩,
   ⟨.closeParen, 35⟩, ⟨.closeParen, 36⟩]

/-- What they need: a value for `x`. -/
def neededNames : Environment := ⟨[("x", .string "b")]⟩

/-- The same value for `x`, and values for a builtin, for the word that opens a definition and for
what the tokens bind themselves. -/
def crowdedNames : Environment :=
  ⟨[("concat", .string "p"), ("y", .string "q"), ("def", .string "if"), ("x", .string "b")]⟩

/-- Only `x` is borrowed. -/
theorem evaluate_of_answers_joinedNames :
    (evaluate .standard neededNames joinedNames).result = .ok (.string "bac") ∧
    (evaluate .standard crowdedNames joinedNames).result = .ok (.string "bac") ∧
    (evaluate .standard crowdedNames joinedNames).env
      = ⟨[("concat", .string "p"), ("y", .string "a"), ("def", .string "if"),
          ("x", .string "b")]⟩ := by
  have names : borrowed [] (visited .standard neededNames joinedNames) = [("x" : Text)] := by rfl
  have value : (evaluate .standard neededNames joinedNames).result = .ok (.string "bac") := by rfl
  have same : ∀ name ∈ borrowed [] (visited .standard neededNames joinedNames),
      crowdedNames.get? name = neededNames.get? name := by
    rw [names]
    exact List.forall_mem_singleton.mpr rfl
  obtain ⟨result, -, -, left⟩ :=
    (evaluate_of_answers .standard neededNames crowdedNames joinedNames).1 same
  exact ⟨value, result.trans value, left.trans rfl⟩

end Machine

end PrefixCalc
