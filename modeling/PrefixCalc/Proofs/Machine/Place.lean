import PrefixCalc.Proofs.Machine.Call

/-!
# Places

Where a token stands matters only to the complaint about it. Two evaluations of tokens that say
the same, at whatever places, take the same steps, leave the same constants and end alike: in the
same value, or in failures that may blame different places but tell of the same mistake.
-/

namespace PrefixCalc

/-! ## §1 Without places -/

/-- A failure without the place that it blames. -/
def Failure.unplaced : Failure → Failure
  | refused cause _ => refused cause none
  | other => other

/-- A function name that waits, at no place in particular. -/
def Head.unplaced (head : Head) : Head := ⟨head.name, 0⟩

/-- A token at no place in particular. -/
def Token.unplaced (t : Token) : Token := ⟨t.lexeme, 0⟩

/-- A machine that does not know where its functions stand. -/
def Machine.unplaced (m : Machine) : Machine :=
  { m with functions := m.functions.map Head.unplaced }

/-- An ending without the place that it blames. -/
def Machine.Outcome.unplaced (o : Machine.Outcome) : Machine.Outcome :=
  { o with result := o.result.mapError Failure.unplaced }

private theorem Machine.unplaced_unplaced (m : Machine) : m.unplaced.unplaced = m.unplaced := by
  have twice : Head.unplaced ∘ Head.unplaced = Head.unplaced := rfl
  simp only [unplaced, List.map_map, twice]

private theorem Failure.unplaced_blame (offset : Int) (failure : Failure) :
    (failure.blame offset).unplaced = failure.unplaced := by
  cases failure with
  | refused cause place => cases place <;> rfl
  | exceeded limit | misused misuse => rfl

/-- Tokens say the same exactly if they are the same without their places. -/
theorem Token.map_unplaced_eq {tokens tokens' : List Token}
    (h : tokens.map lexeme = tokens'.map lexeme) :
    tokens.map unplaced = tokens'.map unplaced := by
  have factor : unplaced = (fun lexeme => ⟨lexeme, 0⟩) ∘ lexeme := rfl
  rw [factor, ← List.map_map, ← List.map_map, h]

namespace Machine

variable {registry : Registry} {m m' : Machine} {token token' : Token}
  {ahead ahead' tokens tokens' : List Token}

/-! ## §2 Parts of a step -/

private theorem definition_unplaced (offset offset' : Int) (ahead : List Token) :
    (definition offset (ahead.map Token.unplaced)).mapError Failure.unplaced
      = (definition offset' ahead).mapError Failure.unplaced := by
  rcases ahead with _ | ⟨key, _ | ⟨value, _ | ⟨close, rest⟩⟩⟩
  · rfl
  · rfl
  · rfl
  · -- the three tokens are checked in their order
    simp only [List.map_cons, definition, Token.unplaced]
    cases key.lexeme with
    | identifier name =>
      cases value.lexeme with
      | literal kind bound => cases close.lexeme <;> rfl
      | _ => rfl
    | _ => rfl

private theorem takeArguments_unplaced (head : Head) (arity : Nat) (pending : List ParameterKind)
    (taken values : List Value) :
    (takeArguments head.unplaced arity pending taken values).mapError Failure.unplaced
      = (takeArguments head arity pending taken values).mapError Failure.unplaced := by
  induction pending generalizing taken values with
  | nil => rfl
  | cons expected pending ih =>
    cases values with
    | nil => rfl
    | cons v values =>
      rw [takeArguments, takeArguments]
      split
      · exact ih (v :: taken) values
      · rfl

private theorem invoke_unplaced (b : Builtin) (head : Head) (arguments : List Value) :
    (invoke b head.unplaced arguments).mapError Failure.unplaced
      = (invoke b head arguments).mapError Failure.unplaced := by
  unfold invoke
  cases b.run arguments with
  | ok value => rfl
  | error failure =>
    show Except.error _ = Except.error _
    rw [Failure.unplaced_blame, Failure.unplaced_blame]

/-! ## §3 Steps -/

/-- What a step makes, without places. -/
def bare {ε : Type} (made : Except Failure (Machine × ε)) : Except Failure (Machine × ε) :=
  (made.mapError Failure.unplaced).map fun next => (next.1.unplaced, next.2)

section

variable {α ε : Type}

/-- If the first parts end alike and the second parts do the same, the whole is the same. -/
theorem bare_bind {x y : Except Failure α} {f g : α → Except Failure (Machine × ε)}
    (same : x.mapError Failure.unplaced = y.mapError Failure.unplaced)
    (next : ∀ made, bare (f made) = bare (g made)) : bare (x >>= f) = bare (y >>= g) := by
  cases x with
  | error failure =>
    cases y with
    | error failure' => exact congrArg Except.error (Except.error.inj same)
    | ok made => cases same
  | ok made =>
    cases y with
    | error failure' => cases same
    | ok made' =>
      obtain rfl := Except.ok.inj same
      exact next made

private theorem bare_ok {next next' : Machine} (event : ε) (same : next.unplaced = next'.unplaced) :
    bare (.ok (next, event)) = bare (.ok (next', event)) :=
  congrArg (fun m => Except.ok (m, event)) same

private theorem bare_reduce (m : Machine) (offset offset' : Int) :
    bare (reduce registry m.unplaced offset) = bare (reduce registry m offset') := by
  unfold reduce unplaced
  cases m.functions with
  | nil => rfl
  | cons head functions =>
    simp only [List.map_cons, Head.unplaced]
    cases registry.get? head.name with
    | none => rfl
    | some b =>
      refine bare_bind (takeArguments_unplaced head _ _ _ _) fun ⟨arguments, values⟩ => ?_
      exact bare_bind (invoke_unplaced b head arguments) fun result => bare_ok _
        (unplaced_unplaced { m with functions, values := result :: values })

private theorem bare_closeCall (m : Machine) (offset offset' : Int) :
    bare (closeCall registry m.unplaced offset) = bare (closeCall registry m offset') := by
  unfold closeCall
  have building : m.unplaced.building = m.building := rfl
  have depth : m.unplaced.depth = m.depth := rfl
  rw [building, depth]
  split
  · rfl
  split
  · rfl
  -- an application that tells its event and one that need not tell it are the same machine
  have told (made : Except Failure (Machine × Event)) :
      bare (made >>= fun next => pure (next.1, some next.2))
        = (bare made).map fun next => (next.1, some next.2) := by
    cases made <;> rfl
  refine (told _).trans (Eq.trans ?_ (told _).symm)
  exact congrArg (Except.map _)
    (bare_reduce { m with depth := m.depth - 1, expecting := false } offset offset')

private theorem bare_takeHead (m : Machine) (name : Text) (offset offset' : Int)
    (ahead : List Token) :
    bare (m.unplaced.takeHead name offset (ahead.map Token.unplaced))
      = bare (m.takeHead name offset' ahead) := by
  unfold takeHead
  split
  · exact bare_bind (definition_unplaced offset offset' ahead) fun ⟨key, value⟩ =>
      bare_ok _ (unplaced_unplaced (m.define key value))
  · exact bare_ok none (unplaced_unplaced
      { m with expecting := false, functions := ⟨name, offset'⟩ :: m.functions })

private theorem unplaced_takeLiteral (m : Machine) (value : Scalar) :
    (m.unplaced.takeLiteral value).unplaced = (m.takeLiteral value).unplaced := by
  obtain ⟨env, depth, functions, values, expecting, building, buffer, passing⟩ := m
  cases expecting with
  | true => exact unplaced_unplaced _
  | false =>
    -- the literal goes to the open array if there is one, else to the values
    cases building with
    | false =>
      exact unplaced_unplaced ⟨env, depth, functions, .scalar value :: values, _, _, buffer, _⟩
    | true => exact unplaced_unplaced ⟨env, depth, functions, values, _, _, value :: buffer, _⟩

/-- **Places do not matter to a step.** -/
theorem bare_step (m : Machine) (token : Token) (ahead : List Token) :
    bare (m.unplaced.step registry token.unplaced (ahead.map Token.unplaced))
      = bare (m.step registry token ahead) := by
  -- the machine and the token are taken apart, so that the step can be computed
  obtain ⟨env, depth, functions, values, expecting, building, buffer, passing⟩ := m
  obtain ⟨lexeme, offset⟩ := token
  cases passing with
  | succ left =>
    exact bare_ok none (unplaced_unplaced ⟨env, depth, functions, values, _, _, buffer, left⟩)
  | zero =>
    cases lexeme with
    | whitespace text => exact bare_ok none (unplaced_unplaced _)
    -- Only what is looked up or pushed knows its place: a name, and a close paren that blames one.
    | identifier name =>
      cases expecting with
      | true =>
        exact bare_takeHead ⟨env, depth, functions, values, true, building, buffer, 0⟩ name 0 offset
          ahead
      | false =>
        refine bare_bind (x := env.lookup name (some 0)) (y := env.lookup name (some offset)) ?_
          fun value =>
            bare_ok none
              (unplaced_unplaced ⟨env, depth, functions, value :: values, _, _, buffer, 0⟩)
        unfold Environment.lookup
        cases env.get? name <;> rfl
    | literal kind value => exact bare_ok none (unplaced_takeLiteral _ value)
    | openParen =>
      cases building with
      | true => rfl
      | false =>
        exact bare_ok none
          (unplaced_unplaced ⟨env, depth + 1, functions, values, _, false, buffer, 0⟩)
    | closeParen => exact bare_closeCall ⟨env, depth, functions, values, _, _, buffer, 0⟩ 0 offset
    | openBracket =>
      cases building with
      | true => rfl
      | false =>
        exact bare_ok none (unplaced_unplaced ⟨env, depth, functions, values, _, true, buffer, 0⟩)
    | closeBracket =>
      cases building with
      | false => rfl
      | true =>
        exact bare_ok none (unplaced_unplaced
          ⟨env, depth, functions, .array (buffer.reverse.map .scalar) :: values, _, false, [], 0⟩)

end

/-! ## §4 Runs -/

private theorem bare_step_congr (same : m.unplaced = m'.unplaced)
    (lexeme : token.unplaced = token'.unplaced)
    (behind : ahead.map Token.unplaced = ahead'.map Token.unplaced) :
    bare (m.step registry token ahead) = bare (m'.step registry token' ahead') := by
  rw [← bare_step m, ← bare_step m', same, lexeme, behind]

private theorem env_unplaced (m : Machine) : m.unplaced.env = m.env := rfl

private theorem result_unplaced (m : Machine) : m.unplaced.result = m.result := rfl

/-- Steps that are the same without places both fail, of the same mistake, or both succeed. -/
theorem exists_of_bare_eq {ε : Type} {made made' : Except Failure (Machine × ε)}
    (same : bare made = bare made') :
    (∃ failure failure', made = .error failure ∧ made' = .error failure' ∧
      failure.unplaced = failure'.unplaced) ∨
    ∃ next next' event event', made = .ok (next, event) ∧ made' = .ok (next', event') ∧
      next.unplaced = next'.unplaced := by
  cases made with
  | error failure =>
    cases made' with
    | error failure' => exact .inl ⟨failure, failure', rfl, rfl, Except.error.inj same⟩
    | ok next' => cases same
  | ok next =>
    cases made' with
    | error failure' => cases same
    | ok next' =>
      exact .inr ⟨_, _, _, _, rfl, rfl, congrArg Prod.fst (Except.ok.inj same)⟩

/-- **Places do not matter to a run.** -/
theorem run_congr (same : m.unplaced = m'.unplaced)
    (lexemes : tokens.map Token.unplaced = tokens'.map Token.unplaced) :
    (run registry m tokens).unplaced = (run registry m' tokens').unplaced := by
  induction tokens generalizing m m' tokens' with
  | nil =>
    obtain rfl : tokens' = [] := by simpa using lexemes.symm
    have env : m.env = m'.env := by rw [← env_unplaced m, same, env_unplaced]
    have result : m.result = m'.result := by rw [← result_unplaced m, same, result_unplaced]
    exact congrArg₂ Outcome.mk (congrArg _ result) env
  | cons token ahead ih =>
    cases tokens' with
    | nil => simp at lexemes
    | cons token' ahead' =>
      obtain ⟨first, others⟩ := List.cons.inj lexemes
      have stepped : bare (m.step registry token ahead) = bare (m'.step registry token' ahead') :=
        bare_step_congr same first others
      rcases exists_of_bare_eq stepped with
        ⟨failure, failure', failed, failed', mistake⟩ | ⟨next, next', _, _, made, made', same'⟩
      · have env : m.env = m'.env := by rw [← env_unplaced m, same, env_unplaced]
        rw [run, run, failed, failed']
        exact congrArg₂ Outcome.mk (congrArg Except.error mistake) env
      · rw [run, run, made, made']
        exact ih same' others

/-- **Tokens that say the same are evaluated alike.** -/
theorem evaluate_congr {env : Environment}
    (lexemes : (Token.significant tokens).map Token.lexeme
      = (Token.significant tokens').map Token.lexeme) :
    (evaluate registry env tokens).unplaced = (evaluate registry env tokens').unplaced :=
  run_congr rfl (Token.map_unplaced_eq lexemes)

end Machine

end PrefixCalc
