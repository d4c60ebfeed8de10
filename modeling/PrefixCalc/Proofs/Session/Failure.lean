import PrefixCalc.Proofs.Machine.Ending
import PrefixCalc.Proofs.Session.History
import PrefixCalc.Proofs.Token.Line

/-!
# Failures of sessions

With the builtins of the language nothing comes out of a session but values, refusals and the
two limits of whole numbers, and these only at a call that goes over them. The argument is that
of a type system: values and constants keep to a promise in every state of every run, so the
arguments of a checked call do, and a builtin fails on such arguments in known ways only.
-/

namespace PrefixCalc

/-- A place in the evaluation of a text at which the machine comes to a checked call. -/
structure CheckedCall (s : Session) (text : Text) where
  done : List Token
  closing : Token
  ahead : List Token
  machine : Machine
  head : Head
  builtin : Builtin
  arguments : List Value
  split : Token.significant (Token.read text) = done ++ closing :: ahead
  reached : Machine.Reaches s.registry (closing :: ahead) { env := s.start } done machine
  applies : machine.Applies s.registry closing head builtin arguments

/-- The evaluation stops at the call, over the limit. -/
def CheckedCall.Raises {s : Session} {text : Text} (call : CheckedCall s text) (limit : Limit) :
    Prop :=
  call.machine.step s.registry call.closing call.ahead = .error (.exceeded limit)

namespace Session

variable {s : Session} {text : Text} {failure : Failure}

/-- What may come out of the evaluation of a text. -/
structure Confined (s : Session) (text : Text) : Prop where
  /-- A value, a refusal, or one of two limits at a call that goes over it. -/
  outcome :
    (∃ v, (s.eval text).1 = .ok v) ∨
    (∃ cause offset, (s.eval text).1 = .error (.refused cause offset)) ∨
    ((s.eval text).1 = .error (.exceeded .doubleRange) ∧
      ∃ call : CheckedCall s text, call.Raises .doubleRange ∧
        OutOfRange call.builtin call.arguments) ∨
    ((s.eval text).1 = .error (.exceeded .writtenDigits) ∧
      ∃ call : CheckedCall s text, call.Raises .writtenDigits ∧ TooLong call.arguments)
  /-- Every checked call that is out of range stops the evaluation. -/
  outOfRange : ∀ call : CheckedCall s text, OutOfRange call.builtin call.arguments →
    call.Raises .doubleRange ∧ (s.eval text).1 = .error (.exceeded .doubleRange)
  /-- So does every other one with an argument that is too long. -/
  tooLong : ∀ call : CheckedCall s text, TooLong call.arguments →
    ¬ OutOfRange call.builtin call.arguments →
      call.Raises .writtenDigits ∧ (s.eval text).1 = .error (.exceeded .writtenDigits)

/-! ## §1 Promises of sessions -/

theorem shortLiterals_tokens (text : Text) :
    shortLiterals.OfTokens (Token.significant (Token.read text)) := by
  rintro t member kind s lexeme n rfl
  exact (Token.ofLiteral_of_mem_read (List.mem_of_mem_filter member) lexeme).2

theorem shortLiterals_builtins : shortLiterals.OfBuiltins .standard :=
  Builtin.ofBuiltins_standard (fun _ => trivial) (fun _ => trivial) (fun _ _ _ _ => trivial)
    (fun _ _ _ _ => trivial)

/-- A session with the builtins of the language whose constants are scalars. -/
structure Ordinary (s : Session) : Prop where
  registry : s.registry = .standard
  constants : shortLiterals.OfConstants s.env

theorem ordinary_fresh (persistent : Bool) : (fresh persistent .standard).Ordinary :=
  ⟨rfl, nofun⟩

theorem Ordinary.start (ordinary : s.Ordinary) : shortLiterals.OfConstants s.start := by
  unfold Session.start
  split
  · exact ordinary.constants
  · exact nofun

theorem Ordinary.perform (ordinary : s.Ordinary) (call : Call) : (s.perform call).Ordinary := by
  cases call with
  | reset => exact ⟨ordinary.registry, nofun⟩
  | eval text =>
    refine ⟨(eval_registry s text).trans ordinary.registry, ?_⟩
    simp only [Session.perform, eval, keep]
    split
    · -- also if the text fails
      apply Promise.OfConstants.run ?_ ordinary.start (shortLiterals_tokens text)
      rw [ordinary.registry]
      exact shortLiterals_builtins
    · exact ordinary.constants

private theorem ordinary_performAll (persistent : Bool) (calls : List Call) :
    ((fresh persistent .standard).performAll calls).Ordinary :=
  performAll_invariant (fun _ call ordinary => ordinary.perform call)
    (ordinary_fresh persistent) calls

/-! ## §2 Checked calls -/

/-- A text fails as its checked call does. -/
theorem eval_of_checkedCall (call : CheckedCall s text)
    (failed : call.machine.step s.registry call.closing call.ahead = .error failure) :
    (s.eval text).1 = .error failure := by
  show (Machine.run s.registry { env := s.start } _).result = _
  rw [call.split, call.reached.run_append, Machine.run, failed]

/-- The arguments of a checked call keep to the promise, so the call ends as told. -/
theorem ends_checkedCall (ordinary : s.Ordinary) (call : CheckedCall s text) :
    Ends call.builtin call.arguments (Machine.invoke call.builtin call.head call.arguments) ∧
    (TooLong call.arguments →
      ∀ v, Machine.invoke call.builtin call.head call.arguments ≠ .ok v) := by
  obtain ⟨done, closing, ahead, m, head, b, arguments, split, reached, applies⟩ := call
  have known := applies.known
  obtain ⟨rest, taken⟩ := applies.taken
  rw [ordinary.registry] at known reached
  have tokens := shortLiterals_tokens text
  rw [split] at tokens
  have kept := (Promise.ofMachine_start ordinary.start tokens).of_reaches shortLiterals_builtins
    reached
  -- the arguments are values of the machine, the newest ones
  obtain ⟨values, fit⟩ := Machine.fit_of_taken taken
  apply ends_invoke (Builtin.mem_of_get?_standard known) fit
  intro v member
  apply kept.values v
  rw [values]
  exact List.mem_append_left rest (List.mem_reverse.mpr member)

/-- A text that neither yields a value nor is refused stops at a checked call. -/
theorem exists_checkedCall (h : (s.eval text).1 = .error failure) :
    (∃ cause offset, failure = .refused cause offset) ∨
    ∃ call : CheckedCall s text,
      Machine.invoke call.builtin call.head call.arguments = .error failure := by
  have ran : (Machine.run s.registry { env := s.start } _).result = .error failure := h
  -- the run stops at its end, where everything is a refusal, or at a token that fails
  obtain ⟨ahead, last, split, reached, ending⟩ := Machine.exists_reaches_accepted s.registry
    { env := s.start } (Token.significant (Token.read text))
  rcases ending with ⟨-, ended⟩ | ⟨token, rest, failure', rfl, stepped, ended⟩
  · rw [ended] at ran
    exact .inl (Machine.refused_of_result ran)
  · rw [ended] at ran
    cases ran
    rcases Machine.refused_or_applies stepped with refused | ⟨head, b, arguments, applies, failed⟩
    · exact .inl refused
    · exact .inr ⟨⟨_, token, rest, last, head, b, arguments, split, reached, applies⟩, failed⟩

/-! ## §3 The law of failures -/

/-- **Which failures can escape.** In a session with the builtins of the language, whatever was
evaluated before, a text yields a value or is refused, unless it comes to a call of `plus` or
`minus` whose arguments are out of range or to a call with an argument that is too long; and at
every such call it stops. -/
theorem confined_performAll (persistent : Bool) (calls : List Call) (text : Text) :
    ((fresh persistent .standard).performAll calls).Confined text := by
  have ordinary := ordinary_performAll persistent calls
  -- of what was evaluated before, only this is left
  generalize (fresh persistent .standard).performAll calls = s at ordinary
  refine ⟨?_, fun call out => ?_, fun call long inRange => ?_⟩
  · -- a failure that is no refusal was raised by a call, and how that call ends tells the rest
    cases outcome : (s.eval text).1 with
    | ok v => exact .inl ⟨v, rfl⟩
    | error failure =>
      rcases exists_checkedCall outcome with ⟨cause, offset, rfl⟩ | ⟨call, failed⟩
      · exact .inr (.inl ⟨cause, offset, rfl⟩)
      · have ends := (ends_checkedCall ordinary call).1
        have raises := call.applies.step_eq_error failed call.ahead
        rw [failed] at ends
        cases ends with
        | refused cause offset => exact .inr (.inl ⟨cause, offset, rfl⟩)
        | range out => exact .inr (.inr (.inl ⟨rfl, call, raises, out⟩))
        | digits inRange long => exact .inr (.inr (.inr ⟨rfl, call, raises, long⟩))
  · have ends := (ends_checkedCall ordinary call).1
    generalize ended : Machine.invoke call.builtin call.head call.arguments = result at ends
    cases ends with
    | value v inRange | refused cause offset inRange | digits inRange => exact absurd out inRange
    | range =>
      have raises := call.applies.step_eq_error ended call.ahead
      exact ⟨raises, eval_of_checkedCall call raises⟩
  · obtain ⟨ends, noValue⟩ := ends_checkedCall ordinary call
    generalize ended : Machine.invoke call.builtin call.head call.arguments = result at ends
    cases ends with
    | value v => exact absurd ended (noValue long v)
    | refused cause offset _ short => exact absurd long short
    | range out => exact absurd out inRange
    | digits =>
      have raises := call.applies.step_eq_error ended call.ahead
      exact ⟨raises, eval_of_checkedCall call raises⟩

/-- The text `(plus 99…9 1.0)`, where the whole number has 309 digits. -/
def sumOutOfRange : Text := "(plus " ++ (List.replicate 309 (CodePoint.char '9') ++ " 1.0)")

/-- The double of the text. -/
def one : Binary64 := .ofDecimal false 10 (-1)

/-- The machine in front of the close paren. -/
def beforeSum : Machine where
  env := {}
  depth := 1
  functions := [⟨"plus", 1⟩]
  values := [.scalar (.float one), .int (10 ^ 309 - 1)]

theorem confined_sumOutOfRange :
    (∃ call : CheckedCall (fresh true .standard) sumOutOfRange,
      OutOfRange call.builtin call.arguments) ∧
    ((fresh true .standard).eval sumOutOfRange).1 = .error (.exceeded .doubleRange) := by
  have tokens : Token.significant (Token.read sumOutOfRange)
      = [⟨.openParen, 0⟩, ⟨.identifier "plus", 1⟩, ⟨.literal .int (.int (10 ^ 309 - 1)), 6⟩,
          ⟨.literal .float (.float one), 316⟩] ++ [⟨.closeParen, 319⟩] := by
    rw [Token.read_eq_onePassFrom]
    decide +kernel
  have reached : Machine.Reaches .standard [⟨.closeParen, 319⟩] { env := {} }
      [⟨.openParen, 0⟩, ⟨.identifier "plus", 1⟩, ⟨.literal .int (.int (10 ^ 309 - 1)), 6⟩,
        ⟨.literal .float (.float one), 316⟩] beforeSum :=
    .step rfl (.step rfl (.step rfl (.step rfl (.refl _))))
  have applies : beforeSum.Applies .standard ⟨.closeParen, 319⟩ ⟨"plus", 1⟩ .plus
      [.int (10 ^ 309 - 1), .scalar (.float one)] :=
    ⟨rfl, rfl, rfl, by decide, rfl, rfl, [], rfl⟩
  have outside : Number.doubleRange ≤ (10 ^ 309 - 1 : Int).natAbs := by decide +kernel
  have out : OutOfRange .plus [.int (10 ^ 309 - 1), .scalar (.float one)] :=
    ⟨.inl rfl, 10 ^ 309 - 1, one, outside, .inl rfl⟩
  have call : ∃ call : CheckedCall (fresh true .standard) sumOutOfRange,
      OutOfRange call.builtin call.arguments :=
    ⟨⟨_, _, [], beforeSum, _, .plus, _, tokens, reached, applies⟩, out⟩
  refine ⟨call, ?_⟩
  obtain ⟨call, out⟩ := call
  exact ((confined_performAll true [] sumOutOfRange).outOfRange call out).2

end Session

end PrefixCalc
