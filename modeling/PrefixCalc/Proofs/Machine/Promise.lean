import PrefixCalc.Proofs.Machine.Call
import PrefixCalc.Proofs.Machine.Constants
import PrefixCalc.Proofs.Machine.Frame
import PrefixCalc.Proofs.OrderedMap

/-!
# Promises about values

What holds of the literals of a text holds of the values that an evaluation makes of them, if
the builtins keep to it. A promise says what holds of the scalars that literals denote and of
all scalars. The values of a run are such scalars and flat arrays of literals, and its constants
are such scalars, in every state of every run, also of one that fails.
-/

namespace PrefixCalc

/-! ## §1 Promises -/

/-- What is promised of the scalars of an evaluation. -/
structure Promise where
  /-- What is promised of those that literals denote. -/
  literal : Scalar → Prop
  /-- What is promised of all that are values or constants. -/
  scalar : Scalar → Prop
  scalar_of_literal : ∀ s, literal s → scalar s

namespace Promise

/-- A value keeps to a promise if its scalar does, or the literals that are its elements. -/
def OfValue (promise : Promise) : Value → Prop
  | .scalar s => promise.scalar s
  | .array elements => ∀ v ∈ elements, ∃ s, v = .scalar s ∧ promise.literal s

/-- Constants keep to a promise if they are scalars that do. -/
def OfConstants (promise : Promise) (env : Environment) : Prop :=
  ∀ entry ∈ env.entries, ∃ s, entry.2 = .scalar s ∧ promise.scalar s

/-- Tokens keep to a promise if the literals among them do. -/
def OfTokens (promise : Promise) (tokens : List Token) : Prop :=
  ∀ t ∈ tokens, ∀ kind s, t.lexeme = .literal kind s → promise.literal s

/-- Builtins keep to a promise if they make values that do of arguments that fit and do. -/
def OfBuiltins (promise : Promise) (registry : Registry) : Prop :=
  ∀ name builtin, registry.get? name = some builtin → ∀ arguments result,
    Fit builtin.parameters arguments → (∀ v ∈ arguments, promise.OfValue v) →
      builtin.run arguments = .ok result → promise.OfValue result

/-- A machine keeps to a promise, in front of the tokens that are still to come. -/
structure OfMachine (promise : Promise) (m : Machine) (ahead : List Token) : Prop where
  values : ∀ v ∈ m.values, promise.OfValue v
  buffer : ∀ s ∈ m.buffer, promise.literal s
  constants : promise.OfConstants m.env
  tokens : promise.OfTokens ahead

variable {promise : Promise} {registry : Registry} {m next last : Machine} {token : Token}
  {ahead done tokens : List Token} {event : Option Event} {env : Environment}

/-! ## §2 Steps -/

theorem OfConstants.define {key : Text} {s : Scalar} (constants : promise.OfConstants env)
    (bound : promise.scalar s) : promise.OfConstants (env.define key (.scalar s)) := by
  intro entry member
  rcases OrderedMap.mem_insert member with rfl | before
  · exact ⟨s, rfl, bound⟩
  · exact constants entry before

theorem OfConstants.get? {name : Text} {v : Value} (constants : promise.OfConstants env)
    (bound : env.get? name = some v) : promise.OfValue v := by
  obtain ⟨s, rfl, kept⟩ := constants _ (OrderedMap.mem_of_get? bound)
  exact kept

theorem OfTokens.tail (h : promise.OfTokens (token :: ahead)) : promise.OfTokens ahead :=
  fun t member => h t (List.mem_cons_of_mem token member)

/-- The values of a machine with a new one on top. -/
theorem OfMachine.push {v : Value} (kept : promise.OfMachine m ahead)
    (value : promise.OfValue v) : ∀ w ∈ v :: m.values, promise.OfValue w :=
  List.forall_mem_cons.mpr ⟨value, kept.values⟩

/-- **Promises are kept by a step.** -/
theorem OfMachine.of_step (builtins : promise.OfBuiltins registry)
    (h : m.step registry token ahead = .ok (next, event))
    (kept : promise.OfMachine m (token :: ahead)) : promise.OfMachine next ahead := by
  have tokens := kept.tokens.tail
  have literal : ∀ {kind s}, token.lexeme = .literal kind s → promise.literal s :=
    fun {kind s} => kept.tokens token List.mem_cons_self kind s
  cases Machine.transition_of_step h with
  | passed _ _ | blank _ _ _ | headed _ _ _ _ _ | dropped _ _ _ _ _ | opened _ _ _
  | arrayOpened _ _ _ =>
    exact ⟨kept.values, kept.buffer, kept.constants, tokens⟩
  | defined key s passing expecting lexeme form =>
    -- the literal stands two tokens ahead
    obtain ⟨name, bound, close, kind, after, rfl, -, boundLexeme, -⟩ :=
      Machine.definition_eq_ok form
    have member : bound ∈ token :: name :: bound :: close :: after := by simp
    have scalar := promise.scalar_of_literal s (kept.tokens bound member kind s boundLexeme)
    exact ⟨kept.push scalar, kept.buffer, kept.constants.define scalar, tokens⟩
  | referred name value passing expecting lexeme bound =>
    exact ⟨kept.push (kept.constants.get? bound), kept.buffer, kept.constants, tokens⟩
  -- What is collected waits in the buffer, under the promise for literals, until the array is made.
  | collected kind s passing expecting lexeme building =>
    have buffer := List.forall_mem_cons.mpr ⟨literal lexeme, kept.buffer⟩
    exact ⟨kept.values, buffer, kept.constants, tokens⟩
  | shifted kind s passing expecting lexeme building =>
    have scalar := promise.scalar_of_literal s (literal lexeme)
    exact ⟨kept.push scalar, kept.buffer, kept.constants, tokens⟩
  | applied head functions builtin arguments values result passing lexeme building depth pending
      known taken invoked =>
    -- the arguments and the values that are left are those that were there before
    obtain ⟨split, fit⟩ := Machine.fit_of_taken taken
    have all := kept.values
    rw [split] at all
    have given : ∀ v ∈ arguments, promise.OfValue v := fun v member =>
      all v (List.mem_append_left values (List.mem_reverse.mpr member))
    have left : ∀ v ∈ values, promise.OfValue v := fun v member =>
      all v (List.mem_append_right arguments.reverse member)
    have made := builtins head.name builtin known arguments result fit given
      (Machine.run_of_invoke invoked)
    exact ⟨List.forall_mem_cons.mpr ⟨made, left⟩, kept.buffer, kept.constants, tokens⟩
  | arrayClosed passing lexeme building =>
    refine ⟨kept.push fun v member => ?_, nofun, kept.constants, tokens⟩
    -- its elements are what the buffer held
    obtain ⟨s, element, rfl⟩ := List.mem_map.mp member
    exact ⟨s, rfl, kept.buffer s (List.mem_reverse.mp element)⟩

/-! ## §3 Runs -/

/-- **Promises are kept in every state of a run.** -/
theorem OfMachine.of_reaches (builtins : promise.OfBuiltins registry)
    (h : Machine.Reaches registry ahead m done last)
    (kept : promise.OfMachine m (done ++ ahead)) : promise.OfMachine last ahead :=
  h.invariant (P := fun _ m ahead => promise.OfMachine m ahead)
    (fun accepted kept => kept.of_step builtins accepted) [] kept

theorem ofMachine_start (constants : promise.OfConstants env) (tokens : promise.OfTokens ahead) :
    promise.OfMachine { env } ahead :=
  ⟨nofun, nofun, constants, tokens⟩

/-- Constants keep to a promise behind a run, whether it yields a value or fails. -/
theorem OfConstants.run (builtins : promise.OfBuiltins registry)
    (constants : promise.OfConstants env) (literals : promise.OfTokens tokens) :
    promise.OfConstants (Machine.run registry { env } tokens).env := by
  obtain ⟨ahead, last, split, reached, ending⟩ :=
    Machine.exists_reaches_accepted registry { env } tokens
  rw [split] at literals
  have kept := (ofMachine_start constants literals).of_reaches builtins reached
  rcases ending with ⟨-, ended⟩ | ⟨_, _, _, -, -, ended⟩
  · rw [ended]
    exact kept.constants
  · rw [ended]
    exact kept.constants

/-- So does the value that a run yields. -/
theorem OfValue.run {v : Value} (builtins : promise.OfBuiltins registry)
    (constants : promise.OfConstants env) (literals : promise.OfTokens tokens)
    (ok : (Machine.run registry { env } tokens).result = .ok v) : promise.OfValue v := by
  rw [← List.append_nil tokens] at ok literals
  obtain ⟨last, reached, ended⟩ := Machine.exists_reaches_of_run_eq_ok ok
  obtain ⟨-, -, newest⟩ := Machine.result_eq_ok_iff.mp ended
  have kept := (ofMachine_start constants literals).of_reaches builtins reached
  exact kept.values v (List.mem_of_mem_head? newest)

end Promise

end PrefixCalc
