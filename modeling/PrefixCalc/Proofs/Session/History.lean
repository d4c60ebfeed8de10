import PrefixCalc.Proofs.Machine.Constants
import PrefixCalc.Proofs.OrderedMap
import PrefixCalc.Session

/-!
# Histories of sessions

The environment of a persistent session is told by its history: the definitions that its texts
have completed since it was reset. A text that fails has completed the definitions in front of
the token at which it failed, and nothing of it is taken back. A session that is not persistent
has no history at all.
-/

namespace PrefixCalc

/-- What a host may ask of a session. -/
inductive Call where
  | eval (text : Text)
  | reset

namespace Session

variable {s : Session} {text : Text} {calls : List Call} {past : List (Text × Scalar)}

/-! ## §1 Calls -/

/-- The session after a call, whether or not it fails. -/
def perform (s : Session) : Call → Session
  | .eval text => (s.eval text).2
  | .reset => s.reset

/-- The session after calls one after another. -/
def performAll (s : Session) (calls : List Call) : Session := calls.foldl perform s

private theorem perform_persistent (s : Session) (call : Call) :
    (s.perform call).persistent = s.persistent := by
  cases call with
  | eval text =>
    simp only [perform, eval, keep]
    split <;> rfl
  | reset => rfl

/-- What every call keeps holds after any calls. -/
theorem performAll_invariant {P : Session → Prop} (keeps : ∀ s call, P s → P (s.perform call))
    (start : P s) (calls : List Call) : P (s.performAll calls) := by
  induction calls generalizing s with
  | nil => exact start
  | cons call calls ih => exact ih (keeps s call start)

/-! ## §2 Definitions that are completed -/

/-- The definitions that a text completes: those among its tokens in front of the first one that
is refused. -/
def completed (s : Session) (text : Text) : List (Text × Scalar) :=
  Token.definitions false
    (Machine.accepted s.registry { env := s.start } (Token.significant (Token.read text)))

/-- The definitions that are completed since the last reset, if `past` are those before the
calls. -/
def history (s : Session) (past : List (Text × Scalar)) : List Call → List (Text × Scalar)
  | [] => past
  | .eval text :: calls => history (s.eval text).2 (past ++ s.completed text) calls
  | .reset :: calls => history s.reset [] calls

private theorem env_eval (persistent : s.persistent = true) (text : Text) :
    (s.eval text).2.env = s.env.insertAll ((s.completed text).map Machine.entry) := by
  simp only [eval, keep, persistent, if_true, completed, Machine.evaluate]
  have start : s.start = s.env := by simp only [Session.start, persistent, if_true]
  rw [start]
  have begins : Machine.Reaches s.registry (Token.significant (Token.read text))
      { env := s.env } [] { env := s.env } := .refl _
  exact Machine.env_run (Machine.attentive_of_reaches begins)

private theorem env_performAll_eq (persistent : s.persistent = true)
    (start : s.env = .ofList (past.map Machine.entry)) (calls : List Call) :
    (s.performAll calls).env = .ofList ((s.history past calls).map Machine.entry) := by
  -- the definitions of a text come behind those of the texts before it
  induction calls generalizing s past with
  | nil => exact start
  | cons call calls ih =>
    have persistent' : (s.perform call).persistent = true :=
      (perform_persistent s call).trans persistent
    cases call with
    | eval text =>
      apply ih persistent'
      show (s.eval text).2.env = _
      rw [env_eval persistent, start, List.map_append]
      simp only [OrderedMap.ofList, OrderedMap.insertAll, List.foldl_append]
    | reset =>
      apply ih persistent'
      rfl

/-! ## §3 The law of sessions -/

/-- A session in which nothing was evaluated yet. -/
def fresh (persistent : Bool) (registry : Registry) : Session := { persistent, registry }

/-- The environment holds exactly the given definitions: a name stands where it was defined
first, and it has the value that it was given last. -/
structure Holds (env : Environment) (defined : List (Text × Scalar)) : Prop where
  eq_ofList : env = .ofList (defined.map Machine.entry)
  keys_eq : env.keys = (defined.map Prod.fst).eraseDups
  get?_eq : ∀ name, env.get? name
    = (defined.reverse.find? fun bound => bound.1 = name).map fun bound => .scalar bound.2

private theorem holds_of_eq_ofList {env : Environment}
    (h : env = .ofList (past.map Machine.entry)) :
    Holds env past := by
  refine ⟨h, ?_, fun name => ?_⟩
  · rw [h, OrderedMap.keys_ofList, List.map_map]
    rfl
  · rw [h, OrderedMap.get?_ofList, ← List.map_reverse, List.find?_map, Option.map_map]
    rfl

/-- **Sessions and failures.** After any calls, each of which may fail anywhere, a persistent
session holds exactly the definitions that were completed since the last reset. A session that
is not persistent holds nothing, and evaluates every text like a fresh one. -/
theorem env_performAll (registry : Registry) (calls : List Call) :
    Holds ((fresh true registry).performAll calls).env ((fresh true registry).history [] calls) ∧
    ((fresh false registry).performAll calls).env = {} ∧
    ∀ text persistent, (((fresh false registry).performAll calls).eval text).1
      = ((fresh persistent registry).eval text).1 := by
  -- no call changes a session that is not persistent
  have kept : (fresh false registry).performAll calls = fresh false registry := by
    apply performAll_invariant (P := (· = fresh false registry)) ?_ rfl
    rintro s call rfl
    cases call with
    | eval text => exact eval_snd_of_not_persistent _ rfl text
    | reset => rfl
  rw [kept]
  refine ⟨holds_of_eq_ofList (env_performAll_eq rfl rfl calls), rfl, fun text persistent => ?_⟩
  cases persistent <;> rfl

end Session

end PrefixCalc
