import Mathlib.Data.List.Forall2
import PrefixCalc.Proofs.Machine.Visit
import PrefixCalc.Session

/-!
# Watched sessions

Watching changes nothing but by what cannot be told. As long as every event of an evaluation can be
put into words, an observer is told all of them, in order, and the evaluation ends as it does
unobserved; and so does a session, if its value can be put into words as well.
-/

namespace PrefixCalc

/-- There are words for the event: the values in it can be written. -/
def Event.Tellable (event : Event) : Prop := ∃ message, event.message = .ok message

namespace Machine

open Visit

variable {registry : Registry} {m next : Machine} {token : Token} {ahead : List Token}
  {event : Option Event}

/-! ## §1 Steps -/

private theorem events_cons (later : List Visit) :
    events (⟨m, token, event⟩ :: later) = event.toList ++ events later := by
  cases event with
  | none => rfl
  | some first => rfl

private theorem exists_tell (tellable : ∀ first ∈ event.toList, first.Tellable) :
    ∃ told, tell event = .ok told ∧
      List.Forall₂ (fun event message => event.message = .ok message) event.toList told := by
  cases event with
  | none => exact ⟨[], rfl, .nil⟩
  | some first =>
    obtain ⟨message, written⟩ := tellable first (List.mem_singleton.mpr rfl)
    refine ⟨[message], ?_, .cons written .nil⟩
    rw [tell, written]
    rfl

private theorem watchFrom_cons_of_step (h : m.step registry token ahead = .ok (next, event))
    {told : List Text} (written : tell event = .ok told) :
    watchFrom registry m (token :: ahead) = (watchFrom registry next ahead).after told := by
  rw [watchFrom, h]
  dsimp only
  rw [written]

/-! ## §2 Runs -/

/-- **A watched run is the run.** If every event can be told, then all of them are, in order and
before anything else, and the run ends as it does unwatched. -/
theorem watchFrom_of_tellable (m : Machine) (tokens : List Token)
    (tellable : ∀ event ∈ events (visits registry m tokens), event.Tellable) :
    (watchFrom registry m tokens).outcome = run registry m tokens ∧
    ∃ told, List.Forall₂ (fun event message => event.message = .ok message)
        (events (visits registry m tokens)) told ∧
      told <+: (watchFrom registry m tokens).messages := by
  induction tokens generalizing m with
  | nil => exact ⟨rfl, [], .nil, List.nil_prefix⟩
  | cons token ahead ih =>
    cases stepped : m.step registry token ahead with
    | error failure =>
      -- nothing is told at the token that is refused
      rw [visits_cons_of_error stepped, watchFrom, run, stepped]
      exact ⟨rfl, [], .nil, List.nil_prefix⟩
    | ok made =>
      obtain ⟨next, event⟩ := made
      rw [visits_cons_of_step stepped, events_cons] at tellable ⊢
      obtain ⟨here, behind⟩ := List.forall_mem_append.mp tellable
      obtain ⟨first, written, matched⟩ := exists_tell here
      obtain ⟨outcome, told, others, inFront⟩ := ih next behind
      rw [watchFrom_cons_of_step stepped written, run_cons_of_step stepped]
      refine ⟨outcome, first ++ told, List.rel_append matched others, ?_⟩
      exact (List.prefix_append_right_inj first).mpr inFront

private theorem watch_of_tellable (registry : Registry) (env : Environment) (tokens : List Token)
    (tellable : ∀ event ∈ events (visited registry env tokens), event.Tellable) :
    (watch registry env tokens).outcome = evaluate registry env tokens :=
  (watchFrom_of_tellable { env } (Token.significant tokens) tellable).1

end Machine

/-! ## §3 Sessions -/

namespace Session

/-- **A watched session is the session**: the same value or failure, and the same constants for the
next text, if every event and the value can be told. -/
theorem watch_of_tellable (s : Session) (text : Text)
    (tellable : ∀ event ∈ Machine.Visit.events
      (Machine.visited s.registry s.start (Token.read text)), event.Tellable)
    (told : ∀ value, (s.eval text).1 = .ok value → ∃ message, summary text value = .ok message) :
    (s.watch text).1 = (s.eval text).1 ∧ (s.watch text).2.2 = (s.eval text).2 := by
  have same := Machine.watch_of_tellable s.registry s.start (Token.read text) tellable
  unfold watch
  unfold eval at told ⊢
  dsimp only at told ⊢
  rw [same]
  cases result : (Machine.evaluate s.registry s.start (Token.read text)).result with
  | error failure => exact ⟨rfl, rfl⟩
  | ok value =>
    obtain ⟨message, written⟩ := told value result
    dsimp only
    rw [written]
    exact ⟨rfl, rfl⟩

end Session

end PrefixCalc
