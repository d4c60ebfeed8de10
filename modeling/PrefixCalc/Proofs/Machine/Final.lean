import PrefixCalc.Proofs.Machine.Call
import PrefixCalc.Proofs.Machine.Constants
import PrefixCalc.Proofs.Machine.Frame

/-!
# Final failures

A run that fails at one of its tokens has seen enough: whatever is put behind its tokens, it
fails there again, in the same words and at the same place, and leaves the same constants. The
only failures that more tokens can mend are those of an input that ends too early. They are found
at the end, but for one: a definition looks at three tokens, which may not all be there yet.
-/

namespace PrefixCalc.Machine

open Token

variable {registry : Registry} {m : Machine} {token : Token} {ahead tokens : List Token}
  {failure : Failure}

/-! ## §1 Failures of the end -/

/-- The ways in which tokens end too early. -/
inductive EndsEarly (tokens : List Token) : Failure → Prop where
  /-- A call or an array is open at the end, or there is no value. -/
  | ending (cause : Cause) (ofEnd : cause.OfEnd) : EndsEarly tokens (.refused cause none)
  /-- Fewer than three tokens follow the word that opens a definition. -/
  | cut (front : List Token) (word : Token) (back : List Token)
      (split : tokens = front ++ word :: back)
      (lexeme : word.lexeme = .identifier definitionWord) (short : back.length < 3) :
      EndsEarly tokens (.refused .definitionCut (some word.offset))

/-! ## §2 More tokens behind a failing one -/

/-- Three tokens settle what is wrong with a definition. -/
theorem definition_append_of_error {offset : Int} (h : definition offset ahead = .error failure)
    (more : List Token) :
    definition offset (ahead ++ more) = .error failure ∨
      (ahead.length < 3 ∧ failure = .refused .definitionCut (some offset)) := by
  rcases ahead with _ | ⟨key, _ | ⟨value, _ | ⟨close, rest⟩⟩⟩
  · cases h
    exact .inr ⟨by simp, rfl⟩
  · cases h
    exact .inr ⟨by simp, rfl⟩
  · cases h
    exact .inr ⟨by simp, rfl⟩
  · exact .inl h

/-- A token that is refused is refused all the same with more tokens behind it, unless it opens
a definition that is not all there. -/
theorem step_append_of_error (h : m.step registry token ahead = .error failure)
    (more : List Token) :
    m.step registry token (ahead ++ more) = .error failure ∨
      (token.lexeme = .identifier definitionWord ∧ ahead.length < 3 ∧
        failure = .refused .definitionCut (some token.offset)) := by
  cases passing : m.passing with
  | succ left => simp only [step, passing] at h; cases h
  | zero =>
    cases lexeme : token.lexeme with
    | identifier name =>
      cases expecting : m.expecting with
      | false =>
        simp only [step, passing, lexeme, expecting] at h ⊢
        exact .inl h
      | true =>
        -- this is the only place where a step looks ahead
        simp only [step, passing, lexeme, expecting, if_true, takeHead] at h ⊢
        by_cases word : name = definitionWord
        · rw [if_pos word] at h ⊢
          rcases error_of_bind h with broken | ⟨bound, -, impossible⟩
          · rcases definition_append_of_error broken more with same | ⟨short, cut⟩
            · exact .inl (by rw [same]; rfl)
            · exact .inr ⟨by rw [word], short, cut⟩
          · cases impossible
        · rw [if_neg word] at h
          cases h
    | whitespace _ | literal _ _ | openParen | closeParen | openBracket | closeBracket =>
      simp only [step, passing, lexeme] at h ⊢
      exact .inl h

/-! ## §3 More tokens behind a failing run -/

/-- **Failures are final.** If an evaluation fails, and not because its tokens end too early,
then it fails in the same way and leaves the same environment with any tokens behind them. -/
theorem evaluate_append_of_error (registry : Registry) (env left : Environment)
    (tokens more : List Token) (failure : Failure)
    (h : evaluate registry env tokens = ⟨.error failure, left⟩)
    (final : ¬ EndsEarly (significant tokens) failure) :
    evaluate registry env (tokens ++ more) = ⟨.error failure, left⟩ := by
  obtain ⟨ahead, last, split, reached, ending⟩ :=
    exists_reaches_accepted registry { env } (significant tokens)
  have started : run registry { env } (significant tokens) = ⟨.error failure, left⟩ := h
  rcases ending with ⟨-, ended⟩ | ⟨token, rest, found, rfl, refused, ended⟩
  · -- no token is refused, so the failure is one of the end
    have ending : last.result = .error failure :=
      congrArg Outcome.result (ended.symm.trans started)
    obtain ⟨cause, rfl, ofEnd⟩ := ofEnd_of_result ending
    exact absurd (.ending cause ofEnd) final
  · rw [ended] at started
    cases started
    rcases step_append_of_error refused (significant more) with again | ⟨lexeme, short, rfl⟩
    · -- the run gets to the refused token again, and no further
      have through := (reached.append (significant more)).run_append
      rw [← List.append_assoc, ← split, List.cons_append, run, again] at through
      rw [evaluate, significant, List.filter_append]
      exact through
    · exact absurd (.cut _ token rest split lexeme short) final

/-- The tokens of `(def x 5) (x 1)`. -/
def constantCalled : List Token :=
  [⟨.openParen, 0⟩, ⟨.identifier "def", 1⟩, ⟨.whitespace " ", 4⟩, ⟨.identifier "x", 5⟩,
   ⟨.whitespace " ", 6⟩, ⟨.literal .int (.int 5), 7⟩, ⟨.closeParen, 8⟩, ⟨.whitespace " ", 9⟩,
   ⟨.openParen, 10⟩, ⟨.identifier "x", 11⟩, ⟨.whitespace " ", 12⟩,
   ⟨.literal .int (.int 1), 13⟩, ⟨.closeParen, 14⟩]

/-- A constant is no function, and a definition behind the call comes too late to matter. -/
theorem evaluate_append_constantCalled :
    evaluate .standard {} constantCalled
      = ⟨.error (.refused (.unknownFunction "x") (some 11)), ⟨[("x", .int 5)]⟩⟩ ∧
    evaluate .standard {} (constantCalled ++ constantCalled)
      = ⟨.error (.refused (.unknownFunction "x") (some 11)), ⟨[("x", .int 5)]⟩⟩ :=
  ⟨by rfl,
    evaluate_append_of_error .standard {} ⟨[("x", .int 5)]⟩ constantCalled constantCalled
      (.refused (.unknownFunction "x") (some 11)) (by rfl) (by rintro ⟨_, _, _, split, _⟩)⟩

end PrefixCalc.Machine
