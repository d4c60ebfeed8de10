import PrefixCalc.Proofs.Machine.Nesting
import PrefixCalc.Proofs.Token.Definition

/-!
# Constants of a run

A run binds the constants of the definitions that it gets through, in their order, and does
nothing else to the environment, whether it yields a value or fails. What it gets through are
its tokens up to the first one that is refused.
-/

namespace PrefixCalc.Machine

open Token

variable {registry : Registry} {m next : Machine} {token : Token}
  {before ahead tokens : List Token} {event : Option Event}

/-! ## §1 Tokens that are accepted -/

/-- The tokens of a run in front of the first one that is refused. -/
def accepted (registry : Registry) (m : Machine) : List Token → List Token
  | [] => []
  | token :: ahead =>
    match m.step registry token ahead with
    | .error _ => []
    | .ok (next, _) => token :: accepted registry next ahead

private theorem accepted_cons_of_step (h : m.step registry token ahead = .ok (next, event)) :
    accepted registry m (token :: ahead) = token :: accepted registry next ahead := by
  simp only [accepted, h]

/-- A run gets through the accepted tokens, and then either none is left or the next one is
refused and its failure is that of the run. -/
theorem exists_reaches_accepted (registry : Registry) (m : Machine) (tokens : List Token) :
    ∃ ahead last, tokens = accepted registry m tokens ++ ahead ∧
      Reaches registry ahead m (accepted registry m tokens) last ∧
      ((ahead = [] ∧ run registry m tokens = ⟨last.result, last.env⟩) ∨
        ∃ token rest failure, ahead = token :: rest ∧
          last.step registry token rest = .error failure ∧
          run registry m tokens = ⟨.error failure, last.env⟩) := by
  induction tokens generalizing m with
  | nil => exact ⟨[], m, rfl, .refl m, .inl ⟨rfl, rfl⟩⟩
  | cons t rest ih =>
    cases stepped : m.step registry t rest with
    | error failure =>
      have stops : accepted registry m (t :: rest) = [] := by simp only [accepted, stepped]
      have fails : run registry m (t :: rest) = ⟨.error failure, m.env⟩ := by
        simp only [run, stepped]
      rw [stops]
      exact ⟨t :: rest, m, rfl, .refl m, .inr ⟨t, rest, failure, rfl, stepped, fails⟩⟩
    | ok found =>
      obtain ⟨ahead, last, split, reached, ending⟩ := ih found.1
      rw [accepted_cons_of_step stepped, run_cons_of_step stepped]
      rw [split] at stepped
      exact ⟨ahead, last, congrArg (t :: ·) split, .step stepped reached, ending⟩

/-- The tokens that a run gets through are accepted. -/
theorem Reaches.accepted_append {done : List Token} {last : Machine}
    (h : Reaches registry ahead m done last) :
    accepted registry m (done ++ ahead) = done ++ accepted registry last ahead := by
  induction h with
  | refl m => rfl
  | step stepped later ih =>
    rw [List.cons_append, accepted_cons_of_step stepped, ih]
    rfl

/-! ## §2 What they bind -/

/-- The entry of an environment that a definition makes. -/
def entry (bound : Text × Scalar) : Text × Value := (bound.1, .scalar bound.2)

private theorem exists_site_of_definition {offset : Int} {key : Text} {bound : Scalar}
    (form : definition offset ahead = .ok (key, bound)) :
    ∃ site, site? ahead = some site ∧ site.name = key ∧ site.value = bound := by
  obtain ⟨name, literal, close, kind, after, rfl, nameLexeme, literalLexeme, closeLexeme⟩ :=
    definition_eq_ok form
  refine ⟨⟨key, name.offset, kind, bound⟩, ?_, rfl, rfl⟩
  simp only [site?, nameLexeme, literalLexeme, closeLexeme]

/-- **What a step defines.** Either the token is the word of a definition where a function is
expected, and the step performs the definition, or the environment stays as it is, and the
definitions that the token stands in front of are those behind it. -/
theorem sites_of_step (h : m.step registry token ahead = .ok (next, event))
    (attentive : Attentive before m (token :: ahead)) :
    (∃ site, m.passing = 0 ∧ m.expecting = true ∧ token.lexeme = .identifier definitionWord ∧
      site? ahead = some site ∧ next = m.define site.name site.value) ∨
    next.env = m.env ∧
      (m.passing = 0 → m.expecting = true → token.lexeme ≠ .identifier definitionWord) ∧
      ∀ rest, sites m.expecting (token :: rest) = sites next.expecting rest := by
  cases transition_of_step h with
  | passed left passing =>
    -- the rest of a definition holds no open paren, and no function is due in it
    have notExpecting : m.expecting = false := attentive.idle (by omega)
    have owed := attentive.owed
    rw [passing] at owed
    refine .inr ⟨rfl, by omega, fun rest => ?_⟩
    show sites m.expecting (token :: rest) = sites m.expecting rest
    rw [notExpecting]
    cases owed with
    | close lexeme => rw [sites_closeParen lexeme]
    | literal lexeme =>
      rw [sites_of_plain (by simp [isParen, lexeme]) (by simp [isName, lexeme])]
    | name lexeme => rw [sites_identifier lexeme (fun due => absurd due Bool.false_ne_true)]
  | defined key bound passing expecting lexeme form =>
    obtain ⟨site, found, rfl, rfl⟩ := exists_site_of_definition form
    exact .inl ⟨site, passing, expecting, lexeme, found, rfl⟩
  -- A name in function position is not the word, so the definitions are those behind it.
  | headed name passing expecting lexeme ordinary =>
    have other : token.lexeme ≠ .identifier definitionWord := fun same =>
      ordinary (Lexeme.identifier.inj (lexeme.symm.trans same))
    exact .inr ⟨rfl, fun _ _ => other, fun rest => sites_identifier lexeme fun _ => ordinary⟩
  | referred name value passing notExpecting lexeme =>
    refine .inr ⟨rfl, fun _ expecting => ?_, fun rest => ?_⟩
    · rw [notExpecting] at expecting
      cases expecting
    · show sites m.expecting (token :: rest) = sites m.expecting rest
      rw [notExpecting, sites_identifier lexeme (fun due => absurd due Bool.false_ne_true)]
  -- Behind an open paren a function is due, behind a close paren none is, in both readings.
  | opened passing lexeme =>
    exact .inr ⟨rfl, by simp [lexeme], fun rest => sites_openParen lexeme⟩
  | applied head functions builtin arguments values result passing lexeme =>
    exact .inr ⟨rfl, by simp [lexeme], fun rest => sites_closeParen lexeme⟩
  | blank _ _ lexeme | dropped _ _ _ _ lexeme | collected _ _ _ _ lexeme
  | shifted _ _ _ _ lexeme | arrayOpened _ lexeme | arrayClosed _ lexeme =>
    exact .inr ⟨rfl, by simp [lexeme], fun rest =>
      sites_of_plain (by simp [isParen, lexeme]) (by simp [isName, lexeme])⟩

/-- A definition that is recognised is accepted as a whole. -/
theorem site?_accepted {site : Site} (found : site? ahead = some site) (m : Machine) :
    site? (accepted registry (m.define site.name site.value) ahead) = some site := by
  obtain ⟨key, literal, close, rest, rfl, keyLexeme, literalLexeme, closeLexeme, offset⟩ :=
    eq_of_site? found
  rw [accepted_cons_of_step (step_of_passing rfl), accepted_cons_of_step (step_of_passing rfl),
    accepted_cons_of_step (step_of_passing rfl)]
  simp only [site?, keyLexeme, literalLexeme, closeLexeme, offset]

/-- What a step adds to the environment is what its token adds to the definitions. -/
theorem insertAll_of_step (h : m.step registry token ahead = .ok (next, event))
    (attentive : Attentive before m (token :: ahead)) :
    next.env.insertAll ((definitions next.expecting (accepted registry next ahead)).map entry)
      = m.env.insertAll
          ((definitions m.expecting (token :: accepted registry next ahead)).map entry) := by
  rw [definitions, definitions]
  rcases sites_of_step h attentive with
    ⟨site, -, expecting, lexeme, found, rfl⟩ | ⟨env, -, same⟩
  · rw [expecting, sites_word lexeme (site?_accepted found m)]
    rfl
  · rw [env, same]

/-- **Constants of a run**: they are those of the definitions among the accepted tokens. -/
theorem env_run (attentive : Attentive before m tokens) :
    (run registry m tokens).env
      = m.env.insertAll
          ((definitions m.expecting (accepted registry m tokens)).map entry) := by
  induction tokens generalizing before m with
  | nil => rfl
  | cons t rest ih =>
    cases stepped : m.step registry t rest with
    | error failure =>
      simp only [run, accepted, stepped]
      rfl
    | ok found =>
      rw [run_cons_of_step stepped, accepted_cons_of_step stepped,
        ih (attentive_of_step stepped attentive), insertAll_of_step stepped attentive]

end PrefixCalc.Machine
