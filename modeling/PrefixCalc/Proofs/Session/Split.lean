import PrefixCalc.Proofs.Machine.Frame
import PrefixCalc.Proofs.Token.Line
import PrefixCalc.Session

/-!
# Texts in parts

A persistent session may be given a program in one text or in two. The cut is invisible as
long as it is a line break outside of strings: the tokens are the same, the first part leaves
no call and no array open, and the second part never reaches down to the values of the first.
-/

namespace PrefixCalc.Session

open Token

variable {s : Session} {text : Text} {result : Except Failure Value} {env : Environment}

private theorem eval_of_evaluate (persistent : s.persistent = true)
    (h : Machine.evaluate s.registry s.env (read text) = ⟨result, env⟩) :
    s.eval text = (result, { s with env }) := by
  simp only [eval, start, keep, persistent, if_true, h]

private theorem evaluate_of_eval (persistent : s.persistent = true) (h : (s.eval text).1 = result) :
    ∃ env, Machine.evaluate s.registry s.env (read text) = ⟨result, env⟩ ∧
      (s.eval text).2 = { s with env } := by
  simp only [eval, start, keep, persistent, if_true] at h ⊢
  exact ⟨_, by rw [← h], rfl⟩

/-- **A program in two texts.** If the quotes of a text pair up, and it yields a value in a
persistent session, and another text yields a value in the session after it, then the two texts
with a line break between them yield that second value and leave the same session. -/
theorem eval_joined (s : Session) (persistent : s.persistent = true) (first second : Text)
    (even : first.count (.char '"') % 2 = 0) (value₁ value₂ : Value)
    (ok₁ : (s.eval first).1 = .ok value₁) (ok₂ : ((s.eval first).2.eval second).1 = .ok value₂) :
    s.eval (first ++ "\n" ++ second) = (.ok value₂, ((s.eval first).2.eval second).2) := by
  obtain ⟨env₁, evaluated₁, left₁⟩ := evaluate_of_eval persistent ok₁
  rw [left₁] at ok₂ ⊢
  obtain ⟨env₂, evaluated₂, left₂⟩ :=
    evaluate_of_eval (s := { s with env := env₁ }) persistent ok₂
  rw [left₂]
  -- the offsets of the second part differ, but not what its tokens say
  have lexemes : (significant (read (first ++ "\n" ++ second))).map lexeme
      = (significant (read first)).map lexeme ++ (significant (read second)).map lexeme := by
    have cut := significant_read_line even second
    have newline : first ++ "\n" ++ second = first ++ .char '\n' :: second := by
      rw [List.append_assoc]
      rfl
    rw [newline, cut, List.map_append, List.map_map]
    rfl
  apply eval_of_evaluate persistent
  exact Machine.evaluate_of_lexemes evaluated₁ evaluated₂ lexemes

/-- A definition in the first text is there for the second, and the parens in the strings do
not count. -/
theorem eval_joined_definition :
    (({} : Session).eval "(def x \")\")").1 = .ok (.string ")") ∧
    (({} : Session).eval ("(def x \")\")" ++ "\n" ++ "(concat x \"(\")")).1
      = .ok (.string ")(") := by
  have first : read "(def x \")\")" = [⟨.openParen, 0⟩, ⟨.identifier "def", 1⟩,
      ⟨.whitespace " ", 4⟩, ⟨.identifier "x", 5⟩, ⟨.whitespace " ", 6⟩,
      ⟨.literal .string (.string ")"), 7⟩, ⟨.closeParen, 10⟩] := by
    rw [read_eq_onePassFrom]
    decide +kernel
  have second : read "(concat x \"(\")" = [⟨.openParen, 0⟩, ⟨.identifier "concat", 1⟩,
      ⟨.whitespace " ", 7⟩, ⟨.identifier "x", 8⟩, ⟨.whitespace " ", 9⟩,
      ⟨.literal .string (.string "("), 10⟩, ⟨.closeParen, 13⟩] := by
    rw [read_eq_onePassFrom]
    decide +kernel
  have ok₁ : (({} : Session).eval "(def x \")\")").1 = .ok (.string ")") := by
    simp only [eval, first]
    rfl
  have ok₂ : ((({} : Session).eval "(def x \")\")").2.eval "(concat x \"(\")").1
      = .ok (.string ")(") := by
    simp only [eval, first, second]
    rfl
  have joined := eval_joined {} rfl "(def x \")\")" "(concat x \"(\")" (by decide) _ _ ok₁ ok₂
  exact ⟨ok₁, congrArg Prod.fst joined⟩

end PrefixCalc.Session
