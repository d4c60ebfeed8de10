import Mathlib.Data.List.Induction
import PrefixCalc.Proofs.Token.Line

/-!
# Matching marks

Open and close marks of one sort are paired from left to right: a close mark is the partner of the
newest open one that waits for one. What the pairing leaves over are the open marks that still wait
in the end and the close marks that found none waiting. An open mark behind which another one waits
is nested.
-/

namespace PrefixCalc

/-- What pairing open and close marks from left to right has found out. -/
structure Matching where
  /-- The open marks that wait for their partner, the newest one first. -/
  pending : List Token := []
  /-- The close marks that found no partner, in order. -/
  surplus : List Token := []
  /-- The open marks that stood behind another one that was still waiting, in order. -/
  inner : List Token := []

namespace Matching

variable {opening closing : Lexeme} {m : Matching} {t partner : Token}
  {tokens others : List Token}

/-- An open mark waits, a close mark is the partner of the newest one that waits, and any other
token does not matter. -/
def take (opening closing : Lexeme) (m : Matching) (t : Token) : Matching :=
  if t.lexeme = opening then
    { m with
      pending := t :: m.pending
      inner := if m.pending = [] then m.inner else m.inner ++ [t] }
  else if t.lexeme = closing then
    match m.pending with
    | [] => { m with surplus := m.surplus ++ [t] }
    | _ :: others => { m with pending := others }
  else m

/-- The matching of all tokens. -/
def ofTokens (opening closing : Lexeme) (tokens : List Token) : Matching :=
  tokens.foldl (take opening closing) {}

theorem ofTokens_concat (opening closing : Lexeme) (tokens : List Token) (t : Token) :
    ofTokens opening closing (tokens ++ [t])
      = take opening closing (ofTokens opening closing tokens) t := by
  rw [ofTokens, List.foldl_append]
  rfl

private theorem take_opening (lexeme : t.lexeme = opening) :
    (take opening closing m t).pending = t :: m.pending ∧
      (take opening closing m t).surplus = m.surplus := by
  rw [take, if_pos lexeme]
  exact ⟨rfl, rfl⟩

theorem take_closing_cons (apart : opening ≠ closing) (lexeme : t.lexeme = closing)
    (waits : m.pending = partner :: others) :
    take opening closing m t = { m with pending := others } := by
  rw [take, if_neg (lexeme ▸ apart.symm), if_pos lexeme, waits]

theorem take_closing_nil (apart : opening ≠ closing) (lexeme : t.lexeme = closing)
    (none : m.pending = []) :
    take opening closing m t = { m with surplus := m.surplus ++ [t] } := by
  rw [take, if_neg (lexeme ▸ apart.symm), if_pos lexeme, none]

/-- A close mark stands in no place of an open one. -/
theorem inner_take_closing (apart : opening ≠ closing) (lexeme : t.lexeme = closing) :
    (take opening closing m t).inner = m.inner := by
  cases waits : m.pending with
  | nil => rw [take_closing_nil apart lexeme waits]
  | cons partner others => rw [take_closing_cons apart lexeme waits]

theorem take_other (notOpening : t.lexeme ≠ opening) (notClosing : t.lexeme ≠ closing) :
    take opening closing m t = m := by
  rw [take, if_neg notOpening, if_neg notClosing]

/-- Close marks that find no partner among the tokens at the back are partners of the open marks
that wait in front, as long as there are any. -/
theorem ofTokens_append (apart : opening ≠ closing) (front back : List Token) :
    (ofTokens opening closing (front ++ back)).pending
        = (ofTokens opening closing back).pending
          ++ (ofTokens opening closing front).pending.drop
              (ofTokens opening closing back).surplus.length ∧
      (ofTokens opening closing (front ++ back)).surplus
        = (ofTokens opening closing front).surplus
          ++ (ofTokens opening closing back).surplus.drop
              (ofTokens opening closing front).pending.length := by
  induction back using List.reverseRecOn with
  | nil =>
    have nothing : ofTokens opening closing [] = {} := rfl
    simp [nothing]
  | append_singleton back t ih =>
    obtain ⟨pending, surplus⟩ := ih
    rw [← List.append_assoc, ofTokens_concat, ofTokens_concat]
    -- The last token decides: an open mark waits on either side, and a close mark takes what waits
    -- at the back before anything in front.
    by_cases opens : t.lexeme = opening
    · rw [(take_opening opens).1, (take_opening opens).2, (take_opening opens).1,
        (take_opening opens).2, pending, surplus]
      exact ⟨rfl, rfl⟩
    by_cases closes : t.lexeme = closing
    · cases inside : (ofTokens opening closing back).pending with
      | cons partner others =>
        rw [inside, List.cons_append] at pending
        rw [take_closing_cons apart closes inside, take_closing_cons apart closes pending, surplus]
        exact ⟨rfl, rfl⟩
      | nil =>
        -- the mark is one more at the back that looks for its partner in front
        rw [inside, List.nil_append] at pending
        rw [take_closing_nil apart closes inside, inside, List.length_append, List.length_singleton]
        cases waits : (ofTokens opening closing (front ++ back)).pending with
        | cons partner others =>
          rw [waits] at pending
          have room := congrArg List.length pending
          rw [List.length_cons, List.length_drop] at room
          -- it is the front that still has one to give, so nothing was left over before
          have past : (ofTokens opening closing back).surplus.length + 1
              ≤ (ofTokens opening closing front).pending.length := by omega
          rw [take_closing_cons apart closes waits, List.nil_append, ← List.tail_drop, ← pending,
            List.tail_cons]
          refine ⟨rfl, surplus.trans ?_⟩
          rw [List.drop_eq_nil_of_le (Nat.le_of_lt past), List.drop_eq_nil_of_le]
          rwa [List.length_append, List.length_singleton]
        | nil =>
          rw [waits] at pending
          -- the front has given all it had, and the mark is left over in both
          have past := List.drop_eq_nil_iff.mp pending.symm
          rw [take_closing_nil apart closes waits, waits, surplus, List.nil_append,
            List.drop_append_of_le_length past, List.append_assoc,
            List.drop_eq_nil_of_le (Nat.le_succ_of_le past)]
          exact ⟨rfl, rfl⟩
    · rw [take_other opens closes, take_other opens closes, pending, surplus]
      exact ⟨rfl, rfl⟩

/-- Matching does not depend on where the tokens stand. -/
theorem ofTokens_shift (opening closing : Lexeme) (n : Nat) (tokens : List Token) :
    (ofTokens opening closing (tokens.map (Token.shift n))).pending
        = (ofTokens opening closing tokens).pending.map (Token.shift n) ∧
      (ofTokens opening closing (tokens.map (Token.shift n))).surplus
        = (ofTokens opening closing tokens).surplus.map (Token.shift n) := by
  induction tokens using List.reverseRecOn with
  | nil => exact ⟨rfl, rfl⟩
  | append_singleton tokens t ih =>
    obtain ⟨pending, surplus⟩ := ih
    have lexeme : (Token.shift n t).lexeme = t.lexeme := rfl
    rw [List.map_append, List.map_singleton, ofTokens_concat, ofTokens_concat, take, take, lexeme]
    split
    · simp [pending, surplus]
    split
    · rw [pending]
      cases (ofTokens opening closing tokens).pending <;> simp [surplus]
    · exact ⟨pending, surplus⟩

/-- White space does not matter. -/
theorem ofTokens_significant (opening closing : Lexeme) (notOpening : opening.isBlank = false)
    (notClosing : closing.isBlank = false) (tokens : List Token) :
    ofTokens opening closing (Token.significant tokens) = ofTokens opening closing tokens := by
  induction tokens using List.reverseRecOn with
  | nil => rfl
  | append_singleton tokens t ih =>
    rw [Token.significant_append, ofTokens_concat, ← ih]
    cases blank : t.lexeme.isBlank with
    | false =>
      have kept : Token.significant [t] = [t] := by simp [Token.significant, blank]
      rw [kept, ofTokens_concat]
    | true =>
      have dropped : Token.significant [t] = [] := by simp [Token.significant, blank]
      rw [dropped, List.append_nil, take_other]
      · rintro rfl
        simp [blank] at notOpening
      · rintro rfl
        simp [blank] at notClosing

end Matching

end PrefixCalc
