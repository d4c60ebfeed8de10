import PrefixCalc.Token.Basic

/-!
# Parens among tokens

What can be said of the parens of a token sequence without running it: the word they
form, when that word is balanced, and where in the sequence the name of a function is
due.
-/

namespace PrefixCalc

namespace Token

/-! ## §1 Kinds of token -/

/-- Whether a token opens or closes a call. -/
def isParen (t : Token) : Bool :=
  match t.lexeme with
  | .openParen | .closeParen => true
  | _ => false

/-- Whether a token is a name. -/
def isName (t : Token) : Bool :=
  match t.lexeme with
  | .identifier _ => true
  | _ => false

theorem isParen_eq_true_iff {t : Token} :
    t.isParen = true ↔ t.lexeme = .openParen ∨ t.lexeme = .closeParen := by
  unfold isParen
  cases t.lexeme <;> simp

theorem isName_eq_true_iff {t : Token} :
    t.isName = true ↔ ∃ name, t.lexeme = .identifier name := by
  unfold isName
  cases t.lexeme <;> simp

theorem isParen_of_isName {t : Token} (h : t.isName = true) : t.isParen = false := by
  obtain ⟨name, lexeme⟩ := isName_eq_true_iff.mp h
  simp [isParen, lexeme]

/-! ## §2 The word of parens -/

/-- The parens of a token sequence, in order. -/
def parens (tokens : List Token) : List Lexeme := (tokens.filter isParen).map Token.lexeme

theorem parens_cons_of_isParen {t : Token} (h : t.isParen = true) (rest : List Token) :
    parens (t :: rest) = t.lexeme :: parens rest := by
  simp [parens, h]

theorem parens_cons_of_not_isParen {t : Token} (h : t.isParen = false) (rest : List Token) :
    parens (t :: rest) = parens rest := by
  simp [parens, h]

@[simp] theorem parens_append (front back : List Token) :
    parens (front ++ back) = parens front ++ parens back := by
  simp [parens]

theorem parens_eq_nil {tokens : List Token} (h : ∀ t ∈ tokens, t.isParen = false) :
    parens tokens = [] := by
  simpa [parens] using h

theorem parens_significant (tokens : List Token) :
    parens (significant tokens) = parens tokens := by
  have kept : ∀ t : Token, (t.isParen && !t.lexeme.isBlank) = t.isParen := by
    intro t
    unfold isParen Lexeme.isBlank
    cases t.lexeme <;> rfl
  simp only [parens, significant, List.filter_filter, kept]

/-- A word of parens in which each open paren has a close paren of its own. -/
inductive Balanced : List Lexeme → Prop where
  | nil : Balanced []
  | nest {inside after : List Lexeme} : Balanced inside → Balanced after →
      Balanced (.openParen :: (inside ++ .closeParen :: after))

/-- The word of a call: the parens of its body between two of its own. -/
theorem parens_call {opening head closing : Token} {lead : List Token}
    (isOpen : opening.lexeme = .openParen) (plain : ∀ t ∈ lead, t.isParen = false)
    (headName : head.isName = true) (isClose : closing.lexeme = .closeParen)
    (body after : List Token) :
    parens (opening :: (lead ++ head :: (body ++ closing :: after)))
      = .openParen :: (parens body ++ .closeParen :: parens after) := by
  have opens : opening.isParen = true := isParen_eq_true_iff.mpr (.inl isOpen)
  have closes : closing.isParen = true := isParen_eq_true_iff.mpr (.inr isClose)
  rw [parens_cons_of_isParen opens, isOpen, parens_append, parens_eq_nil plain, List.nil_append,
    parens_cons_of_not_isParen (isParen_of_isName headName), parens_append,
    parens_cons_of_isParen closes, isClose]

/-! ## §3 Function position -/

/-- Behind these tokens the name of a function is due: neither a name nor a paren stands
behind the last open paren. -/
def FunctionDue (tokens : List Token) : Prop :=
  ∃ front opening back, tokens = front ++ opening :: back ∧ opening.lexeme = .openParen ∧
    ∀ t ∈ back, t.isParen = false ∧ t.isName = false

theorem not_functionDue_nil : ¬ FunctionDue [] := by
  rintro ⟨front, opening, back, split, -⟩
  simp at split

/-- The last token decides, unless it is neither a name nor a paren. -/
theorem functionDue_append_singleton {tokens : List Token} {t : Token} :
    FunctionDue (tokens ++ [t]) ↔
      t.lexeme = .openParen ∨ (t.isParen = false ∧ t.isName = false ∧ FunctionDue tokens) := by
  constructor
  · rintro ⟨front, opening, back, split, isOpen, plain⟩
    rcases List.eq_nil_or_concat back with rfl | ⟨back, last, rfl⟩
    · -- the open paren is the last token
      obtain ⟨-, same⟩ := List.append_inj' split rfl
      cases same
      exact .inl isOpen
    · rw [List.concat_eq_append] at split plain
      have split' : tokens ++ [t] = (front ++ opening :: back) ++ [last] := by simpa using split
      obtain ⟨rfl, same⟩ := List.append_inj' split' rfl
      cases same
      have lastPlain := plain t (by simp)
      exact .inr ⟨lastPlain.1, lastPlain.2, front, opening, back, rfl, isOpen,
        fun u hu => plain u (by simp [hu])⟩
  · rintro (isOpen | ⟨notParen, notName, front, opening, back, rfl, isOpen, plain⟩)
    · exact ⟨tokens, t, [], rfl, isOpen, by simp⟩
    · refine ⟨front, opening, back ++ [t], by simp, isOpen, ?_⟩
      intro u hu
      rcases List.mem_append.mp hu with inBack | isLast
      · exact plain u inBack
      · rw [List.mem_singleton.mp isLast]
        exact ⟨notParen, notName⟩

theorem not_functionDue_of_isName {head : Token} {back : List Token}
    (headName : head.isName = true) (plain : ∀ t ∈ back, t.isParen = false)
    (front : List Token) : ¬ FunctionDue (front ++ head :: back) := by
  rintro ⟨front', opening, back', split, isOpen, plain'⟩
  have opens : opening.isParen = true := isParen_eq_true_iff.mpr (.inl isOpen)
  have notSame : head ≠ opening := by
    rintro rfl
    simp [isParen_of_isName headName] at opens
  rcases List.append_eq_append_iff.mp split with ⟨between, -, order⟩ | ⟨between, -, order⟩
  · -- the open paren would stand behind the name
    cases between with
    | nil => exact notSame (List.cons.inj order).1
    | cons first between =>
      have isBack : opening ∈ back := by simp [(List.cons.inj order).2]
      simp [plain opening isBack] at opens
  · -- the name would stand behind the open paren
    cases between with
    | nil => exact notSame (List.cons.inj order).1.symm
    | cons first between =>
      have isBack : head ∈ back' := by simp [(List.cons.inj order).2]
      simp [(plain' head isBack).2] at headName

end Token

end PrefixCalc
