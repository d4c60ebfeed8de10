import PrefixCalc.Machine
import PrefixCalc.Proofs.Token.Paren

/-!
# Definitions among tokens

Which constants a token sequence binds can be told without running it: a definition is known
by its word in function position and by the three tokens behind the word. Its `Site` is its name,
where the name stands, and its literal.
-/

namespace PrefixCalc.Token

/-! ## §1 Sites -/

/-- A definition as it stands among tokens: its name and where that stands, and its literal. -/
structure Site where
  name : Text
  offset : Int
  kind : ScalarKind
  value : Scalar

/-- The definition whose word stands in front of the tokens. -/
def site? : List Token → Option Site
  | key :: literal :: close :: _ =>
    match key.lexeme, literal.lexeme, close.lexeme with
    | .identifier name, .literal kind value, .closeParen => some ⟨name, key.offset, kind, value⟩
    | _, _, _ => none
  | _ => none

/-- The definitions among the tokens, in order; `due` says whether the name of a function is due in
front of them. -/
def sites : (due : Bool) → List Token → List Site
  | _, [] => []
  | due, t :: rest =>
    match t.lexeme with
    | .openParen => sites true rest
    | .closeParen => sites false rest
    | .identifier name =>
      if due && name = definitionWord then (site? rest).toList ++ sites false rest
      else sites false rest
    | _ => sites due rest

/-- The names and the literals of the definitions among the tokens, in order. -/
def definitions (due : Bool) (tokens : List Token) : List (Text × Scalar) :=
  (sites due tokens).map fun site => (site.name, site.value)

/-! ## §2 Tokens in front -/

/-- The tokens of a definition. -/
theorem eq_of_site? {tokens : List Token} {site : Site} (found : site? tokens = some site) :
    ∃ key literal close rest, tokens = key :: literal :: close :: rest ∧
      key.lexeme = .identifier site.name ∧ literal.lexeme = .literal site.kind site.value ∧
      close.lexeme = .closeParen ∧ key.offset = site.offset := by
  unfold site? at found
  split at found
  · split at found
    · cases found
      exact ⟨_, _, _, _, rfl, ‹_›, ‹_›, ‹_›, rfl⟩
    · cases found
  · cases found

variable {t : Token} {rest : List Token} {due : Bool}

theorem sites_openParen (lexeme : t.lexeme = .openParen) :
    sites due (t :: rest) = sites true rest := by
  simp only [sites, lexeme]

theorem sites_closeParen (lexeme : t.lexeme = .closeParen) :
    sites due (t :: rest) = sites false rest := by
  simp only [sites, lexeme]

theorem sites_of_plain (notParen : t.isParen = false) (notName : t.isName = false) :
    sites due (t :: rest) = sites due rest := by
  cases lexeme : t.lexeme with
  | openParen | closeParen => simp [isParen, lexeme] at notParen
  | identifier name => simp [isName, lexeme] at notName
  | literal kind value | whitespace blank | openBracket | closeBracket =>
    simp only [sites, lexeme]

/-- A name opens a definition only if it is the word and stands in function position. -/
theorem sites_identifier {name : Text} (lexeme : t.lexeme = .identifier name)
    (ordinary : due = true → name ≠ definitionWord) :
    sites due (t :: rest) = sites false rest := by
  have notWord : ¬ (due && name = definitionWord) = true := by
    simp only [Bool.and_eq_true, decide_eq_true_eq]
    rintro ⟨isDue, word⟩
    exact ordinary isDue word
  simp only [sites, lexeme]
  rw [if_neg notWord]

theorem sites_word {site : Site} (lexeme : t.lexeme = .identifier definitionWord)
    (form : site? rest = some site) : sites true (t :: rest) = site :: sites false rest := by
  simp [sites, lexeme, form]

end PrefixCalc.Token
