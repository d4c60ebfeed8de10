import PrefixCalc.Editor.Index
import PrefixCalc.Proofs.Token.Line
import PrefixCalc.Proofs.Token.Overlap

/-!
# Unmatched quotes

The index asks whether the number of quotes is odd, and the tokens tell which quotes belong to
strings. Both say the same: every other quote ends the string that the one before it starts, so only
the last quote can be left over, and it is if and only if their number is odd.
-/

namespace PrefixCalc

open Text Token Piece

variable {text front back rest : Text} {piece : Piece} {t : Token} {i j : Nat}

/-! ## §1 Quotes and strings -/

/-- The place lies in the string that the token is, the two quotes included. -/
def Token.Quotes (t : Token) (i : Nat) : Prop :=
  ∃ content, t.lexeme = .literal .string (.string content) ∧ t.offset ≤ i ∧
    i < t.offset + (content.length + 2)

/-- A quote stands at the place, and it belongs to no string. -/
def LooseQuote (text : Text) (i : Nat) : Prop :=
  text[i]? = some (.char '"') ∧ ∀ t ∈ read text, ¬ t.Quotes i

/-- What a kind reads as a string is the content between quotes. -/
theorem Candidate.Reads.eq_string {kind : TokenKind} {lexeme : Lexeme} {content : Text}
    (reads : Reads kind text lexeme) (same : lexeme = .literal .string (.string content)) :
    text = .char '"' :: (content ++ [.char '"']) := by
  cases reads with
  | string inside plain =>
    cases same
    rfl
  | mark m => cases m <;> cases same
  | _ => cases same

/-- A string lies in its text. -/
theorem Token.lt_of_quotes (member : t ∈ read text) (quotes : t.Quotes i) : i < text.length := by
  obtain ⟨content, lexeme, -, inside⟩ := quotes
  obtain ⟨before, front, behind, rfl, place, -, -, reads⟩ := exists_split_of_mem_read member
  have length := congrArg List.length (reads.eq_string lexeme)
  simp only [List.length_append, List.length_cons, List.length_nil] at length ⊢
  omega

private theorem quotes_shift {n : Nat} : (t.shift n).Quotes (n + i) ↔ t.Quotes i := by
  simp only [Quotes, Token.shift]
  refine exists_congr fun content => and_congr_right fun _ => ?_
  omega

/-- A token behind a place has nothing to do with it. -/
theorem not_quotes_shift (member : t ∈ read rest) {n : Nat} (inside : i < n) :
    ¬ (t.shift n).Quotes i := by
  rintro ⟨_, -, starts, -⟩
  obtain ⟨before, _, _, _, place, _⟩ := exists_split_of_mem_read member
  simp only [Token.shift] at starts
  omega

/-! ## §2 One piece -/

/-- The tokens of a piece are those of its text by itself. -/
theorem tokens_eq_read (h : Taken rest piece) : piece.tokens 0 = read piece.text :=
  (map_toToken_of_taken h).symm

/-- In front of the rest of the text, a piece that is no open quote leaves no quote over. -/
theorem looseQuote_append (h : Taken rest piece) (closed : piece ≠ dropped (.char '"')) :
    LooseQuote (piece.text ++ rest) i ↔
      ∃ j, i = piece.text.length + j ∧ LooseQuote rest j := by
  rw [LooseQuote, read_append h]
  constructor
  · rintro ⟨quote, loose⟩
    by_cases inside : i < piece.text.length
    · -- the quotes of a string belong to it
      rw [List.getElem?_append_left inside] at quote
      have member := List.mem_of_getElem? quote
      obtain ⟨content, rfl, -⟩ := (quoted_of_mem h member).resolve_right closed
      refine absurd ⟨content, rfl, Int.natCast_nonneg i, ?_⟩
        (loose _ (List.mem_append_left _ (List.mem_singleton_self _)))
      simp [Piece.text] at inside ⊢
      omega
    · obtain ⟨j, rfl⟩ := Nat.exists_eq_add_of_le (Nat.le_of_not_lt inside)
      rw [List.getElem?_append_right (Nat.le_add_right ..), Nat.add_sub_cancel_left] at quote
      refine ⟨j, rfl, quote, fun t member => ?_⟩
      rw [← quotes_shift]
      exact loose _ (List.mem_append_right _ (List.mem_map_of_mem member))
  · rintro ⟨j, rfl, quote, loose⟩
    refine ⟨?_, fun t member => ?_⟩
    · rwa [List.getElem?_append_right (Nat.le_add_right ..), Nat.add_sub_cancel_left]
    rcases List.mem_append.mp member with member | member
    · rw [tokens_eq_read h] at member
      intro quotes
      have := lt_of_quotes member quotes
      omega
    · obtain ⟨u, among, rfl⟩ := List.mem_map.mp member
      rw [quotes_shift]
      exact loose u among

/-- An open quote is left over, and it is the only one, since no quote follows it. -/
theorem looseQuote_open (last : .char '"' ∉ rest) :
    LooseQuote ((dropped (.char '"')).text ++ rest) i ↔ i = 0 := by
  rw [LooseQuote, read_append (.quote last), Piece.tokens, List.nil_append]
  constructor
  · rintro ⟨quote, -⟩
    cases i with
    | zero => rfl
    | succ i =>
      rw [Piece.text, List.singleton_append, List.getElem?_cons_succ] at quote
      exact absurd (List.mem_of_getElem? quote) last
  · rintro rfl
    refine ⟨rfl, fun t member => ?_⟩
    obtain ⟨u, among, rfl⟩ := List.mem_map.mp member
    exact not_quotes_shift among Nat.one_pos

/-! ## §3 The whole text -/

/-- Either the quotes of a text pair up and none is left over, or the last one is. -/
theorem looseQuote_cases (text : Text) :
    (text.count (.char '"') % 2 = 0 ∧ ∀ i, ¬ LooseQuote text i) ∨
      (text.count (.char '"') % 2 = 1 ∧ ∃ front back, text = front ++ .char '"' :: back ∧
        .char '"' ∉ back ∧ ∀ i, LooseQuote text i ↔ i = front.length) := by
  -- by the length, since what follows the first piece is a shorter text
  induction size : text.length using Nat.strongRecOn generalizing text with
  | ind n ih =>
    cases text with
    | nil => exact .inl ⟨rfl, fun i loose => nomatch loose.1⟩
    | cons c text =>
      obtain ⟨rest, split, taken⟩ := exists_taken c text
      generalize Piece.first c text = piece at split taken
      rw [split] at size ⊢
      by_cases closed : piece = dropped (.char '"')
      · subst closed
        have last := not_mem_of_taken_quote taken
        refine .inr ⟨?_, [], rest, rfl, last, fun i => looseQuote_open last⟩
        simp [Piece.text, List.count_eq_zero.mpr last]
      · -- any other piece holds both of its quotes or none, so the rest decides
        have pairs := count_quote taken closed
        have some := List.length_pos_iff.mpr (text_ne_nil taken)
        rw [List.length_append] at size
        rw [List.count_append]
        rcases ih rest.length (by omega) rest rfl with
          ⟨even, none⟩ | ⟨odd, front, back, rfl, last, only⟩
        · refine .inl ⟨by omega, fun i loose => ?_⟩
          obtain ⟨j, -, loose⟩ := (looseQuote_append taken closed).mp loose
          exact none j loose
        · refine .inr ⟨by omega, piece.text ++ front, back, by simp, last, fun i => ?_⟩
          rw [looseQuote_append taken closed, List.length_append]
          simp only [only]
          constructor
          · rintro ⟨j, rfl, rfl⟩
            rfl
          · rintro rfl
            exact ⟨_, rfl, rfl⟩

namespace Index

/-- **Unmatched quotes.** The index reports an unmatched quote exactly if some quote of the text
belongs to no string. Then this quote is the only one, and it is the last quote of the text. -/
theorem unmatchedQuote_ofText (text : Text) :
    ((ofText text).unmatchedQuote = true ↔ ∃ i, LooseQuote text i) ∧
    ∀ i, LooseQuote text i → (∀ j, text[j]? = some (.char '"') → j ≤ i) ∧
      ∀ j, LooseQuote text j → j = i := by
  have flag : (ofText text).unmatchedQuote = (text.count (.char '"') % 2 == 1) := rfl
  rw [flag, beq_iff_eq]
  rcases looseQuote_cases text with ⟨even, none⟩ | ⟨odd, front, back, split, last, only⟩
  · refine ⟨iff_of_false (by omega) fun ⟨i, loose⟩ => none i loose, fun i loose => ?_⟩
    exact absurd loose (none i)
  · refine ⟨iff_of_true odd ⟨_, (only _).mpr rfl⟩, fun i loose => ?_⟩
    refine ⟨fun j quote => ?_, fun j other => ?_⟩
    · rw [(only i).mp loose]
      refine Nat.le_of_not_lt fun behind => last ?_
      rw [split, List.getElem?_append_right behind.le] at quote
      obtain ⟨k, place⟩ := Nat.exists_eq_add_of_lt behind
      rw [place, Nat.add_assoc, Nat.add_sub_cancel_left, List.getElem?_cons_succ] at quote
      exact List.mem_of_getElem? quote
    · rw [(only i).mp loose, (only j).mp other]

end Index

end PrefixCalc
