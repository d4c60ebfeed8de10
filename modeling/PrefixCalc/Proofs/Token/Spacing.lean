import PrefixCalc.Proofs.Machine.Place
import PrefixCalc.Proofs.Token.Trim
import PrefixCalc.Session

/-!
# Spacing

How blank characters are spread between tokens does not matter. Each blank token may become any
other run of blank characters, and such runs may come or go at the ends of a text: the other tokens
say what they said, so the text is evaluated alike. Blank characters inside strings are no tokens
and stay as they are.
-/

namespace PrefixCalc

open Text

namespace Token

open Piece

variable {fill : Token → Text} {offset : Nat} {tokens first : List Token}
  {text other front back rest run : Text} {piece : Piece} {t : Token}

/-! ## §1 Other runs in place of blank tokens -/

/-- The text from `offset` on, with `fill t` in place of each blank token `t` among the tokens. -/
def respaceFrom (fill : Token → Text) : (offset : Nat) → List Token → Text → Text
  | _, [], text => text
  | offset, t :: tokens, text =>
    match t.lexeme with
    | .whitespace run =>
      let before := t.offset.toNat - offset
      text.take before ++ fill t
        ++ respaceFrom fill (offset + before + run.length) tokens
            (text.drop (before + run.length))
    | _ => respaceFrom fill offset tokens text

/-- The text with `fill t` in place of each of its blank tokens `t`. -/
def respace (fill : Token → Text) (text : Text) : Text := respaceFrom fill 0 (read text) text

private theorem respaceFrom_of_solid (solid : ∀ t ∈ first, t.lexeme.isBlank = false)
    (tokens : List Token) (text : Text) :
    respaceFrom fill offset (first ++ tokens) text = respaceFrom fill offset tokens text := by
  induction first with
  | nil => rfl
  | cons t first ih =>
    obtain ⟨notBlank, others⟩ := List.forall_mem_cons.mp solid
    rw [List.cons_append, respaceFrom]
    cases lexeme : t.lexeme with
    | whitespace run => simp [lexeme, Lexeme.isBlank] at notBlank
    | _ => exact ih others

/-- What stands in front of all tokens is kept. -/
theorem respaceFrom_append (behind : ∀ t ∈ tokens, ((offset + front.length : Nat) : Int) ≤ t.offset)
    (back : Text) :
    respaceFrom fill offset tokens (front ++ back)
      = front ++ respaceFrom fill (offset + front.length) tokens back := by
  induction tokens with
  | nil => rfl
  | cons t tokens ih =>
    obtain ⟨later, others⟩ := List.forall_mem_cons.mp behind
    rw [respaceFrom, respaceFrom]
    cases lexeme : t.lexeme with
    | whitespace run =>
      -- the distance to the token is measured from either side of `front`
      obtain ⟨distance, place⟩ : ∃ distance, t.offset.toNat = offset + front.length + distance :=
        ⟨t.offset.toNat - (offset + front.length), by omega⟩
      have before : t.offset.toNat - offset = front.length + distance := by omega
      have before' : t.offset.toNat - (offset + front.length) = distance := by omega
      simp only [before, before', Nat.add_assoc, List.take_length_add_append,
        List.drop_length_add_append, List.append_assoc]
    | _ => exact ih others

/-! ## §2 Piece by piece -/

private theorem not_isBlank_of_mem_truths (member : t ∈ truths offset run) :
    t.lexeme.isBlank = false := by
  induction run generalizing offset with
  | nil => cases member
  | cons c run ih =>
    rw [truths] at member
    split at member
    · rcases List.mem_cons.mp member with rfl | member
      · rfl
      · exact ih member
    split at member
    · rcases List.mem_cons.mp member with rfl | member
      · rfl
      · exact ih member
    · exact ih member

/-- Only a run of blank characters is a blank token. -/
theorem not_isBlank_of_mem_tokens (solid : ∀ run, piece ≠ blank run)
    (member : t ∈ piece.tokens offset) : t.lexeme.isBlank = false := by
  cases piece with
  | blank run => exact absurd rfl (solid run)
  | mark m =>
    rw [List.mem_singleton.mp member]
    cases m <;> rfl
  | letters run =>
    rw [Piece.tokens] at member
    split at member
    · rw [List.mem_singleton.mp member]
      rfl
    · exact not_isBlank_of_mem_truths member
  | quoted _ | decimal _ _ | digits _ =>
    rw [List.mem_singleton.mp member]
    rfl
  | dropped c => cases member

private theorem offset_nonneg_of_mem_read (member : t ∈ read text) : 0 ≤ t.offset := by
  obtain ⟨candidate, -, rfl⟩ := List.mem_map.mp member
  exact Int.natCast_nonneg _

/-- The tokens of a text that stands at `offset`. -/
def readAt (offset : Nat) (text : Text) : List Token := (read text).map (shift offset)

private theorem readAt_append (h : Taken rest piece) (offset : Nat) :
    readAt offset (piece.text ++ rest)
      = piece.tokens offset ++ readAt (offset + piece.text.length) rest := by
  have first : (piece.tokens 0).map (shift offset) = piece.tokens offset := by
    rw [← tokens_add, Nat.zero_add]
  rw [readAt, read_append h, List.map_append, first, List.map_map, readAt]
  simp only [Function.comp_def, shift_shift]

private theorem le_offset_of_mem_readAt (member : t ∈ readAt offset text) :
    (offset : Int) ≤ t.offset := by
  obtain ⟨u, inText, rfl⟩ := List.mem_map.mp member
  have := offset_nonneg_of_mem_read inText
  simp only [shift]
  omega

private theorem respaceFrom_piece (h : Taken rest piece) (solid : ∀ run, piece ≠ blank run) :
    respaceFrom fill offset (readAt offset (piece.text ++ rest)) (piece.text ++ rest)
      = piece.text ++ respaceFrom fill (offset + piece.text.length)
          (readAt (offset + piece.text.length) rest) rest := by
  rw [readAt_append h, respaceFrom_of_solid fun t => not_isBlank_of_mem_tokens solid,
    respaceFrom_append fun t => le_offset_of_mem_readAt]

private theorem respaceFrom_blank (fill : Token → Text) (offset : Nat)
    (h : Taken rest (blank run)) :
    respaceFrom fill offset (readAt offset (run ++ rest)) (run ++ rest)
      = fill ⟨.whitespace run, offset⟩
        ++ respaceFrom fill (offset + run.length) (readAt (offset + run.length) rest) rest := by
  have tokens := readAt_append h offset
  rw [Piece.text] at tokens
  rw [tokens]
  simp [Piece.tokens, respaceFrom]

/-! ## §3 Texts that differ in their spacing -/

/-- Two texts say the same, start alike, and the second one holds no quote that the first one does
not hold. -/
structure Alike (text other : Text) : Prop where
  lexemes : (significant (read other)).map lexeme = (significant (read text)).map lexeme
  head : other.head? = text.head? ∨
    (∃ c ∈ text.head?, isBlank c = true) ∧ ∃ c ∈ other.head?, isBlank c = true
  quote : .char '"' ∈ other → .char '"' ∈ text

/-- Behind a piece, texts that start alike are cut off alike. -/
theorem Alike.taken (alike : Alike rest other) (h : Taken rest piece) : Taken other piece := by
  refine taken_of_heads h (fun p stops ends => ?_) ?_ ?_
  · rcases alike.head with same | ⟨-, c, first, isBlank⟩
    · rwa [same]
    · intro d first'
      rw [Option.mem_unique first' first]
      exact stops c isBlank
  · rintro run rfl
    cases h with
    | blank _ _ _ ends =>
      rcases alike.head with same | ⟨⟨c, first, isBlank⟩, -⟩
      · rwa [same]
      · -- a run of blank characters is over behind its piece
        rw [ends c first] at isBlank
        cases isBlank
  · rintro rfl quote
    exact not_mem_of_taken_quote h (alike.quote quote)

theorem Alike.append (alike : Alike rest other) (h : Taken rest piece) :
    Alike (piece.text ++ rest) (piece.text ++ other) := by
  refine ⟨?_, .inl ?_, fun quote => ?_⟩
  · rw [significant_read_append (alike.taken h), significant_read_append h, List.map_append,
      List.map_append, List.map_map, List.map_map]
    exact congrArg (_ ++ ·) alike.lexemes
  · rw [List.head?_append_of_ne_nil _ (text_ne_nil h),
      List.head?_append_of_ne_nil _ (text_ne_nil h)]
  · exact List.mem_append.mpr ((List.mem_append.mp quote).imp_right alike.quote)

theorem Alike.blank {run' : Text} (alike : Alike rest other) (nonempty : run ≠ [])
    (all : ∀ c ∈ run, isBlank c = true) (nonempty' : run' ≠ [])
    (all' : ∀ c ∈ run', isBlank c = true) : Alike (run ++ rest) (run' ++ other) := by
  refine ⟨?_, .inr ⟨?_, ?_⟩, fun quote => ?_⟩
  · rw [significant_read_blank all', significant_read_blank all, List.map_map, List.map_map]
    exact alike.lexemes
  · exact ⟨run.head nonempty, by simp [List.head?_append, List.head?_eq_some_head nonempty],
      all _ (List.head_mem nonempty)⟩
  · exact ⟨run'.head nonempty', by simp [List.head?_append, List.head?_eq_some_head nonempty'],
      all' _ (List.head_mem nonempty')⟩
  · rcases List.mem_append.mp quote with member | member
    · cases all' _ member
    · exact List.mem_append_right run (alike.quote member)

/-- **Spacing between tokens.** A text with other runs of blank characters in place of its blank
tokens says the same. -/
theorem alike_respaceFrom (fill : Token → Text) (text : Text) (offset : Nat)
    (runs : ∀ t ∈ readAt offset text, t.lexeme.isBlank = true →
      fill t ≠ [] ∧ ∀ c ∈ fill t, isBlank c = true) :
    Alike text (respaceFrom fill offset (readAt offset text) text) := by
  -- by the length, since what follows the first piece is a shorter text
  induction size : text.length using Nat.strongRecOn generalizing text offset with
  | ind n ih =>
    cases text with
    | nil =>
      rw [readAt, read_nil]
      exact ⟨rfl, .inl rfl, id⟩
    | cons c text =>
      obtain ⟨rest, split, taken⟩ := exists_taken c text
      generalize Piece.first c text = piece at split taken
      rw [split] at runs size ⊢
      rw [readAt_append taken] at runs
      have some := List.length_pos_iff.mpr (text_ne_nil taken)
      rw [List.length_append] at size
      have alike := ih rest.length (by omega) rest (offset + piece.text.length)
        (fun t member => runs t (List.mem_append_right _ member)) rfl
      by_cases isRun : ∃ run, piece = blank run
      · obtain ⟨run, rfl⟩ := isRun
        obtain ⟨nonempty', all'⟩ := runs ⟨.whitespace run, offset⟩ (by simp [Piece.tokens]) rfl
        cases taken with
        | blank _ nonempty all ends =>
          have respaced := respaceFrom_blank fill offset (.blank run nonempty all ends)
          rw [Piece.text, respaced]
          exact alike.blank nonempty all nonempty' all'
      · have solid : ∀ run, piece ≠ blank run := fun run same => isRun ⟨run, same⟩
        rw [respaceFrom_piece taken solid]
        exact alike.append taken

end Token

/-! ## §4 The law of spacing -/

/-- A text is spaced anew as another one: each of its blank tokens becomes some run of blank
characters, and then the texts differ at most in the blank characters at their ends. -/
def Respaced (text other : Text) : Prop :=
  ∃ fill : Token → Text,
    (∀ t ∈ Token.read text, t.lexeme.isBlank = true →
      fill t ≠ [] ∧ ∀ c ∈ fill t, isBlank c = true) ∧
    trim other = trim (Token.respace fill text)

private theorem Token.lexemes_respaced {text other : Text} (h : Respaced text other) :
    (significant (read other)).map lexeme = (significant (read text)).map lexeme := by
  obtain ⟨fill, runs, trimmed⟩ := h
  have unmoved : readAt 0 text = read text := shift_zero _
  have alike := alike_respaceFrom fill text 0 (by rwa [unmoved])
  rw [unmoved] at alike
  rw [lexemes_trim other, trimmed, ← lexemes_trim, ← alike.lexemes]
  rfl

/-- **Spacing does not matter.** A text and one that it is spaced anew as are evaluated alike, in
any environment: they yield the same value or fail of the same mistake, at most at different
places, and leave the same constants. -/
theorem evaluate_respaced (registry : Registry) (env : Environment) (text other : Text)
    (h : Respaced text other) :
    (Machine.evaluate registry env (Token.read text)).unplaced
      = (Machine.evaluate registry env (Token.read other)).unplaced :=
  Machine.evaluate_congr (Token.lexemes_respaced h).symm

/-- A text with blank characters inside a string, and with a quote at its end that opens none. -/
def crampedText : Text := "(if true (plus x 1) \"a  b\") \""

/-- The same with other blank characters between its tokens and with more of them at its ends. -/
def spreadText : Text := "  (if\n\ttrue\n\t(plus\n\tx\n\t1)\n\t\"a  b\")\n\t\"\n"

private theorem respaced_spreadText : Respaced crampedText spreadText := by
  refine ⟨fun _ => "\n\t", ?_, ?_⟩
  · rw [Token.read_eq_onePassFrom]
    decide +kernel
  · rw [Token.respace, Token.read_eq_onePassFrom]
    decide +kernel

/-- The name that nothing is bound to is blamed on both texts, each time where it stands. -/
theorem evaluate_respaced_spreadText :
    Respaced crampedText spreadText ∧
    (Machine.evaluate .standard {} (Token.read crampedText)).unplaced
      = (Machine.evaluate .standard {} (Token.read spreadText)).unplaced ∧
    evaluate crampedText = .error (.refused (.undefinedConstant "x") (some 15)) ∧
    evaluate spreadText = .error (.refused (.undefinedConstant "x") (some 20)) := by
  refine ⟨respaced_spreadText,
    evaluate_respaced .standard {} crampedText spreadText respaced_spreadText, ?_, ?_⟩
  · rw [evaluate, Token.read_eq_onePassFrom]
    rfl
  · rw [evaluate, Token.read_eq_onePassFrom]
    rfl

end PrefixCalc
