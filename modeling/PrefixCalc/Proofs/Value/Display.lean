import PrefixCalc.Proofs.Binary64.Layout
import PrefixCalc.Proofs.Expression.Evaluation
import PrefixCalc.Proofs.Machine.Frame
import PrefixCalc.Proofs.Token.Line
import PrefixCalc.Proofs.Value.Written
import PrefixCalc.Session

/-!
# Display and reading

A value on display is a text of the language, and reading it gives the value back, unless the
language has no literal for it: a sign, an exponent and a quote inside a string cannot be
written. The display of a scalar is one piece of text, and the blanks in the display of an
array keep the pieces of its elements apart.
-/

namespace PrefixCalc

open Text Token Piece

/-! ## §1 What is read back -/

/-- The scalars that are read back: whole numbers without a sign and not too long, doubles
without a sign that are written positionally, strings without quotes, and truth values. -/
def Scalar.Readable : Scalar → Prop
  | .int n => 0 ≤ n ∧ (ofNat n.natAbs).length ≤ Limit.maxDigits
  | .float (.finite x) => x.negative = false ∧ x.Moderate
  | .float _ => False
  | .string s => .char '"' ∉ s
  | .boolean _ => True

/-- The values that are read back: such scalars, and flat arrays of them. -/
def Value.Readable : Value → Prop
  | .scalar s => s.Readable
  | .array elements => ∃ scalars : List Scalar, elements = scalars.map .scalar ∧
      ∀ s ∈ scalars, s.Readable

/-! ## §2 Scalars -/

/-- A piece that spells a scalar, whatever blank stands behind it. -/
structure Spells (piece : Piece) (s : Scalar) : Prop where
  shown : s.shown = .ok piece.text
  taken : ∀ rest : Text, (∀ c ∈ rest.head?, isBlank c = true) → Taken rest piece
  tokens : ∀ offset, piece.tokens offset = [⟨.literal s.kind s, offset⟩]

private theorem starts_of_blank_behind {rest : Text} (blank : ∀ c ∈ rest.head?, isBlank c = true)
    (kind : TokenKind) (other : kind ≠ .whitespace) :
    ∀ c ∈ rest.head?, kind.starts c = false :=
  fun c member => TokenKind.starts_of_isBlank (blank c member) other

private theorem exists_spells_int {n : Int} (h : (Scalar.int n).Readable) :
    ∃ piece, Spells piece (.int n) := by
  obtain ⟨nonneg, short⟩ := h
  obtain ⟨k, rfl⟩ := Int.eq_ofNat_of_zero_le nonneg
  have written : Text.decimal (k : Int) = .ok (ofNat k) := decimal_of_short short
  rw [Int.natAbs_natCast] at short
  have digits : Scalar.ofDigits (ofNat k) = .int k := by
    rw [Scalar.ofDigits, if_pos short, digitsValue_ofNat]
  refine ⟨.digits (ofNat k), ⟨written, fun rest blank => ?_, fun offset => ?_⟩⟩
  · exact .digits (ofNat k) (ofNat_ne_nil k) (fun c => isDigit_of_mem_ofNat)
      (starts_of_blank_behind blank (.literal .float) (by decide))
  · rw [Piece.tokens, digits]
    rfl

private theorem exists_spells_float {x : Binary64.Finite}
    (h : (Scalar.float (.finite x)).Readable) :
    ∃ piece, Spells piece (.float (.finite x)) := by
  obtain ⟨positive, moderate⟩ := h
  obtain ⟨whole, fraction, written, denotes⟩ :=
    Binary64.exists_magnitude Scalar.doubleLayout moderate.leading_shortest
  rw [positive] at denotes
  have shown : (Scalar.float (.finite x)).shown
      = .ok (Scalar.doubleLayout.magnitude x.shortest) := by
    simp [Scalar.shown, Scalar.text, Binary64.Layout.write, positive]
  generalize Scalar.doubleLayout.magnitude x.shortest = text at written shown
  cases written with
  | intro nonempty wholeDigits fractionDigits =>
    refine ⟨.decimal whole fraction, ⟨shown, fun rest blank => ?_, fun offset => ?_⟩⟩
    · exact .decimal whole fraction wholeDigits fractionDigits (.inl nonempty)
        (starts_of_blank_behind blank (.literal .int) (by decide))
    · rw [Piece.tokens, denotes]
      rfl

private theorem exists_spells_string {s : Text} (h : (Scalar.string s).Readable) :
    ∃ piece, Spells piece (.string s) := by
  refine ⟨.quoted s, ⟨?_, fun rest blank => ?_, fun offset => rfl⟩⟩
  · show Except.ok (.char '"' :: (s ++ [.char '"'])) = _
    rfl
  · exact .quoted s (fun c member => ne_of_mem_of_not_mem member h)

private theorem exists_spells_boolean (b : Bool) : ∃ piece, Spells piece (.boolean b) := by
  refine ⟨.letters (Scalar.booleanText b), ⟨rfl, fun rest blank => ?_, fun offset => ?_⟩⟩
  · exact .letters _ (by cases b <;> decide) (by cases b <;> decide)
      (starts_of_blank_behind blank .identifier (by decide))
  · cases b <;> rfl

/-- Every scalar that is read back is spelled by a piece. -/
theorem exists_spells {s : Scalar} (h : s.Readable) : ∃ piece, Spells piece s := by
  cases s with
  | int n => exact exists_spells_int h
  | float x =>
    cases x with
    | finite x => exact exists_spells_float h
    | infinite negative => exact h.elim
    | nan => exact h.elim
  | string s => exact exists_spells_string h
  | boolean b => exact exists_spells_boolean b

/-! ## §3 Arrays -/

/-- What the tokens of a text say, white space aside. -/
def lexemes (text : Text) : List Lexeme := (significant (read text)).map lexeme

private theorem lexemes_nil : lexemes [] = [] := by
  rw [lexemes, read_nil]
  rfl

private theorem lexemes_append {piece : Piece} {rest : Text} (h : Taken rest piece) :
    lexemes (piece.text ++ rest) = (significant (piece.tokens 0)).map lexeme ++ lexemes rest := by
  rw [lexemes, significant_read_append h, List.map_append, List.map_map]
  rfl

private theorem lexemes_blank (rest : Text) : lexemes (.char ' ' :: rest) = lexemes rest := by
  have blank : ∀ c ∈ [CodePoint.char ' '], isBlank c = true := by decide
  have moved := significant_read_blank blank rest
  rw [lexemes, ← List.singleton_append, moved, List.map_map]
  rfl

private theorem lexemes_mark (m : Mark) (rest : Text) :
    lexemes (m.char :: rest) = m.lexeme :: lexemes rest := by
  have taken : Taken rest (mark m) := .mark m
  have first := lexemes_append taken
  cases m <;> exact first

/-- The elements of an array on display, each with a blank in front, and the closing bracket. -/
def bracketTail (parts : List Text) : Text := parts.flatMap (.char ' ' :: ·) ++ " ]"

/-- Elements that are displayed as something are shown between the brackets. -/
theorem bracketed_eq {parts : List Text} (filled : ∀ part ∈ parts, part ≠ []) :
    Value.bracketed parts = .char '[' :: bracketTail parts := by
  cases parts with
  | nil => rfl
  | cons part parts =>
    have some : (Text.join " " (part :: parts)).isEmpty = false := by
      rw [Text.join_cons]
      simp [filled part List.mem_cons_self]
    rw [Value.bracketed, some, Text.join_cons, bracketTail, List.flatMap_cons]
    rfl

private theorem head?_bracketTail (parts : List Text) :
    ∀ c ∈ (bracketTail parts).head?, isBlank c = true := by
  have blank : isBlank (.char ' ') = true := by decide
  intro c member
  cases parts with
  | nil =>
    cases member
    exact blank
  | cons part parts =>
    cases member
    exact blank

/-- The elements of an array are displayed, and read as literals up to the closing bracket. -/
theorem exists_parts {scalars : List Scalar} (readable : ∀ s ∈ scalars, s.Readable) :
    ∃ parts, Value.writeAll (Scalar.display false) Value.bracketed (scalars.map .scalar)
        = .ok parts ∧
      lexemes (bracketTail parts)
        = scalars.map (fun s => .literal s.kind s) ++ [.closeBracket] := by
  induction scalars with
  | nil =>
    refine ⟨[], rfl, ?_⟩
    have closing := lexemes_mark .closeBracket []
    rw [lexemes_nil] at closing
    exact (lexemes_blank _).trans closing
  | cons s scalars ih =>
    obtain ⟨parts, written, read⟩ := ih fun t member => readable t (List.mem_cons_of_mem s member)
    obtain ⟨piece, spells⟩ := exists_spells (readable s List.mem_cons_self)
    refine ⟨piece.text :: parts, ?_, ?_⟩
    · simp [Value.writeAll, Value.write, Scalar.display, spells.shown, written, bind, Except.bind,
        pure, Except.pure]
    · have tail : bracketTail (piece.text :: parts)
          = .char ' ' :: (piece.text ++ bracketTail parts) := by
        simp [bracketTail]
      have taken := spells.taken (bracketTail parts) (head?_bracketTail parts)
      rw [tail, lexemes_blank, lexemes_append taken, spells.tokens, read]
      rfl

/-! ## §4 Values -/

/-- The places of the tokens of a text do not matter to its value. -/
theorem evaluate_of_lexemes {text : Text} {tokens : List Token} {value : Value}
    (same : lexemes text = tokens.map lexeme)
    (ok : (Machine.run .standard { env := {} } tokens).result = .ok value) :
    evaluate text = .ok value := by
  have names : ([] : List Head).map Head.name = [] := rfl
  have run := Machine.run_lift [] ok same names
  exact (congrArg Machine.Outcome.result run).trans ok

/-- A scalar as a literal, wherever it stands. -/
def Scalar.literal (s : Scalar) : Literal := ⟨s.kind, s, 0⟩

private theorem run_literals (scalars : List Scalar) :
    (Machine.run .standard { env := {} }
        (Expression.tokens (.array 0 (scalars.map Scalar.literal) 0))).result
      = .ok (.array (scalars.map .scalar)) := by
  have ready : Expression.Ready { env := {} } := ⟨rfl, rfl, rfl, rfl, Int.le_refl 0⟩
  rw [← List.append_nil (Expression.tokens _), Expression.run_array ready, List.map_map]
  rfl

/-- **Display and reading**: what is displayed of a value, if the language has literals for it,
evaluates to the value. -/
theorem evaluate_display (v : Value) (readable : v.Readable) :
    ∃ text, v.display false = .ok text ∧ evaluate text = .ok v := by
  cases v with
  | scalar s =>
    obtain ⟨piece, spells⟩ := exists_spells readable
    have displayed : (Value.scalar s).display false = .ok piece.text := by
      simp [Value.display, Value.write, Scalar.display, spells.shown, bind, Except.bind, pure,
        Except.pure]
    -- the whole text is one piece, since nothing follows it
    have read : lexemes piece.text = [Token.mk (.literal s.kind s) 0].map lexeme := by
      have alone : ∀ c ∈ ([] : Text).head?, isBlank c = true := by
        intro c member
        cases member
      have whole := lexemes_append (spells.taken [] alone)
      rw [List.append_nil, spells.tokens, lexemes_nil] at whole
      exact whole
    exact ⟨piece.text, displayed, evaluate_of_lexemes read rfl⟩
  | array elements =>
    obtain ⟨scalars, rfl, all⟩ := readable
    obtain ⟨parts, written, read⟩ := exists_parts all
    have displayed : (Value.array (scalars.map .scalar)).display false
        = .ok (.char '[' :: bracketTail parts) := by
      rw [Value.display, Value.write, written,
        ← bracketed_eq (Value.forall_ne_nil_of_writeAll written)]
      rfl
    -- an open bracket, and behind it the elements as they are read back, up to the close bracket
    have spelled : lexemes (.char '[' :: bracketTail parts)
        = (Expression.tokens (.array 0 (scalars.map Scalar.literal) 0)).map lexeme := by
      have opening := lexemes_mark .openBracket (bracketTail parts)
      rw [read] at opening
      refine opening.trans ?_
      simp [Expression.tokens, Literal.token, Scalar.literal, Mark.lexeme]
    exact ⟨_, displayed, evaluate_of_lexemes spelled (run_literals scalars)⟩

/-- One tenth, in the nearest double. -/
def tenth : Binary64.Finite :=
  ⟨false, 7205759403792794, 1018, by decide, by decide, by decide⟩

/-- The array `[ 12 0.1 "1) ]" true ]`. -/
def mixedArray : Value :=
  .array ([.int 12, .float (.finite tenth), .string "1) ]", .boolean true].map .scalar)

theorem evaluate_display_mixedArray :
    mixedArray.Readable ∧
      ∃ text, mixedArray.display false = .ok text ∧ evaluate text = .ok mixedArray := by
  have tenthModerate : tenth.Moderate := by
    refine .inr ⟨?_, ?_⟩
    · decide +kernel
    · decide +kernel
  have plain : CodePoint.char '"' ∉ ofString "1) ]" := by decide
  have readable : mixedArray.Readable := by
    refine ⟨_, rfl, ?_⟩
    simp only [List.forall_mem_cons]
    exact ⟨⟨by decide, by decide⟩, ⟨rfl, tenthModerate⟩, plain, trivial, by simp⟩
  exact ⟨readable, evaluate_display mixedArray readable⟩

end PrefixCalc
