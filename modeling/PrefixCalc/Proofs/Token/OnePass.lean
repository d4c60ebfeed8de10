import PrefixCalc.Proofs.Token.Cut

/-!
# One pass is enough

Reading a text once for every kind and settling the overlaps gives the same tokens as
reading it once from left to right. No kind reads across the cut behind a piece, so the
survivors of the text are those of the piece and those of what follows. Inside a piece the
first kind that reads anything wins: it reads all of the piece, or it is the kind of truth
values, and what they leave of a run of letters is no name.
-/

namespace PrefixCalc

namespace Piece

open Text TokenKind Candidate

variable {rest : Text} {piece : Piece}

/-! ## §1 What survives in a piece -/

section

variable {kind : TokenKind} {text : Text}

private theorem ofKind_eq_nil (silent : ∀ c ∈ text, kind.starts c = false) :
    ofKind kind text = [] := by
  have none : ∀ suffix, suffix <:+ text → suffix ≠ [] → kind.matchLength suffix = 0 := by
    intro suffix part nonempty
    cases suffix with
    | nil => exact absurd rfl nonempty
    | cons c suffix => exact matchLength_eq_zero (silent c (part.mem List.mem_cons_self)) suffix
  rw [ofKind, scan, scanFrom_eq_nil none]
  rfl

private theorem ofKind_eq_whole (nonempty : text ≠ [])
    (whole : kind.matchLength text = text.length) :
    ofKind kind text = [⟨kind, 0, text⟩] := by
  rw [ofKind, scan, scanFrom_of_whole nonempty whole]
  rfl

private theorem inOrder_eq_whole {before after : List TokenKind}
    (order : precedence = before ++ kind :: after)
    (silent : ∀ other ∈ before, ofKind other text = []) (nonempty : text ≠ [])
    (whole : kind.matchLength text = text.length) :
    inOrder precedence text = [⟨kind, 0, text⟩] := by
  refine inOrder_eq (List.Perm.of_eq ?_) (List.pairwise_singleton _ _)
  rw [order]
  exact select_of_whole silent (ofKind_eq_whole nonempty whole)

end

/-- Behind the start of a truth value no other one starts before it is over. -/
theorem map_toToken_scanFrom (skip offset : Nat) (text : Text)
    (plain : ∀ c ∈ text.take skip, c ≠ .char 't' ∧ c ≠ .char 'f') :
    (scanFrom booleanLength skip offset text).map
        (fun found => toToken ⟨.literal .boolean, found.1, found.2⟩)
      = truths offset text := by
  induction text generalizing skip offset with
  | nil => rfl
  | cons c rest ih =>
    rw [truths]
    cases skip with
    | succ skip =>
      -- a skipped character is inside a truth value, where no other one starts
      obtain ⟨notT, notF⟩ := plain c (by simp)
      have notTrue : ¬ ("true" : Text) <+: c :: rest := fun found =>
        notT (List.cons_prefix_cons.mp found).1.symm
      have notFalse : ¬ ("false" : Text) <+: c :: rest := fun found =>
        notF (List.cons_prefix_cons.mp found).1.symm
      rw [if_neg notTrue, if_neg notFalse]
      exact ih skip (offset + 1) fun d member => plain d (by simp [member])
    | zero =>
      rw [scanFrom, booleanLength]
      simp only [List.isPrefixOf_iff_prefix]
      -- at a match the three or four letters behind its first one are skipped, and none of them
      -- starts a truth value
      by_cases isTrue : ("true" : Text) <+: c :: rest
      · rw [if_pos isTrue, if_pos isTrue]
        obtain ⟨behind, split⟩ := isTrue
        have word : .char 't' :: .char 'r' :: .char 'u' :: .char 'e' :: behind = c :: rest := split
        obtain ⟨rfl, rfl⟩ := List.cons.inj word
        exact congrArg (List.cons _) (ih 3 (offset + 1) (by simp))
      rw [if_neg isTrue, if_neg isTrue]
      by_cases isFalse : ("false" : Text) <+: c :: rest
      · rw [if_pos isFalse, if_pos isFalse]
        obtain ⟨behind, split⟩ := isFalse
        have word : .char 'f' :: .char 'a' :: .char 'l' :: .char 's' :: .char 'e' :: behind
            = c :: rest := split
        obtain ⟨rfl, rfl⟩ := List.cons.inj word
        exact congrArg (List.cons _) (ih 4 (offset + 1) (by simp))
      · rw [if_neg isFalse, if_neg isFalse]
        exact ih 0 (offset + 1) (by simp)

private theorem map_toToken_boolean (text : Text) :
    (ofKind (.literal .boolean) text).map toToken = truths 0 text := by
  rw [ofKind, scan, List.map_map]
  exact map_toToken_scanFrom 0 0 text (by simp)

/-- A run of letters is a name unless truth values are found in it. -/
theorem map_toToken_letters {run : Text} (nonempty : run ≠ [])
    (all : ∀ c ∈ run, isNameLetter c = true) :
    (inOrder precedence run).map toToken = tokens 0 (letters run) := by
  have silent : ∀ other ∈ precedence.take 8, ofKind other run = [] := fun other earlier =>
    ofKind_eq_nil fun c member => starts_of_isNameLetter (all c member)
      (ne_of_mem_of_not_mem earlier (by decide)) (ne_of_mem_of_not_mem earlier (by decide))
  have whole : identifier.matchLength run = run.length := runLength_of_all all
  have found := map_toToken_boolean run
  rw [tokens]
  cases values : ofKind (.literal .boolean) run with
  | nil =>
    -- no kind before that of names reads anything
    rw [values] at found
    have order : precedence = (precedence.take 8 ++ [.literal .boolean]) ++ identifier :: [] := rfl
    have silent' : ∀ other ∈ precedence.take 8 ++ [.literal .boolean], ofKind other run = [] := by
      intro other earlier
      rcases List.mem_append.mp earlier with earlier | earlier
      · exact silent other earlier
      · rw [List.mem_singleton.mp earlier, values]
    rw [inOrder_eq_whole order silent' nonempty whole, ← found]
    rfl
  | cons value more =>
    -- the truth values are apart from each other, and the name overlaps the first of them
    have order : precedence = (precedence.take 8 ++ [.literal .boolean]) ++ [identifier] := rfl
    have member : value ∈ ofKind (.literal .boolean) run := by simp [values]
    have survivors : select precedence run = ofKind (.literal .boolean) run := by
      rw [order, select_append_singleton, select_append_singleton, select_eq_nil silent,
        keepApart_nil, ofKind_eq_whole nonempty whole]
      exact keepApart_whole member (ofKind_bounds member).2
    rw [inOrder_eq (List.Perm.of_eq survivors) (pairwise_ofKind _ _), found]
    rw [values, List.map_cons] at found
    rw [← found]

theorem scanPlain_decimal {whole fraction : Text} (wholeDigits : ∀ c ∈ whole, isDigit c = true)
    (fractionDigits : ∀ c ∈ fraction, isDigit c = true) :
    (Numeral.scanPlain (whole ++ .char '.' :: fraction)).1 = { whole, fraction } := by
  have point : ¬ isDigit (.char '.') = true := by decide
  rw [Numeral.scanPlain, List.takeWhile_append_of_pos wholeDigits,
    List.takeWhile_cons_of_neg point, List.append_nil,
    List.dropWhile_append_of_pos wholeDigits, List.dropWhile_cons_of_neg point]
  simp only [List.takeWhile_eq_self_iff.mpr fractionDigits]

/-- **The survivors of a piece are its tokens.** -/
theorem map_toToken_of_taken (h : Taken rest piece) :
    (inOrder precedence piece.text).map toToken = piece.tokens 0 := by
  -- in each case the kinds in front of the one that wins are silent on the piece
  cases h with
  | quoted inside plain =>
    have alone := stringLength_quoted plain []
    have order : precedence = [] ++ .literal .string :: precedence.drop 1 := rfl
    rw [inOrder_eq_whole order (by simp) (by simp [text])
      (by simpa [text, matchLength] using alone)]
    simp [toToken, Lexeme.ofText, text, tokens]
  | blank run nonempty all =>
    have order : precedence = precedence.take 1 ++ whitespace :: precedence.drop 2 := rfl
    have silent : ∀ other ∈ precedence.take 1, ofKind other run = [] := fun other earlier =>
      ofKind_eq_nil fun c member => starts_of_isBlank (all c member)
        (ne_of_mem_of_not_mem earlier (by decide))
    rw [text, inOrder_eq_whole order silent nonempty (runLength_of_all all)]
    rfl
  -- No two kinds of mark read the same character, so it does not matter where the own kind stands.
  | mark m =>
    obtain ⟨before, after, order, first⟩ := List.eq_append_cons_of_mem (mem_precedence m.kind)
    have silent : ∀ other ∈ before, ofKind other [m.char] = [] := fun other earlier =>
      ofKind_eq_nil fun c member => List.mem_singleton.mp member ▸
        starts_mark (ne_of_mem_of_not_mem earlier first)
    have whole : m.kind.matchLength [m.char] = [m.char].length := by cases m <;> rfl
    rw [text, inOrder_eq_whole order silent (by simp) whole]
    cases m <;> rfl
  -- Floats come before ints, which is why the digits of a decimal are not read as ints.
  | decimal whole fraction wholeDigits fractionDigits some =>
    have order : precedence = precedence.take 6 ++ .literal .float :: precedence.drop 7 := rfl
    have silent : ∀ other ∈ precedence.take 6, ofKind other (decimal whole fraction).text = [] :=
      fun other earlier => ofKind_eq_nil (starts_decimal wholeDigits fractionDigits
        (ne_of_mem_of_not_mem earlier (by decide)) (ne_of_mem_of_not_mem earlier (by decide)))
    have alone := decimalLength_decimal_alone wholeDigits fractionDigits some
    rw [inOrder_eq_whole order silent (by simp [text]) alone]
    simp [toToken, Lexeme.ofText, text, tokens, scanPlain_decimal wholeDigits fractionDigits]
  | digits run nonempty all =>
    have order : precedence = precedence.take 7 ++ .literal .int :: precedence.drop 8 := rfl
    have silent : ∀ other ∈ precedence.take 7, ofKind other run = [] := by
      intro other earlier
      by_cases float : other = .literal .float
      · -- the digits would start a decimal, but no point follows them
        have none : ∀ suffix, suffix <:+ run → suffix ≠ [] → decimalLength suffix = 0 :=
          fun suffix part _ => decimalLength_of_digits fun c member => all c (part.mem member)
        rw [float, ofKind, scan, matchLength, scanFrom_eq_nil none]
        rfl
      · exact ofKind_eq_nil fun c member => starts_of_isDigit (all c member)
          (ne_of_mem_of_not_mem earlier (by decide)) float
    rw [text, inOrder_eq_whole order silent nonempty (runLength_of_all all)]
    rfl
  | letters run nonempty all => exact map_toToken_letters nonempty all
  -- What is dropped is read by no kind at all.
  | quote =>
    have silent : ∀ kind ∈ precedence, ofKind kind [.char '"'] = [] := by decide
    rw [text, inOrder_eq (List.Perm.of_eq (select_eq_nil silent)) List.Pairwise.nil]
    rfl
  | point =>
    have silent : ∀ kind ∈ precedence, ofKind kind [.char '.'] = [] := by decide
    rw [text, inOrder_eq (List.Perm.of_eq (select_eq_nil silent)) List.Pairwise.nil]
    rfl
  | other c silent =>
    have silent : ∀ kind ∈ precedence, ofKind kind [c] = [] := fun kind _ =>
      ofKind_eq_nil fun d member => List.mem_singleton.mp member ▸ silent kind
    rw [text, inOrder_eq (List.Perm.of_eq (select_eq_nil silent)) List.Pairwise.nil]
    rfl

/-! ## §2 The whole text -/

private theorem truths_add (offset shift : Nat) (text : Text) :
    truths (offset + shift) text = (truths offset text).map (Token.shift shift) := by
  induction text generalizing offset with
  | nil => rfl
  | cons c rest ih =>
    have next : offset + shift + 1 = offset + 1 + shift := by omega
    rw [truths, truths, next, ih]
    split
    · simp only [List.map_cons, Token.shift, Int.natCast_add]
    · split
      · simp only [List.map_cons, Token.shift, Int.natCast_add]
      · rfl

theorem tokens_add (offset shift : Nat) (piece : Piece) :
    tokens (offset + shift) piece = (tokens offset piece).map (Token.shift shift) := by
  cases piece with
  | dropped c => rfl
  | letters run =>
    rw [tokens, tokens, truths_add]
    cases truths offset run with
    | nil => simp only [List.map_nil, List.map_cons, Token.shift, Int.natCast_add]
    | cons value more => rfl
  | _ => simp only [tokens, List.map_nil, List.map_cons, Token.shift, Int.natCast_add]

theorem text_ne_nil (h : Taken rest piece) : piece.text ≠ [] := by
  cases h with
  | blank _ nonempty | digits _ nonempty | letters _ nonempty => exact nonempty
  | decimal => simp [text]
  | _ => exact List.cons_ne_nil _ _

theorem read_append (h : Taken rest piece) :
    Token.read (piece.text ++ rest)
      = piece.tokens 0 ++ (Token.read rest).map (Token.shift piece.text.length) := by
  rw [Token.read, Token.readWith_append fun kind _ => parts_of_taken h kind]
  exact congrArg (· ++ _) (map_toToken_of_taken h)

end Piece

namespace Token

open Piece

private theorem onePassFrom_skip (offset : Nat) (front back : Text) :
    onePassFrom front.length offset (front ++ back)
      = onePassFrom 0 (offset + front.length) back := by
  induction front generalizing offset with
  | nil => rfl
  | cons c front ih =>
    have next : offset + (c :: front).length = offset + 1 + front.length := by
      rw [List.length_cons]
      omega
    rw [next, ← ih (offset + 1)]
    rfl

private theorem onePassFrom_cons {c : CodePoint} {rest behind : Text} (offset : Nat)
    (split : c :: rest = (first c rest).text ++ behind) (h : Taken behind (first c rest)) :
    onePassFrom 0 offset (c :: rest)
      = (first c rest).tokens offset
        ++ onePassFrom 0 (offset + (first c rest).text.length) behind := by
  rw [onePassFrom]
  cases piece : (first c rest).text with
  | nil => exact absurd piece (text_ne_nil h)
  | cons d inside =>
    rw [piece, List.cons_append] at split
    obtain ⟨-, rfl⟩ := List.cons.inj split
    have next : offset + (d :: inside).length = offset + 1 + inside.length := by
      rw [List.length_cons]
      omega
    rw [next, List.length_cons, Nat.add_sub_cancel, onePassFrom_skip]

theorem read_nil : read [] = [] := by
  have none : Candidate.select TokenKind.precedence [] = [] := rfl
  rw [read, readWith, none, List.mergeSort_nil]
  rfl

theorem map_shift_read (offset : Nat) (text : Text) :
    (read text).map (shift offset) = onePassFrom 0 offset text := by
  -- by the length, since what follows a piece is a shorter text
  induction length : text.length using Nat.strongRecOn generalizing offset text with
  | ind n ih =>
    cases text with
    | nil =>
      rw [read_nil]
      rfl
    | cons c rest =>
      obtain ⟨behind, split, taken⟩ := exists_taken c rest
      have shorter : behind.length < n := by
        have total := congrArg List.length split
        have some := List.length_pos_iff.mpr (text_ne_nil taken)
        rw [List.length_append] at total
        omega
      rw [onePassFrom_cons offset split taken, ← ih _ shorter _ behind rfl]
      -- the tokens behind the piece are shifted over the piece and then to its place
      rw [split, read_append taken, List.map_append, List.map_map, ← tokens_add, Nat.zero_add]
      simp only [Function.comp_def, shift_shift]

/-- **Reading in one pass.** For every text the tokens are those that one pass from left to
right takes: pieces one behind the other, each decided by its first character and by what stands
right behind it. -/
theorem read_eq_onePass (text : Text) : read text = onePass text := by
  have same := map_shift_read 0 text
  have unmoved : shift 0 = id := funext fun t => by simp [shift]
  rwa [unmoved, List.map_id] at same

/-- What truth values leave of a run of letters is dropped. -/
example : onePass "untruefalse" =
    [⟨.literal .boolean (.boolean true), 2⟩, ⟨.literal .boolean (.boolean false), 6⟩] := by
  decide

end Token

end PrefixCalc
