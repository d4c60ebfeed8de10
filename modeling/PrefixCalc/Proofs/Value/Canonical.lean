import PrefixCalc.Proofs.Binary64.ReadBack
import PrefixCalc.Proofs.Builtin
import PrefixCalc.Proofs.Json.Quoted
import PrefixCalc.Proofs.Text.Characters
import PrefixCalc.Proofs.Value.Reduced

/-!
# Canonical forms

The canonical form of a value tells the value, however deep its arrays are nested, but for doubles
that are whole numbers, which are written as such. A form also tells where it ends: a number or a
truth value is a word that goes on to the next comma or bracket, a string has its quotes, and an
array its brackets.
-/

namespace PrefixCalc

open Text

/-! ## §1 Plain values -/

/-- The scalars that have a canonical form and are equal to themselves: whole numbers that are not
too long, doubles other than the one that is no number, strings of characters, and truth values. -/
def Scalar.Plain : Scalar → Prop
  | .int n => (ofNat n.natAbs).length ≤ Limit.maxDigits
  | .float x => x ≠ .nan
  | .string s => ∀ c ∈ s, ∃ d : Char, c = .char d
  | .boolean _ => True

/-- Such scalars, and arrays of such values to any depth. -/
inductive Value.Plain : Value → Prop where
  | scalar (s : Scalar) (plain : s.Plain) : Plain (.scalar s)
  | array (elements : List Value) (plain : ∀ v ∈ elements, Plain v) : Plain (.array elements)

/-- A value with its doubles reduced. -/
def Value.reduced : Value → Value
  | scalar s => scalar s.reduced
  | array elements => array (elements.map reduced)

variable {s : Scalar} {v w : Value} {elements : List Value} {parts : List Text}
  {text word rest rest' : Text}

theorem Value.reduced_scalar (s : Scalar) : (scalar s).reduced = scalar s.reduced := by
  rw [reduced]

theorem Value.reduced_array (elements : List Value) :
    (array elements).reduced = array (elements.map reduced) := by
  rw [reduced]

/-! ## §2 Words -/

/-- The canonical forms of numbers and truth values. -/
inductive Word : Scalar → Text → Prop where
  | whole (n : Int) : Word (.int n) (ofInt n)
  | fractional (x : Binary64.Finite) :
      Word (.float (.finite x)) (Scalar.doubleLayout.write (.finite x))
  | infinite (negative : Bool) :
      Word (.float (.infinite negative)) (if negative then "-Infinity" else "Infinity")
  | truth (b : Bool) : Word (.boolean b) (Scalar.booleanText b)

namespace Word

/-- The characters of whole numbers. -/
def isWhole (c : CodePoint) : Bool := isDigit c || c = .char '-'

/-- What a word stands for. -/
def read (word : Text) : Scalar :=
  if word.all isWhole then
    let (negative, digits) := Numeral.scanSign word
    .int (if negative then -(digitsValue digits : Int) else digitsValue digits)
  else
    match Numeral.leadingFloat? word with
    | some x => .float x
    | none => .boolean (word = "true")

private theorem isWhole_ofInt (n : Int) : ∀ c ∈ ofInt n, isWhole c = true := by
  have digits : ∀ c ∈ ofNat n.natAbs, isWhole c = true := fun c member => by
    rw [isWhole, isDigit_of_mem_ofNat member, Bool.true_or]
  rw [Numeral.ofInt_eq_withSign, Numeral.withSign]
  split
  · exact List.forall_mem_cons.mpr ⟨rfl, digits⟩
  · exact digits

private theorem read_ofInt (n : Int) : read (ofInt n) = .int n := by
  have sign : Numeral.scanSign (ofInt n) = (decide (n < 0), ofNat n.natAbs) := by
    obtain ⟨c, others, split⟩ := List.exists_cons_of_ne_nil (ofNat_ne_nil n.natAbs)
    have digit : isDigit c = true := isDigit_of_mem_ofNat (split ▸ List.mem_cons_self)
    rw [Numeral.ofInt_eq_withSign, split, Numeral.scanSign_withSign digit]
  rw [read, if_pos (List.all_eq_true.mpr (isWhole_ofInt n)), sign]
  simp only [digitsValue_ofNat, decide_eq_true_eq, Scalar.int.injEq]
  split <;> omega

private theorem read_of_float {x : Binary64} (back : Numeral.leadingFloat? word = some x)
    (other : ∃ c ∈ word, isWhole c = false) : read word = .float x := by
  have notWhole : ¬ word.all isWhole = true := by
    simpa [List.all_eq_true] using other
  rw [read, if_neg notWhole, back]

/-- A word tells what it stands for. -/
theorem read_eq (h : Word s word) : read word = s := by
  cases h with
  | whole n => exact read_ofInt n
  | fractional x =>
    apply read_of_float (Binary64.leadingFloat?_write _ x)
    rcases Binary64.mark_mem_write Scalar.doubleLayout x with member | member
    · exact ⟨_, member, by decide⟩
    · exact ⟨_, member, by decide⟩
  | infinite negative => cases negative <;> decide +kernel
  | truth b => cases b <;> decide +kernel

/-- The characters that can stand in a word: none that opens a string or an array, and none that
stands behind an element. -/
def isInside (c : CodePoint) : Bool := !("\"[,]" : Text).contains c

private theorem isInside_of_isNumeric {c : CodePoint} (h : isNumeric c = true) :
    isInside c = true := by
  have outside : ∀ d ∈ ("\"[,]" : Text), isNumeric d = false := by decide
  rw [isInside, Bool.not_eq_true']
  by_contra member
  rw [outside c (List.contains_iff_mem.mp (Bool.of_not_eq_false member))] at h
  cases h

private theorem isInside_of_mem (h : Word s word) : ∀ c ∈ word, isInside c = true := by
  cases h with
  | whole n => exact fun c member => isInside_of_isNumeric (numeric_ofInt n c member)
  | fractional x =>
    exact fun c member => isInside_of_isNumeric (Scalar.doubleLayout.numeric_write _ c member)
  | infinite negative => cases negative <;> decide
  | truth b => cases b <;> decide

private theorem ne_nil (h : Word s word) : word ≠ [] := by
  cases h with
  | whole n =>
    rw [Numeral.ofInt_eq_withSign, Numeral.withSign]
    split
    · exact List.cons_ne_nil _ _
    · exact ofNat_ne_nil _
  | fractional x =>
    rcases Binary64.mark_mem_write Scalar.doubleLayout x with member | member <;>
      exact List.ne_nil_of_mem member
  | infinite negative => cases negative <;> decide
  | truth b => cases b <;> decide

end Word

theorem canonical_float_of_toInt? {x : Binary64} {n : Int} (whole : x.toInt? = some n) :
    (Scalar.float x).canonical = Text.decimal n := by
  unfold Scalar.canonical
  dsimp only
  rw [whole]

private theorem canonical_float_of_fractional {x : Binary64.Finite}
    (fractional : (Binary64.finite x).toInt? = none) :
    (Scalar.float (.finite x)).canonical = .ok (Scalar.doubleLayout.write (.finite x)) := by
  unfold Scalar.canonical
  dsimp only
  rw [fractional]

/-- A plain scalar other than a string is written as a word. -/
theorem exists_word (plain : s.Plain) (other : ∀ x, s ≠ .string x) :
    ∃ word, s.canonical = .ok word ∧ Word s.reduced word := by
  cases s with
  | int n =>
    have short : (ofNat n.natAbs).length ≤ Limit.maxDigits := plain
    exact ⟨ofInt n, (writes_canonical.int n).trans (decimal_of_short short), .whole n⟩
  | string x => exact absurd rfl (other x)
  | boolean b => exact ⟨Scalar.booleanText b, rfl, .truth b⟩
  | float x =>
    cases whole : x.toInt? with
    | some n =>
      rw [Scalar.reduced_float_of_toInt? whole]
      have written := canonical_float_of_toInt? whole
      rw [decimal_of_short (length_of_toInt? whole)] at written
      exact ⟨ofInt n, written, .whole n⟩
    | none =>
      rw [Scalar.reduced_float_of_fractional whole]
      cases x with
      | finite x => exact ⟨_, canonical_float_of_fractional whole, .fractional x⟩
      | infinite negative => exact ⟨_, rfl, .infinite negative⟩
      | nan => exact absurd rfl plain

/-! ## §3 Forms -/

private theorem unpaired_of_characters (characters : ∀ c ∈ text, ∃ d : Char, c = .char d) :
    Json.Unpaired text := by
  apply List.Pairwise.isChain
  refine List.pairwise_of_forall_mem_list fun high member low _ pairs => ?_
  -- the number of a character is not that of half a pair
  obtain ⟨d, rfl⟩ := characters high member
  obtain ⟨⟨least, most⟩, -⟩ := pairs
  have valid := d.valid
  simp only [UInt32.isValidChar, Nat.isValidChar] at valid
  simp only [CodePoint.toNat, Char.toNat] at least most
  omega

/-- What the canonical form of a value looks like. -/
inductive Form : Value → Text → Prop where
  | word (s : Scalar) (word : Text) (h : Word s.reduced word) : Form (.scalar s) word
  | quoted (x : Text) (unpaired : Json.Unpaired x) : Form (.scalar (.string x)) (Json.quoted x)
  | array (elements : List Value) (parts : List Text)
      (written : List.Forall₂ (fun v part => v.canonical = .ok part) elements parts) :
      Form (.array elements) (.char '[' :: (join "," parts ++ "]"))

private theorem form_of_canonical (plain : v.Plain) (h : v.canonical = .ok text) : Form v text := by
  cases plain with
  | scalar s plain =>
    by_cases string : ∃ x, s = .string x
    · obtain ⟨x, rfl⟩ := string
      cases h
      exact .quoted x (unpaired_of_characters plain)
    · obtain ⟨word, written, form⟩ := exists_word plain fun x same => string ⟨x, same⟩
      have same : s.canonical = .ok text := h
      rw [written] at same
      cases same
      exact .word s text form
  | array elements plain =>
    obtain ⟨parts, written, rfl⟩ := exists_of_map_eq_ok h
    exact .array elements parts (writeAll_eq_ok_iff.mp written)

/-- Every plain value has a canonical form. -/
theorem Value.Plain.exists_canonical (plain : v.Plain) : ∃ text, v.canonical = .ok text := by
  induction plain with
  | scalar s plain =>
    by_cases string : ∃ x, s = .string x
    · obtain ⟨x, rfl⟩ := string
      exact ⟨_, rfl⟩
    · obtain ⟨word, written, -⟩ := exists_word plain fun x same => string ⟨x, same⟩
      exact ⟨word, written⟩
  | array elements plain ih =>
    obtain ⟨parts, written⟩ := exists_writeAll ih
    refine ⟨"[" ++ join "," parts ++ "]", ?_⟩
    rw [Value.canonical, Value.write, written]
    rfl

/-! ## §4 Reading forms apart -/

/-- The next element or the end of the array stands behind a form, or nothing at all. -/
def Closed (rest : Text) : Prop := ∀ c ∈ rest.head?, c = .char ',' ∨ c = .char ']'

private theorem Closed.not_isInside (closed : Closed rest) :
    ∀ c ∈ rest.head?, Word.isInside c = false := by
  intro c first
  rcases closed c first with rfl | rfl <;> decide

/-- A word goes on to the end of its element. -/
theorem Word.tells {s' : Scalar} {word' : Text} (h : Word s word) (h' : Word s' word')
    (closed : Closed rest) (closed' : Closed rest') (same : word ++ rest = word' ++ rest') :
    s = s' ∧ rest = rest' := by
  have words := congrArg (List.takeWhile isInside) same
  rw [takeWhile_append_of_stops (.inr closed.not_isInside),
    takeWhile_append_of_stops (.inr closed'.not_isInside),
    List.takeWhile_eq_self_iff.mpr h.isInside_of_mem,
    List.takeWhile_eq_self_iff.mpr h'.isInside_of_mem] at words
  obtain rfl := words
  exact ⟨h.read_eq.symm.trans h'.read_eq, List.append_cancel_left same⟩

/-- A word does not start with a character that opens or ends something else. -/
theorem Word.append_ne_cons {c : CodePoint} {more : Text} (h : Word s word)
    (outside : isInside c = false) : word ++ rest ≠ c :: more := by
  obtain ⟨d, others, rfl⟩ := List.exists_cons_of_ne_nil h.ne_nil
  rintro same
  obtain ⟨rfl, -⟩ := List.cons_eq_cons.mp same
  rw [h.isInside_of_mem d List.mem_cons_self] at outside
  cases outside

/-- A string ends at its quote. -/
theorem quoted_tells {x y : Text} (unpaired : Json.Unpaired x) (unpaired' : Json.Unpaired y)
    (same : Json.quoted x ++ rest = Json.quoted y ++ rest') : x = y ∧ rest = rest' := by
  have opened (z behind : Text) : Json.quoted z ++ behind
      = .char '"' :: (z.flatMap Json.escape ++ .char '"' :: behind) := by
    simp only [Json.quoted, List.append_assoc]
    rfl
  rw [opened, opened] at same
  have read := congrArg Json.readString (List.cons_eq_cons.mp same).2
  rw [Json.readString_quoted unpaired, Json.readString_quoted unpaired'] at read
  cases read
  exact ⟨rfl, rfl⟩

/-- The canonical form of a value tells the value and where it ends. -/
def Tells (v : Value) : Prop :=
  ∀ (w : Value) (text text' rest rest' : Text), w.Plain → v.canonical = .ok text →
    w.canonical = .ok text' → Closed rest → Closed rest' → text ++ rest = text' ++ rest' →
    v.reduced = w.reduced ∧ rest = rest'

/-- The elements of an array with a comma in front of each, and what stands behind them. -/
def elementTail (parts : List Text) (rest : Text) : Text :=
  parts.flatMap (("," : Text) ++ ·) ++ .char ']' :: rest

private theorem closed_elementTail (parts : List Text) (rest : Text) :
    Closed (elementTail parts rest) := by
  cases parts with
  | nil =>
    rintro c ⟨⟩
    exact .inr rfl
  | cons part parts =>
    rintro c ⟨⟩
    exact .inl rfl

private theorem elementTail_cons (part : Text) (parts : List Text) (rest : Text) :
    elementTail (part :: parts) rest = .char ',' :: (part ++ elementTail parts rest) := by
  rw [elementTail, elementTail, List.flatMap_cons, List.append_assoc, List.append_assoc]
  rfl

/-- The elements are read apart one by one. -/
theorem elementTail_tells {others : List Value} {parts' : List Text}
    (tells : ∀ v ∈ elements, Tells v) (plain : ∀ w ∈ others, w.Plain)
    (written : List.Forall₂ (fun v part => v.canonical = .ok part) elements parts)
    (written' : List.Forall₂ (fun w part => w.canonical = .ok part) others parts')
    (same : elementTail parts rest = elementTail parts' rest') :
    elements.map Value.reduced = others.map Value.reduced ∧ rest = rest' := by
  induction written generalizing others parts' with
  | nil =>
    cases written' with
    | nil => exact ⟨rfl, (List.cons_eq_cons.mp same).2⟩
    | cons => cases (List.cons_eq_cons.mp (same.trans (elementTail_cons ..))).1
  | cons first _ ih =>
    rw [elementTail_cons] at same
    cases written' with
    | nil => cases (List.cons_eq_cons.mp same).1
    | cons first' later' =>
      rw [elementTail_cons] at same
      obtain ⟨tellsFirst, tellsLater⟩ := List.forall_mem_cons.mp tells
      obtain ⟨plainFirst, plainLater⟩ := List.forall_mem_cons.mp plain
      obtain ⟨head, behind⟩ := tellsFirst _ _ _ _ _ plainFirst first first'
        (closed_elementTail _ _) (closed_elementTail _ _) (List.cons_eq_cons.mp same).2
      obtain ⟨tail, rests⟩ := ih tellsLater plainLater later' behind
      exact ⟨by rw [List.map_cons, List.map_cons, head, tail], rests⟩

/-- A form does not start with the bracket that ends an array. -/
theorem Form.append_ne_bracket {more : Text} (h : Form v text) :
    text ++ rest ≠ .char ']' :: more := by
  cases h with
  | word s word h => exact h.append_ne_cons (by decide)
  | quoted x unpaired => exact fun same => nomatch (List.cons_eq_cons.mp same).1
  | array elements parts written => exact fun same => nomatch (List.cons_eq_cons.mp same).1

/-- What stands between the brackets tells the elements and the text behind them. -/
theorem elementTail_of_join {others : List Value} {parts' : List Text}
    (plain : ∀ v ∈ elements, v.Plain) (plain' : ∀ w ∈ others, w.Plain)
    (written : List.Forall₂ (fun v part => v.canonical = .ok part) elements parts)
    (written' : List.Forall₂ (fun w part => w.canonical = .ok part) others parts')
    (same : join "," parts ++ .char ']' :: rest = join "," parts' ++ .char ']' :: rest') :
    elementTail parts rest = elementTail parts' rest' := by
  -- an array without elements ends where another one has its first element
  cases written with
  | nil =>
    cases written' with
    | nil => exact same
    | cons first' _ =>
      rw [join_cons, List.append_assoc] at same
      have form := form_of_canonical (plain' _ List.mem_cons_self) first'
      exact absurd same.symm form.append_ne_bracket
  | cons first _ =>
    rw [join_cons, List.append_assoc] at same
    cases written' with
    | nil =>
      have form := form_of_canonical (plain _ List.mem_cons_self) first
      exact absurd same form.append_ne_bracket
    | cons first' _ =>
      rw [join_cons, List.append_assoc] at same
      rw [elementTail_cons, elementTail_cons]
      exact congrArg (.char ',' :: ·) same

/-- **Canonical forms tell values apart**, and each one tells where it ends. -/
theorem Value.Plain.tells (plain : v.Plain) : Tells v := by
  intro w text text' rest rest' plain' written written' closed closed' same
  induction plain generalizing w text text' rest rest' with
  | scalar s plain =>
    have form := form_of_canonical (.scalar s plain) written
    have form' := form_of_canonical plain' written'
    -- two forms that start alike are of the same sort: the first character gives the sort away
    cases form with
    | word _ _ h =>
      cases form' with
      | word s' _ h' =>
        obtain ⟨scalars, rests⟩ := h.tells h' closed closed' same
        exact ⟨by rw [Value.reduced_scalar, Value.reduced_scalar, scalars], rests⟩
      | quoted x' _ => exact absurd same (h.append_ne_cons (by decide))
      | array others _ _ => exact absurd same (h.append_ne_cons (by decide))
    | quoted x unpaired =>
      cases form' with
      | word s' _ h' => exact absurd same.symm (h'.append_ne_cons (by decide))
      | quoted x' unpaired' =>
        obtain ⟨rfl, rests⟩ := quoted_tells unpaired unpaired' same
        exact ⟨rfl, rests⟩
      | array others _ _ => exact nomatch (List.cons_eq_cons.mp same).1
  | array elements plain ih =>
    have form := form_of_canonical (.array elements plain) written
    have form' := form_of_canonical plain' written'
    cases form with
    | array _ parts all =>
      cases form' with
      | word s' _ h' => exact absurd same.symm (h'.append_ne_cons (by decide))
      | quoted x' _ => exact nomatch (List.cons_eq_cons.mp same).1
      | array others parts' all' =>
        have plains : ∀ w ∈ others, w.Plain := by
          cases plain' with
          | array _ plains => exact plains
        rw [List.cons_append, List.cons_append, List.append_assoc, List.append_assoc] at same
        -- behind the open bracket both are elements up to a close bracket
        have tails := elementTail_of_join plain plains all all' (List.cons_eq_cons.mp same).2
        obtain ⟨reduced, rests⟩ := elementTail_tells ih plains all all' tails
        exact ⟨by rw [Value.reduced_array, Value.reduced_array, reduced], rests⟩

end PrefixCalc
