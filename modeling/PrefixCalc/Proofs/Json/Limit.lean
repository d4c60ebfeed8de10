import Mathlib.Data.List.Infix
import Mathlib.Data.List.TakeWhile
import PrefixCalc.Json.Reader

/-!
# Limits of reading JSON

Reading goes over a limit only if the text does: a numeral in it has too many digits, or it opens
too many containers. The readers call each other, so one judgement on what a reader returns is
carried through all of them.
-/

namespace PrefixCalc.Json

open Text

variable {α β : Type} {room opening fuel : Nat} {text part : Text} {limit : Limit}

/-! ## §1 What goes over a limit -/

/-- Whether a character opens a container. -/
def opens (c : CodePoint) : Bool := c = '[' || c = '\x7b'

/-- How a text goes over a limit if `room` containers may lie inside each other. -/
inductive Exceeds (room : Nat) (text : Text) : Limit → Prop where
  /-- It has a run of digits that is longer than any whole number that is read. -/
  | digits (run : Text) (part : run <:+: text) (all : ∀ c ∈ run, isDigit c = true)
      (long : Limit.maxDigits < run.length) : Exceeds room text (.readDigits run.length)
  /-- It opens more containers than there is room for. -/
  | nesting (innermost : Container) (deep : room < text.countP opens) :
      Exceeds room text (.nesting innermost)

theorem Exceeds.of_suffix (exceeds : Exceeds room part limit) (behind : part <:+ text) :
    Exceeds room text limit := by
  cases exceeds with
  | digits run inside all long => exact .digits run (inside.trans behind.isInfix) all long
  | nesting innermost deep =>
    exact .nesting innermost (Nat.lt_of_lt_of_le deep behind.sublist.countP_le)

/-- There is more room outside of a container. -/
theorem Exceeds.of_opened {c : CodePoint} (exceeds : Exceeds room part limit)
    (container : opens c = true) (behind : part <:+ text) :
    Exceeds (room + 1) (c :: text) limit := by
  cases exceeds with
  | digits run inside all long =>
    exact .digits run (inside.trans (behind.trans (List.suffix_cons c text)).isInfix) all long
  | nesting innermost deep =>
    refine .nesting innermost ?_
    rw [List.countP_cons_of_pos container]
    exact Nat.succ_lt_succ (Nat.lt_of_lt_of_le deep behind.sublist.countP_le)

/-! ## §2 What a reader returns -/

/-- A reader returns something and what is left of the text, or it finds the text malformed, or
the text goes over a limit. -/
inductive Reads (room : Nat) (text : Text) : Except Fault (α × Text) → Prop where
  | read (a : α) (rest : Text) (behind : rest <:+ text) : Reads room text (.ok (a, rest))
  | malformed (complaint : Complaint) (left : Nat) :
      Reads room text (.error (.malformed complaint left))
  | exceeded (limit : Limit) (exceeds : Exceeds room text limit) :
      Reads room text (.error (.exceeded limit))

variable {found : Except Fault (α × Text)}

private theorem reads_wrong (complaint : Complaint) (rest : Text) :
    Reads (α := α) room text (wrong complaint rest) := .malformed complaint rest.length

/-- What a reader returns for the end of a text. -/
theorem Reads.of_suffix (reads : Reads room part found) (behind : part <:+ text) :
    Reads room text found := by
  cases reads with
  | read a rest inside => exact .read a rest (inside.trans behind)
  | malformed complaint left => exact .malformed complaint left
  | exceeded limit exceeds => exact .exceeded limit (exceeds.of_suffix behind)

theorem Reads.of_opened {c : CodePoint} (reads : Reads room part found)
    (container : opens c = true) (behind : part <:+ text) :
    Reads (room + 1) (c :: text) found := by
  cases reads with
  | read a rest inside =>
    exact .read a rest (inside.trans (behind.trans (List.suffix_cons c text)))
  | malformed complaint left => exact .malformed complaint left
  | exceeded limit exceeds => exact .exceeded limit (exceeds.of_opened container behind)

/-- A reader goes on with what is left. -/
theorem Reads.bind {next : α × Text → Except Fault (β × Text)} (reads : Reads room text found)
    (goesOn : ∀ a rest, rest <:+ text → Reads room rest (next (a, rest))) :
    Reads room text (found >>= next) := by
  cases reads with
  | read a rest behind => exact (goesOn a rest behind).of_suffix behind
  | malformed complaint left => exact .malformed complaint left
  | exceeded limit exceeds => exact .exceeded limit exceeds

/-! ## §3 Strings and numbers -/

private theorem reads_readUnits (opening : Nat) (text : Text) :
    Reads room text (readUnits opening text) := by
  fun_induction readUnits opening text with
  | case1 | case3 => exact .malformed ..
  | case2 rest => exact .read [] rest (List.suffix_cons ..)
  | case4 | case6 | case7 | case9 | case10 => exact reads_wrong ..
  | case5 a b c d rest unit _ _ ih =>
    refine (ih.bind fun units after _ => .read (unit :: units) after List.suffix_rfl).of_suffix ?_
    exact List.suffix_append [.char '\\', .char 'u', a, b, c, d] rest
  | case8 c rest _ _ meant _ ih =>
    refine (ih.bind fun units after _ =>
      .read (meant.toNat :: units) after List.suffix_rfl).of_suffix ?_
    exact List.suffix_append [.char '\\', c] rest
  | case11 c rest _ _ _ _ _ ih =>
    refine (ih.bind fun units after _ =>
      .read (c.toNat :: units) after List.suffix_rfl).of_suffix ?_
    exact List.suffix_cons c rest

theorem reads_readString (text : Text) : Reads room text (readString text) :=
  (reads_readUnits _ text).bind fun units rest _ => .read (ofUnits units) rest List.suffix_rfl

/-- The digits before the point stand at the start of the text. -/
theorem wholeDigits_prefix (text : Text) :
    wholeDigits text <+: text ∧ ∀ c ∈ wholeDigits text, isDigit c = true := by
  unfold wholeDigits
  split
  · rename_i rest
    exact ⟨⟨rest, rfl⟩, by decide⟩
  · exact ⟨List.takeWhile_prefix isDigit, fun c => List.mem_takeWhile_imp⟩

/-- What is left behind a fraction, also if there is none. -/
theorem readFraction_suffix (text : Text) :
    ((readFraction text).getD ([], text)).2 <:+ text := by
  unfold readFraction
  split
  · rename_i rest
    dsimp only
    split
    · exact List.suffix_rfl
    · exact (List.dropWhile_suffix isDigit).trans (List.suffix_cons _ rest)
  · exact List.suffix_rfl

private theorem scanExponent?_suffix {exponent : Int} {after : Text}
    (h : Numeral.scanExponent? text = some (exponent, after)) : after <:+ text := by
  unfold Numeral.scanExponent? at h
  split at h
  · cases h
  · rename_i mark text
    have sign : (Numeral.scanSign text).2 <:+ text := by
      unfold Numeral.scanSign
      split
      · exact List.suffix_cons ..
      · exact List.suffix_cons ..
      · exact List.suffix_rfl
    dsimp only at h
    split at h
    · cases h
      exact ((List.dropWhile_suffix isDigit).trans sign).trans (List.suffix_cons mark text)
    · cases h

/-- Only a whole number goes over a limit, and its digits stand in the text. -/
theorem reads_readNumber (text : Text) : Reads room text (readNumber text) := by
  unfold readNumber
  split
  rename_i negative body signed
  -- the sign apart, everything that is read is a part of the text
  have inside : body <:+ text := by
    split at signed
    · cases signed
      exact List.suffix_cons ..
    · cases signed
      exact List.suffix_rfl
  obtain ⟨start, digits⟩ := wholeDigits_prefix body
  have fractional := (readFraction_suffix (body.drop (wholeDigits body).length)).trans
    ((List.drop_suffix ..).trans inside)
  dsimp only
  generalize (readFraction (body.drop (wholeDigits body).length)).getD
    ([], body.drop (wholeDigits body).length) = found at fractional
  obtain ⟨fraction, behind⟩ := found
  split
  · exact reads_wrong ..
  split
  · -- an exponent makes it a float, for which there is no limit
    rename_i exponent after scanned
    exact .read _ after ((scanExponent?_suffix scanned).trans fractional)
  split
  · split
    · exact .read _ behind fractional
    · -- a whole number with too many digits, which are those at its start
      rename_i long
      exact .exceeded _
        (.digits (wholeDigits body) (start.isInfix.trans inside.isInfix) digits
          (Nat.lt_of_not_le long))
  · exact .read _ behind fractional

private theorem reads_readAtom (text : Text) : Reads room text (readAtom text) := by
  unfold readAtom
  split
  · exact .read _ _ (List.drop_suffix ..)
  · exact (reads_readNumber text).bind fun n rest _ => .read (number n) rest List.suffix_rfl

/-! ## §4 Values -/

theorem skipSpace_suffix (text : Text) : skipSpace text <:+ text := List.dropWhile_suffix isSpace

/-- What the readers of values, elements and members return if they have the given fuel. -/
structure ReadsAll (fuel : Nat) : Prop where
  value : ∀ room text, Reads room text (readValue fuel room text)
  elements : ∀ room read text, Reads room text (readElements fuel room read text)
  members : ∀ room read text, Reads room text (readMembers fuel room read text)

theorem ReadsAll.value_succ (all : ReadsAll fuel) (room : Nat) (text : Text) :
    Reads room text (readValue (fuel + 1) room text) := by
  unfold readValue
  split
  · rename_i rest
    refine ((reads_readString rest).bind fun content after _ =>
      .read (string content) after List.suffix_rfl).of_suffix (List.suffix_cons ..)
  · rename_i rest
    split
    · exact .exceeded _ (.nesting .array (by simp [opens]))
    · have inside := skipSpace_suffix rest
      generalize skipSpace rest = behind at inside
      refine Reads.of_opened ?_ rfl inside
      split
      · exact .read _ _ (List.suffix_cons ..)
      · exact all.elements ..
  · rename_i rest
    split
    · exact .exceeded _ (.nesting .object (by simp [opens]))
    · have inside := skipSpace_suffix rest
      generalize skipSpace rest = behind at inside
      refine Reads.of_opened ?_ rfl inside
      split
      · exact .read _ _ (List.suffix_cons ..)
      · exact all.members ..
  · exact reads_readAtom text

theorem ReadsAll.elements_succ (all : ReadsAll fuel) (room : Nat) (read : List Json)
    (text : Text) : Reads room text (readElements (fuel + 1) room read text) := by
  unfold readElements
  refine (all.value room text).bind fun element rest _ => ?_
  refine Reads.of_suffix ?_ (skipSpace_suffix rest)
  dsimp only
  generalize skipSpace rest = behind
  split
  · exact .read _ _ (List.suffix_cons ..)
  · rename_i after
    refine (all.elements room (element :: read) (skipSpace after)).of_suffix ?_
    exact (skipSpace_suffix after).trans (List.suffix_cons ..)
  · exact reads_wrong ..

theorem ReadsAll.members_succ (all : ReadsAll fuel) (room : Nat) (read : OrderedMap Text Json)
    (text : Text) : Reads room text (readMembers (fuel + 1) room read text) := by
  unfold readMembers
  split
  · rename_i quotedName
    refine Reads.of_suffix ?_ (List.suffix_cons _ quotedName)
    refine (reads_readString quotedName).bind fun name rest _ => ?_
    refine Reads.of_suffix ?_ (skipSpace_suffix rest)
    dsimp only
    generalize skipSpace rest = behind
    split
    · rename_i behind
      refine Reads.of_suffix ?_ ((skipSpace_suffix behind).trans (List.suffix_cons _ behind))
      refine (all.value room (skipSpace behind)).bind fun value rest _ => ?_
      refine Reads.of_suffix ?_ (skipSpace_suffix rest)
      dsimp only
      generalize skipSpace rest = behind
      split
      · exact .read _ _ (List.suffix_cons ..)
      · rename_i after
        refine (all.members room (read.insert name value) (skipSpace after)).of_suffix ?_
        exact (skipSpace_suffix after).trans (List.suffix_cons ..)
      · exact reads_wrong ..
    · exact reads_wrong ..
  · exact reads_wrong ..

theorem readsAll (fuel : Nat) : ReadsAll fuel := by
  induction fuel with
  | zero =>
    exact ⟨fun _ _ => reads_wrong .., fun _ _ _ => reads_wrong .., fun _ _ _ => reads_wrong ..⟩
  | succ fuel ih => exact ⟨ih.value_succ, ih.elements_succ, ih.members_succ⟩

/-- **Limits of reading.** If a text goes over a limit while it is read, it holds a run of more
than 4300 digits, as many as are blamed, or it opens more than 990 containers. -/
theorem exceeds_of_readAll (h : readAll text = .error (.exceeded limit)) :
    Exceeds Limit.maxNesting text limit := by
  unfold readAll at h
  split at h
  · cases h
  · have value := (readsAll (2 * text.length + 2)).value Limit.maxNesting (skipSpace text)
    generalize readValue (2 * text.length + 2) Limit.maxNesting (skipSpace text) = found at value h
    cases value with
    | read value rest =>
      -- what is left behind the value is malformed at most
      dsimp only [bind, Except.bind] at h
      split at h <;> cases h
    | malformed => cases h
    | exceeded limit' exceeds =>
      cases h
      exact exceeds.of_suffix (skipSpace_suffix text)

/-! ## §5 A numeral that is too long -/

/-- A text that begins with a digit begins with no word. -/
theorem find?_words_of_digit {c : CodePoint} (digit : isDigit c = true) (rest : Text) :
    (words.find? fun word => word.1.isPrefixOf (c :: rest)) = none := by
  have letters : ∀ word ∈ words, ∀ first ∈ word.1.head?, isDigit first = false := by decide
  have some : ∀ word ∈ words, word.1 ≠ [] := by decide
  refine List.find?_eq_none.mpr fun word member begins => ?_
  obtain ⟨behind, same⟩ := List.isPrefixOf_iff_prefix.mp begins
  cases spelled : word.1 with
  | nil => exact some word member spelled
  | cons first letters' =>
    rw [spelled] at same
    have other := letters word member first (by rw [spelled]; rfl)
    rw [(List.cons.inj same).1, digit] at other
    cases other

/-- A whole number with too many digits is not read. -/
theorem readNumber_of_long {digits : Text} (all : ∀ c ∈ digits, isDigit c = true)
    (noZero : ∀ c ∈ digits.head?, c ≠ '0') (long : Limit.maxDigits < digits.length) :
    readNumber digits = .error (.exceeded (.readDigits digits.length)) := by
  have whole : wholeDigits digits = digits := by
    unfold wholeDigits
    split
    · exact absurd rfl (noZero _ rfl)
    · exact List.takeWhile_eq_self_iff.mpr all
  have some : digits.isEmpty = false := by
    cases digits with
    | nil => cases long
    | cons c digits => rfl
  unfold readNumber
  split
  rename_i negative body signed
  split at signed
  · cases all _ List.mem_cons_self
  · cases signed
    -- nothing stands behind the digits
    have behind : (readFraction []).getD ([], []) = (([] : Text), ([] : Text)) := rfl
    have exponent : Numeral.scanExponent? [] = none := rfl
    dsimp only
    rw [whole, List.drop_length, behind, exponent, some]
    exact if_neg (Nat.not_le_of_lt long)

private theorem isSpace_of_digit {c : CodePoint} (digit : isDigit c = true) :
    ¬ isSpace c = true := by
  intro space
  simp only [isSpace, Bool.or_eq_true, beq_iff_eq] at space
  rcases space with ((rfl | rfl) | rfl) | rfl <;> cases digit

private theorem readValue_of_digit {c : CodePoint} (digit : isDigit c = true) (fuel room : Nat)
    (rest : Text) : readValue (fuel + 1) room (c :: rest) = readAtom (c :: rest) := by
  unfold readValue
  split
  · rename_i same
    cases same
    cases digit
  · rename_i same
    cases same
    cases digit
  · rename_i same
    cases same
    cases digit
  · rfl

theorem readAll_of_long {digits : Text} (all : ∀ c ∈ digits, isDigit c = true)
    (noZero : ∀ c ∈ digits.head?, c ≠ '0') (long : Limit.maxDigits < digits.length) :
    readAll digits = .error (.exceeded (.readDigits digits.length)) := by
  have number := readNumber_of_long all noZero long
  cases digits with
  | nil => cases long
  | cons c digits =>
    have digit := all c List.mem_cons_self
    have noWord := find?_words_of_digit digit digits
    have atom : readAtom (c :: digits) = .error (.exceeded (.readDigits (c :: digits).length)) := by
      rw [readAtom, noWord, number]
      rfl
    have noSpace : skipSpace (c :: digits) = c :: digits :=
      List.dropWhile_cons_of_neg (isSpace_of_digit digit)
    rw [readAll, noSpace, readValue_of_digit digit, atom]
    · rfl
    · rintro rest same
      cases same
      cases digit

end PrefixCalc.Json
