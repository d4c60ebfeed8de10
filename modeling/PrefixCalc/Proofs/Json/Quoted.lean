import Mathlib.Data.List.Chain
import Mathlib.Tactic.IntervalCases
import PrefixCalc.Json.Reader
import PrefixCalc.Text.Utf8

/-!
# Reading quoted text back

The JSON spelling of a text is plain ASCII and is read back as the text, code point by code
point. Only one thing is lost: two halves of a surrogate pair in a row come back as the character
that they encode.
-/

namespace PrefixCalc

open Text

/-! ## §1 Hexadecimal digits -/

/-- The character that spells a digit below sixteen. -/
def Text.hexChar (digit : Nat) : CodePoint := .char digit.digitChar

private theorem Text.hex_one {n : Nat} (lt : n < 16) : hex 1 n = [hexChar n] := by
  rw [hex, Nat.toDigits_of_lt_base lt]
  rfl

/-- The last digit stands behind those of the sixteenth, also behind a filling zero. -/
theorem Text.hex_succ {width : Nat} (pos : 0 < width) (n : Nat) :
    hex (width + 1) n = hex width (n / 16) ++ [hexChar (n % 16)] := by
  obtain ⟨width, rfl⟩ := Nat.exists_eq_succ_of_ne_zero pos.ne'
  unfold hex
  rw [Nat.toDigits_eq_if (by decide)]
  split
  · rename_i lt
    have none : n / 16 = 0 := Nat.div_eq_of_lt lt
    have filled : zeros (width + 1) = zeros width ++ [.char '0'] := List.replicate_succ'
    rw [none, Nat.mod_eq_of_lt lt, Nat.toDigits_of_lt_base (by decide)]
    exact congrArg (· ++ [hexChar n]) filled
  · simp only [List.map_append, List.map_cons, List.map_nil, List.length_append, List.length_map,
      List.length_singleton, List.append_assoc, hexChar, Nat.add_sub_add_right]

private theorem Text.hex_four {n : Nat} (lt : n < 0x10000) : hex 4 n
    = [hexChar (n / 16 / 16 / 16), hexChar (n / 16 / 16 % 16), hexChar (n / 16 % 16),
        hexChar (n % 16)] := by
  rw [hex_succ (by decide), hex_succ (by decide), hex_succ (by decide), hex_one (by omega)]
  rfl

namespace Json

variable {c : CodePoint} {text behind : Text} {n opening : Nat}

private theorem hexDigit?_hexChar {digit : Nat} (lt : digit < 16) :
    hexDigit? (hexChar digit) = some digit := by
  interval_cases digit <;> decide

private theorem hexUnit?_hexChar (lt : n < 0x10000) :
    hexUnit? (hexChar (n / 16 / 16 / 16)) (hexChar (n / 16 / 16 % 16)) (hexChar (n / 16 % 16))
      (hexChar (n % 16)) = some n := by
  unfold hexUnit?
  rw [hexDigit?_hexChar (by omega), hexDigit?_hexChar (by omega), hexDigit?_hexChar (by omega),
    hexDigit?_hexChar (by omega)]
  refine congrArg some ?_
  omega

/-! ## §2 Escapes -/

/-- The ways in which a code point is written. -/
inductive Escaped (c : CodePoint) : Text → Prop where
  | short (letter : CodePoint) (means : shortEscape? letter = some c) : Escaped c ['\\', letter]
  | plain (printable : ' ' ≤ c ∧ c ≤ '~') (noQuote : c ≠ '"') (noBackslash : c ≠ '\\') :
      Escaped c [c]
  | unit (lt : c.toNat < 0x10000) : Escaped c (escapeUnit c.toNat)
  | pair (ge : 0x10000 ≤ c.toNat) : Escaped c
      (escapeUnit (0xD800 + (c.toNat - 0x10000) / 0x400)
        ++ escapeUnit (0xDC00 + (c.toNat - 0x10000) % 0x400))

private theorem escaped_escape (c : CodePoint) : Escaped c (escape c) := by
  -- the branches are those of `escape`; the first six have a short form
  unfold escape
  split
  · rename_i special
    rw [Bool.or_eq_true, decide_eq_true_eq, decide_eq_true_eq] at special
    rcases special with rfl | rfl <;> exact .short _ rfl
  rename_i plain
  rw [Bool.or_eq_true, decide_eq_true_eq, decide_eq_true_eq, not_or] at plain
  split
  · rename_i same
    exact .short 'n' (congrArg some same.symm)
  split
  · rename_i same
    exact .short 'r' (congrArg some same.symm)
  split
  · rename_i same
    exact .short 't' (congrArg some same.symm)
  split
  · rename_i same
    exact .short 'b' (congrArg some same.symm)
  split
  · rename_i same
    exact .short 'f' (congrArg some same.symm)
  split
  · rename_i printable
    rw [Bool.and_eq_true, decide_eq_true_eq, decide_eq_true_eq] at printable
    exact .plain printable plain.1 plain.2
  split
  · rename_i lt
    exact .unit lt
  · rename_i ge
    exact .pair (Nat.le_of_not_lt ge)

/-- Short escapes are about plain ASCII only. -/
theorem lt_of_shortEscape? {letter : CodePoint} (means : shortEscape? letter = some c) :
    letter.toNat < 0x80 ∧ c.toNat < 0x80 := by
  unfold shortEscape? at means
  split at means <;> cases means <;> decide

/-- The units of sixteen bits of a code point. -/
def units (c : CodePoint) : List Nat :=
  if c.toNat < 0x10000 then [c.toNat]
  else [0xD800 + (c.toNat - 0x10000) / 0x400, 0xDC00 + (c.toNat - 0x10000) % 0x400]

/-- Puts units in front of those that are read behind them. -/
def before (front : List Nat) (read : Except Fault (List Nat × Text)) :
    Except Fault (List Nat × Text) :=
  read.map fun found => (front ++ found.1, found.2)

private theorem readUnits_escapeUnit (lt : n < 0x10000) (more : behind ≠ []) :
    readUnits opening (escapeUnit n ++ behind) = before [n] (readUnits opening behind) := by
  have spelled : escapeUnit n = .char '\\' :: .char 'u' :: hex 4 n := rfl
  have goesOn : behind.isEmpty = false := by simpa using more
  rw [spelled, hex_four lt]
  simp only [List.cons_append, List.nil_append, readUnits, hexUnit?_hexChar lt, goesOn]
  cases readUnits opening behind <;> rfl

private theorem toNat_lt (c : CodePoint) : c.toNat < 0x110000 := by
  cases c with
  | char c =>
    have := c.valid
    simp only [UInt32.isValidChar, Nat.isValidChar] at this
    simp only [CodePoint.toNat, Char.toNat]
    omega
  | surrogate half =>
    simp only [CodePoint.toNat]
    omega

private theorem before_append (front front' : List Nat) (read : Except Fault (List Nat × Text)) :
    before (front ++ front') read = before front (before front' read) := by
  cases read with
  | error fault => rfl
  | ok found => simp only [before, Except.map, List.append_assoc]

private theorem readUnits_short {letter : CodePoint} (means : shortEscape? letter = some c) :
    readUnits opening (.char '\\' :: letter :: behind)
      = before [c.toNat] (readUnits opening behind) := by
  have noUnit : letter ≠ .char 'u' := by
    rintro rfl
    cases means
  rw [readUnits, if_neg noUnit, means]
  · cases readUnits opening behind <;> rfl
  · exact fun _ _ _ _ _ same _ => noUnit same

private theorem readUnits_plain (noQuote : c ≠ .char '"') (noBackslash : c ≠ .char '\\')
    (shown : .char ' ' ≤ c) :
    readUnits opening (c :: behind) = before [c.toNat] (readUnits opening behind) := by
  have noControl : ¬ c < .char ' ' := Nat.not_lt_of_le shown
  rw [readUnits, if_neg noControl]
  · cases readUnits opening behind <;> rfl
  · exact noQuote
  · exact fun same _ => noBackslash same
  · exact fun _ _ _ _ _ same _ => noBackslash same
  · exact fun _ _ same _ => noBackslash same

/-- A code point is read back as its units, unless the text ends behind it. -/
theorem readUnits_escape (c : CodePoint) (more : behind ≠ []) :
    readUnits opening (escape c ++ behind) = before (units c) (readUnits opening behind) := by
  have bound := toNat_lt c
  have written := escaped_escape c
  generalize escape c = text at written
  have single (lt : c.toNat < 0x10000) : units c = [c.toNat] := if_pos lt
  cases written with
  | short letter means =>
    rw [single (Nat.lt_trans (lt_of_shortEscape? means).2 (by decide))]
    exact readUnits_short means
  | plain printable noQuote noBackslash =>
    rw [single]
    · exact readUnits_plain noQuote noBackslash printable.1
    · exact Nat.lt_of_le_of_lt printable.2 (by decide)
  | unit lt =>
    rw [single lt]
    exact readUnits_escapeUnit lt more
  | pair ge =>
    rw [units, if_neg (Nat.not_lt.mpr ge), List.append_assoc,
      readUnits_escapeUnit (by omega) (List.append_ne_nil_of_right_ne_nil _ more),
      readUnits_escapeUnit (by omega) more]
    exact (before_append [_] [_] _).symm

/-! ## §3 Surrogate pairs -/

/-- Two halves in a row that come back as one character. -/
def Pairs (high low : CodePoint) : Prop :=
  (0xD800 ≤ high.toNat ∧ high.toNat < 0xDC00) ∧ 0xDC00 ≤ low.toNat ∧ low.toNat < 0xE000

/-- The texts that are read back as they are: no two halves in a row make a pair. -/
def Unpaired (text : Text) : Prop := text.IsChain fun high low => ¬ Pairs high low

instance (high low : CodePoint) : Decidable (Pairs high low) :=
  inferInstanceAs (Decidable (_ ∧ _))

instance (text : Text) : Decidable (Unpaired text) :=
  inferInstanceAs (Decidable (text.IsChain _))

/-- A unit that does not open a pair with the next one is a code point. -/
theorem ofUnits_cons {more : List Nat}
    (alone : ∀ low ∈ more.head?, ¬ ((0xD800 ≤ n ∧ n < 0xDC00) ∧ 0xDC00 ≤ low ∧ low < 0xE000)) :
    ofUnits (n :: more) = .ofNat n :: ofUnits more := by
  cases more with
  | nil => rfl
  | cons low more =>
    rw [ofUnits, if_neg]
    simpa using alone low rfl

private theorem ofUnits_pair {more : List Nat} (ge : 0x10000 ≤ c.toNat) :
    ofUnits (units c ++ more) = c :: ofUnits more := by
  have bound := toNat_lt c
  have whole : 0x10000 + (0xD800 + (c.toNat - 0x10000) / 0x400 - 0xD800) * 0x400
      + (0xDC00 + (c.toNat - 0x10000) % 0x400 - 0xDC00) = c.toNat := by
    omega
  rw [units, if_neg (Nat.not_lt.mpr ge), List.cons_append, List.singleton_append, ofUnits, if_pos,
    whole, CodePoint.ofNat_toNat]
  simp only [Bool.and_eq_true, decide_eq_true_eq]
  omega

/-- The first unit of a code point is its number or opens a pair. -/
theorem head?_units (c : CodePoint) :
    ∃ first, (units c).head? = some first ∧ (first = c.toNat ∨ first < 0xDC00) := by
  unfold units
  split
  · exact ⟨_, rfl, .inl rfl⟩
  · have bound := toNat_lt c
    exact ⟨_, rfl, .inr (by omega)⟩

/-- The text of the units is the text. -/
theorem ofUnits_units (unpaired : Unpaired text) : ofUnits (text.flatMap units) = text := by
  induction text with
  | nil => rfl
  | cons c text ih =>
    obtain ⟨next, unpaired⟩ := List.isChain_cons.mp unpaired
    rw [List.flatMap_cons]
    by_cases lt : c.toNat < 0x10000
    · rw [units, if_pos lt, List.singleton_append, ofUnits_cons, ih unpaired,
        CodePoint.ofNat_toNat]
      cases text with
      | nil => exact nofun
      | cons d text =>
        obtain ⟨first, found, small⟩ := head?_units d
        rw [List.flatMap_cons, List.head?_append, found]
        rintro low same ⟨high, isLow⟩
        obtain rfl : first = low := by simpa using same
        have alone := next d rfl
        unfold Pairs at alone
        omega
    · rw [ofUnits_pair (Nat.le_of_not_lt lt), ih unpaired]

/-! ## §4 Texts -/

private theorem readUnits_quoted (text behind : Text) :
    readUnits opening (text.flatMap escape ++ .char '"' :: behind)
      = .ok (text.flatMap units, behind) := by
  induction text with
  | nil => rfl
  | cons c text ih =>
    rw [List.flatMap_cons, List.append_assoc, readUnits_escape c (by simp), ih]
    rfl

theorem readString_quoted (unpaired : Unpaired text) (behind : Text) :
    readString (text.flatMap escape ++ .char '"' :: behind) = .ok (text, behind) := by
  unfold readString
  rw [readUnits_quoted]
  exact congrArg (fun text => Except.ok (text, behind)) (ofUnits_units unpaired)

/-- **A quoted text is read back.** -/
theorem readValue_quoted (unpaired : Unpaired text) (fuel room : Nat) (behind : Text) :
    readValue (fuel + 1) room (quoted text ++ behind) = .ok (string text, behind) := by
  have spelled : quoted text ++ behind
      = .char '"' :: (text.flatMap escape ++ .char '"' :: behind) := by
    simp only [quoted, List.append_assoc]
    rfl
  rw [spelled, readValue, readString_quoted unpaired]
  rfl

/-! ## §5 Plain ASCII -/

private theorem lt_hexChar {digit : Nat} (lt : digit < 16) : (hexChar digit).toNat < 0x80 := by
  interval_cases digit <;> decide

private theorem ascii_escapeUnit (lt : n < 0x10000) : ∀ c ∈ escapeUnit n, c.toNat < 0x80 := by
  have letters : ∀ c ∈ ("\\u" : Text), c.toNat < 0x80 := by decide
  intro c member
  rcases List.mem_append.mp member with member | member
  · exact letters c member
  · rw [hex_four lt] at member
    simp only [List.mem_cons, List.not_mem_nil, or_false] at member
    rcases member with rfl | rfl | rfl | rfl <;> exact lt_hexChar (by omega)

private theorem ascii_escape (c : CodePoint) : ∀ d ∈ escape c, d.toNat < 0x80 := by
  have bound := toNat_lt c
  have written := escaped_escape c
  generalize escape c = text at written
  cases written with
  | short letter means =>
    refine List.forall_mem_cons.mpr ⟨by decide, ?_⟩
    exact List.forall_mem_singleton.mpr (lt_of_shortEscape? means).1
  | plain printable =>
    exact List.forall_mem_singleton.mpr (Nat.lt_of_le_of_lt printable.2 (by decide))
  | unit lt => exact ascii_escapeUnit lt
  | pair ge =>
    exact List.forall_mem_append.mpr
      ⟨ascii_escapeUnit (by omega), ascii_escapeUnit (by omega)⟩

theorem ascii_quoted (text : Text) : ∀ c ∈ quoted text, c.toNat < 0x80 := by
  have quote : ∀ c ∈ ("\"" : Text), c.toNat < 0x80 := by decide
  have inside : ∀ c ∈ text.flatMap escape, c.toNat < 0x80 := by
    intro c member
    obtain ⟨d, -, member⟩ := List.mem_flatMap.mp member
    exact ascii_escape d c member
  exact List.forall_mem_append.mpr ⟨List.forall_mem_append.mpr ⟨quote, inside⟩, quote⟩

end Json

end PrefixCalc
