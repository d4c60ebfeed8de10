import PrefixCalc.Proofs.Numeral
import PrefixCalc.Proofs.Text.Longest

/-!
# Grammars of numerals

What a numeral looks like, and that the scanners take the longest one at the start of a text. This
is shown part by part: digits, then a sign in front of them, a point between them, an exponent
behind them. A part can only go on with characters that the next one does not start with, so each
one can be scanned to its end before the next one is looked for.
-/

namespace PrefixCalc

namespace Numeral

open Text

variable {α : Type} {spells : Text → α → Prop} {scan : Text → Option (α × Text)} {text : Text}

/-! ## §1 Digits and signs -/

/-- A run of digits, which spells itself. -/
inductive Digits : Text → Text → Prop where
  | run {digits : Text} (some : digits ≠ []) (all : ∀ c ∈ digits, isDigit c = true) :
      Digits digits digits

/-- A sign, and whether it is that of negative numbers; it can be left out. -/
inductive Sign : Text → Bool → Prop where
  | absent : Sign [] false
  | plus : Sign [.char '+'] false
  | minus : Sign [.char '-'] true

/-- What a grammar has, with a sign in front of it. -/
inductive Signed (spells : Text → α → Prop) : Text → Bool × α → Prop where
  | intro {sign text : Text} {negative : Bool} {value : α} (signed : Sign sign negative)
      (spelled : spells text value) : Signed spells (sign ++ text) (negative, value)

/-- The number of the given size and sign. -/
def ofSign (negative : Bool) (size : Nat) : Int := if negative then -size else size

/-- The run of digits at the start of a text. -/
def scanDigits? (text : Text) : Option (Text × Text) :=
  let digits := text.takeWhile isDigit
  if digits.isEmpty then none else some (digits, text.dropWhile isDigit)

/-- A scanner behind a sign. -/
def scanSigned? (scan : Text → Option (α × Text)) (text : Text) : Option ((Bool × α) × Text) :=
  (scan (scanSign text).2).map fun found => (((scanSign text).1, found.1), found.2)

private theorem scans_digits : Scans Digits scanDigits? where
  sound {text after digits} read := by
    unfold scanDigits? at read
    dsimp only at read
    split at read
    · cases read
    · rename_i some
      cases read
      exact ⟨_, List.takeWhile_append_dropWhile.symm,
        .run (by simpa using some) fun _ => List.mem_takeWhile_imp⟩
  complete spelled behind := by
    obtain ⟨some, all⟩ := spelled
    rename_i digits
    refine ⟨digits ++ behind.takeWhile isDigit, behind.takeWhile isDigit,
      behind.dropWhile isDigit, ?_, List.takeWhile_append_dropWhile.symm,
      fun none => by rw [none, List.append_nil]⟩
    simp [scanDigits?, List.takeWhile_append_of_pos all, List.dropWhile_append_of_pos all, some]

private theorem scanSign_sound (text : Text) :
    ∃ sign, text = sign ++ (scanSign text).2 ∧ Sign sign (scanSign text).1 := by
  unfold scanSign
  split
  · exact ⟨_, rfl, .minus⟩
  · exact ⟨_, rfl, .plus⟩
  · exact ⟨_, rfl, .absent⟩

/-- No text of a grammar starts with a sign. -/
def Unsigned (spells : Text → α → Prop) : Prop :=
  ∀ {text value}, spells text value →
    ∃ c rest, text = c :: rest ∧ c ≠ .char '-' ∧ c ≠ .char '+'

private theorem scans_signed (scans : Scans spells scan) (unsigned : Unsigned spells) :
    Scans (Signed spells) (scanSigned? scan) where
  sound {text after value} read := by
    obtain ⟨⟨v, _⟩, bare, same⟩ := Option.map_eq_some_iff.mp read
    cases same
    obtain ⟨found, split, spelled⟩ := scans.sound bare
    obtain ⟨sign, whole, signed⟩ := scanSign_sound text
    exact ⟨sign ++ found, by rw [List.append_assoc, ← split, ← whole], .intro signed spelled⟩
  complete spelled behind := by
    obtain ⟨signed, spelled⟩ := spelled
    rename_i sign text negative value
    obtain ⟨v, more, after, read, split, short⟩ := scans.complete spelled behind
    have bare : scanSign (sign ++ text ++ behind) = (negative, text ++ behind) := by
      cases signed with
      | minus | plus => rfl
      | absent =>
        -- what stands there instead of a sign must not be taken for one
        obtain ⟨c, rest, rfl, notMinus, notPlus⟩ := unsigned spelled
        exact scanSign_of_ne notMinus notPlus
    refine ⟨(negative, v), more, after, ?_, split, fun none => by rw [short none]⟩
    rw [scanSigned?, bare, read]
    rfl

private theorem unsigned_digits : Unsigned Digits := by
  rintro _ _ ⟨some, all⟩
  obtain ⟨c, rest, rfl⟩ := List.exists_cons_of_ne_nil some
  exact ⟨c, rest, rfl, ne_sign_of_isDigit (all c List.mem_cons_self)⟩

private theorem scans_signedDigits : Scans (Signed Digits) (scanSigned? scanDigits?) :=
  scans_signed scans_digits unsigned_digits

/-! ## §2 Numerals -/

/-- Digits, or a point with digits on both sides or on one of them. -/
inductive Plain : Text → Numeral → Prop where
  | whole {digits whole : Text} (spelled : Digits digits whole) :
      Plain digits { whole, fraction := [] }
  | point {digits whole fraction : Text} (spelled : Digits digits whole)
      (all : ∀ c ∈ fraction, isDigit c = true) :
      Plain (digits ++ .char '.' :: fraction) { whole, fraction }
  | fraction {digits fraction : Text} (spelled : Digits digits fraction) :
      Plain (.char '.' :: digits) { whole := [], fraction }

/-- A mark, an optional sign and digits. -/
inductive Exponent : Text → Int → Prop where
  | intro {mark : CodePoint} {text digits : Text} {negative : Bool}
      (marked : mark = .char 'e' ∨ mark = .char 'E')
      (spelled : Signed Digits text (negative, digits)) :
      Exponent (mark :: text) (ofSign negative (digitsValue digits))

/-- A plain numeral, with a complete exponent behind it or with none. -/
inductive Decimal : Text → Numeral → Prop where
  | plain {text : Text} {n : Numeral} (spelled : Plain text n) : Decimal text n
  | exponent {text size : Text} {n : Numeral} {exponent : Int} (spelled : Plain text n)
      (sized : Exponent size exponent) : Decimal (text ++ size) { n with exponent }

/-- What is scanned if it is not empty. -/
def scanPlain? (text : Text) : Option (Numeral × Text) :=
  let (n, rest) := scanPlain text
  if n.whole.isEmpty && n.fraction.isEmpty then none else some (n, rest)

private theorem scanExponent?_cons (mark : CodePoint) (text : Text) :
    scanExponent? (mark :: text)
      = if mark = .char 'e' ∨ mark = .char 'E' then
          (scanSigned? scanDigits? text).map fun found =>
            (ofSign found.1.1 (digitsValue found.1.2), found.2)
        else none := by
  by_cases marked : mark = .char 'e' ∨ mark = .char 'E'
  · by_cases empty : (scanSign text).2.takeWhile isDigit = []
    · simp [scanExponent?, scanSigned?, scanDigits?, marked, empty]
    · simp [scanExponent?, scanSigned?, scanDigits?, marked, empty, ofSign]
  · simp [scanExponent?, marked]

private theorem scans_exponent : Scans Exponent scanExponent? where
  sound {text after exponent} read := by
    cases text with
    | nil => cases read
    | cons mark text =>
      rw [scanExponent?_cons] at read
      split at read
      · rename_i marked
        obtain ⟨⟨⟨negative, digits⟩, _⟩, signed, same⟩ := Option.map_eq_some_iff.mp read
        cases same
        obtain ⟨found, rfl, spelled⟩ := scans_signedDigits.sound signed
        exact ⟨mark :: found, rfl, .intro marked spelled⟩
      · cases read
  complete spelled behind := by
    obtain ⟨marked, spelled⟩ := spelled
    obtain ⟨v, more, after, read, split, short⟩ := scans_signedDigits.complete spelled behind
    refine ⟨ofSign v.1 (digitsValue v.2), more, after, ?_, split, fun none => by rw [short none]⟩
    rw [List.cons_append, scanExponent?_cons, if_pos marked, read]
    rfl

private theorem noDigits : ∀ c ∈ ([] : Text), isDigit c = true := nofun

/-- Behind a point only digits go on with a numeral. -/
theorem scanPlain?_point {whole fraction : Text} (wholeDigits : ∀ c ∈ whole, isDigit c = true)
    (fractionDigits : ∀ c ∈ fraction, isDigit c = true) (some : whole ≠ [] ∨ fraction ≠ [])
    (behind : Text) :
    scanPlain? (whole ++ .char '.' :: fraction ++ behind)
      = .some ({ whole, fraction := fraction ++ behind.takeWhile isDigit },
          behind.dropWhile isDigit) := by
  have all : ∀ c ∈ fraction ++ behind.takeWhile isDigit, isDigit c = true :=
    List.forall_mem_append.mpr ⟨fractionDigits, fun _ => List.mem_takeWhile_imp⟩
  have scanned := scanPlain_point wholeDigits all (head?_dropWhile isDigit behind)
  rw [List.append_assoc, List.takeWhile_append_dropWhile] at scanned
  rw [scanPlain?, List.append_assoc, List.cons_append, scanned]
  rcases some with some | some <;> simp [some]

/-- A plain numeral is scanned to its end where nothing behind it can go on with it. -/
theorem scanPlain?_of_stops {rest : Text} {n : Numeral} (spelled : Plain text n)
    (ends : ∀ c ∈ rest.head?, isDecimalChar c = false) :
    scanPlain? (text ++ rest) = some (n, rest) := by
  have noDigit : ∀ c ∈ rest.head?, isDigit c = false := fun c first =>
    (Bool.or_eq_false_iff.mp (ends c first)).1
  obtain ⟨nothing, whole⟩ : rest.takeWhile isDigit = [] ∧ rest.dropWhile isDigit = rest := by
    cases rest with
    | nil => exact ⟨rfl, rfl⟩
    | cons c rest => simp [noDigit c rfl]
  cases spelled with
  | whole spelled =>
    obtain ⟨some, all⟩ := spelled
    simp [scanPlain?, scanPlain_whole all ends, some]
  | point spelled fractionDigits =>
    obtain ⟨some, all⟩ := spelled
    rw [scanPlain?_point all fractionDigits (.inl some), nothing, whole, List.append_nil]
  | fraction spelled =>
    obtain ⟨some, all⟩ := spelled
    have scanned := scanPlain?_point noDigits all (.inr some) rest
    rwa [List.nil_append, nothing, whole, List.append_nil] at scanned

/-- Digits go on with digits, and then with a point if there is one. -/
theorem exists_scanPlain?_digits {whole : Text} (some : whole ≠ [])
    (all : ∀ c ∈ whole, isDigit c = true) (behind : Text) :
    ∃ n more after, scanPlain? (whole ++ behind) = .some (n, after) ∧ behind = more ++ after ∧
      (more = [] → n = { whole, fraction := [] }) := by
  have cut : behind = behind.takeWhile isDigit ++ behind.dropWhile isDigit :=
    List.takeWhile_append_dropWhile.symm
  have digits : ∀ c ∈ whole ++ behind.takeWhile isDigit, isDigit c = true :=
    List.forall_mem_append.mpr ⟨all, fun _ => List.mem_takeWhile_imp⟩
  by_cases point : ∃ rest, behind.dropWhile isDigit = .char '.' :: rest
  · -- the point is taken too, so this is more than the digits by themselves
    obtain ⟨rest, point⟩ := point
    rw [point] at cut
    generalize behind.takeWhile isDigit = more at cut digits
    have scanned := scanPlain?_point digits noDigits (.inl (by simp [some])) rest
    refine ⟨{ whole := whole ++ more, fraction := rest.takeWhile isDigit },
      more ++ .char '.' :: rest.takeWhile isDigit, rest.dropWhile isDigit, ?_, by simp [cut],
      by simp⟩
    simpa [cut] using scanned
  · -- no point follows, so the scanner stops where the digits do
    have ends : ∀ c ∈ (behind.dropWhile isDigit).head?, isDecimalChar c = false := by
      intro c first
      have noDigit := head?_dropWhile isDigit behind c first
      obtain ⟨rest, split⟩ := List.head?_eq_some_iff.mp first
      have noPoint : c ≠ .char '.' := fun same => point ⟨rest, by rw [split, same]⟩
      simp [isDecimalChar, noDigit, noPoint]
    have scanned := scanPlain?_of_stops (.whole (.run (by simp [some]) digits)) ends
    rw [List.append_assoc, ← cut] at scanned
    exact ⟨_, _, _, scanned, cut, fun none => by rw [none, List.append_nil]⟩

private theorem scanPlain_sound (text : Text) :
    ∃ found, text = found ++ (scanPlain text).2 ∧
      (scanPlain? text = none ∨ Plain found (scanPlain text).1) := by
  have wholeDigits : ∀ c ∈ text.takeWhile isDigit, isDigit c = true := fun _ =>
    List.mem_takeWhile_imp
  have cut : text.takeWhile isDigit ++ text.dropWhile isDigit = text :=
    List.takeWhile_append_dropWhile
  unfold scanPlain? scanPlain
  dsimp only
  generalize text.takeWhile isDigit = whole at *
  split
  · -- a point behind the digits is taken along, with the digits that follow it
    rename_i rest point
    have fractionDigits : ∀ c ∈ rest.takeWhile isDigit, isDigit c = true := fun _ =>
      List.mem_takeWhile_imp
    have cut' : rest.takeWhile isDigit ++ rest.dropWhile isDigit = rest :=
      List.takeWhile_append_dropWhile
    rw [point] at cut
    generalize rest.takeWhile isDigit = fraction at *
    refine ⟨whole ++ .char '.' :: fraction, by simp [← cut, cut'], ?_⟩
    by_cases empty : whole = []
    · -- a point by itself is no numeral
      subst empty
      by_cases empty' : fraction = []
      · exact .inl (by simp [empty'])
      · exact .inr (.fraction (.run empty' fractionDigits))
    · exact .inr (.point (.run empty wholeDigits) fractionDigits)
  · -- without a point there is a numeral exactly if there are digits
    refine ⟨whole, cut.symm, ?_⟩
    by_cases empty : whole = []
    · exact .inl (by simp [empty])
    · exact .inr (.whole (.run empty wholeDigits))

private theorem scans_plain : Scans Plain scanPlain? where
  -- What is read is spelled, as the scanner takes digits and points as the grammar does.
  sound {text after n} read := by
    obtain ⟨found, split, spelled⟩ := scanPlain_sound text
    rcases spelled with none | spelled
    · rw [none] at read
      cases read
    · unfold scanPlain? at read
      dsimp only at read
      split at read
      · cases read
      · cases read
        exact ⟨found, split, spelled⟩
  -- What is spelled is read, perhaps with more digits of what is behind.
  complete {found n} spelled behind := by
    have cut : behind = behind.takeWhile isDigit ++ behind.dropWhile isDigit :=
      List.takeWhile_append_dropWhile.symm
    cases spelled with
    | whole spelled =>
      obtain ⟨some, all⟩ := spelled
      exact exists_scanPlain?_digits some all behind
    | point spelled fractionDigits =>
      obtain ⟨some, all⟩ := spelled
      exact ⟨_, _, _, scanPlain?_point all fractionDigits (.inl some) behind, cut,
        fun none => by rw [none, List.append_nil]⟩
    | fraction spelled =>
      obtain ⟨some, all⟩ := spelled
      exact ⟨_, _, _, scanPlain?_point noDigits all (.inr some) behind, cut,
        fun none => by rw [none, List.append_nil]⟩

private theorem scan?_eq (text : Text) :
    scan? text = (scanPlain? text).map fun found =>
      match scanExponent? found.2 with
      | some (exponent, after) => ({ found.1 with exponent }, after)
      | none => found := by
  unfold scan? scanPlain?
  dsimp only
  split
  · rfl
  · cases sized : scanExponent? (scanPlain text).2 <;> simp [sized]

private theorem not_isDecimalChar_of_mark {mark : CodePoint}
    (marked : mark = .char 'e' ∨ mark = .char 'E') : isDecimalChar mark = false := by
  rcases marked with rfl | rfl <;> decide

private theorem scans_decimal : Scans Decimal scan? where
  sound {text after n} read := by
    rw [scan?_eq] at read
    obtain ⟨⟨plain, rest⟩, scanned, same⟩ := Option.map_eq_some_iff.mp read
    obtain ⟨found, rfl, spelled⟩ := scans_plain.sound scanned
    cases sized : scanExponent? rest with
    | none =>
      rw [sized] at same
      cases same
      exact ⟨found, rfl, .plain spelled⟩
    | some taken =>
      rw [sized] at same
      cases same
      obtain ⟨size, rfl, exponent⟩ := scans_exponent.sound sized
      exact ⟨found ++ size, (List.append_assoc ..).symm, .exponent spelled exponent⟩
  complete spelled behind := by
    cases spelled with
    | plain spelled =>
      obtain ⟨w, more, after, scanned, rfl, short⟩ := scans_plain.complete spelled behind
      cases sized : scanExponent? after with
      | none =>
        exact ⟨w, more, after, by rw [scan?_eq, scanned, Option.map_some, sized], rfl, short⟩
      | some taken =>
        -- the exponent is not empty, so the numeral is longer than what is spelled
        obtain ⟨size, rfl, exponent⟩ := scans_exponent.sound sized
        refine ⟨{ w with exponent := taken.1 }, more ++ size, taken.2, ?_,
          (List.append_assoc ..).symm, fun none => ?_⟩
        · rw [scan?_eq, scanned, Option.map_some, sized]
        · obtain ⟨-, rfl⟩ := List.append_eq_nil_iff.mp none
          cases exponent
    | exponent spelled sized =>
      rename_i text size n exponent
      obtain ⟨e, more, after, scanned', split, short⟩ := scans_exponent.complete sized behind
      have scanned : scanPlain? (text ++ (size ++ behind)) = some (n, size ++ behind) := by
        -- nothing in front of the exponent can go on with its mark
        refine scanPlain?_of_stops spelled ?_
        obtain ⟨marked, -⟩ := sized
        rintro c ⟨⟩
        exact not_isDecimalChar_of_mark marked
      refine ⟨{ n with exponent := e }, more, after, ?_, split, fun none => by rw [short none]⟩
      rw [scan?_eq, List.append_assoc, scanned, Option.map_some, scanned']

/-! ## §3 Magnitudes -/

/-- What a sign can stand in front of. -/
inductive Magnitude where
  | infinity
  | numeral (n : Numeral)

/-- The double of a magnitude and a sign. -/
def Magnitude.toBinary64 (negative : Bool) : Magnitude → Binary64
  | infinity => .infinite negative
  | numeral n => n.toBinary64 negative

/-- The word for infinity, or a numeral. -/
inductive Unbounded : Text → Magnitude → Prop where
  | infinity : Unbounded "Infinity" .infinity
  | numeral {text : Text} {n : Numeral} (spelled : Decimal text n) : Unbounded text (.numeral n)

/-- A magnitude at the start of a text. -/
def scanMagnitude? (text : Text) : Option (Magnitude × Text) :=
  if ("Infinity" : Text).isPrefixOf text then some (.infinity, text.drop 8)
  else (scan? text).map fun found => (.numeral found.1, found.2)

theorem Plain.exists_cons {n : Numeral} (spelled : Plain text n) :
    ∃ c rest, text = c :: rest ∧ isDecimalChar c = true := by
  have digit {digits value : Text} (spelled : Digits digits value) :
      ∃ c rest, digits = c :: rest ∧ isDecimalChar c = true := by
    obtain ⟨some, all⟩ := spelled
    obtain ⟨c, rest, rfl⟩ := List.exists_cons_of_ne_nil some
    exact ⟨c, rest, rfl, by simp [isDecimalChar, all c List.mem_cons_self]⟩
  cases spelled with
  | whole spelled => exact digit spelled
  | point spelled fractionDigits =>
    obtain ⟨c, rest, rfl, first⟩ := digit spelled
    exact ⟨c, _, rfl, first⟩
  | fraction spelled => exact ⟨_, _, rfl, by decide⟩

theorem Decimal.exists_cons {n : Numeral} (spelled : Decimal text n) :
    ∃ c rest, text = c :: rest ∧ isDecimalChar c = true := by
  cases spelled with
  | plain spelled => exact spelled.exists_cons
  | exponent spelled sized =>
    obtain ⟨c, rest, rfl, first⟩ := spelled.exists_cons
    exact ⟨c, _, rfl, first⟩

private theorem unsigned_unbounded : Unsigned Unbounded := by
  rintro _ _ (_ | spelled)
  · exact ⟨_, _, rfl, by decide, by decide⟩
  · obtain ⟨c, rest, rfl, first⟩ := spelled.exists_cons
    refine ⟨c, rest, rfl, ?_, ?_⟩ <;> rintro rfl <;> exact absurd first (by decide)

private theorem scans_magnitude : Scans Unbounded scanMagnitude? where
  sound {text after value} read := by
    unfold scanMagnitude? at read
    split at read
    · rename_i word
      cases read
      obtain ⟨behind, rfl⟩ := List.isPrefixOf_iff_prefix.mp word
      exact ⟨_, rfl, .infinity⟩
    · obtain ⟨⟨n, _⟩, scanned, same⟩ := Option.map_eq_some_iff.mp read
      cases same
      obtain ⟨found, split, spelled⟩ := scans_decimal.sound scanned
      exact ⟨found, split, .numeral spelled⟩
  complete spelled behind := by
    cases spelled with
    | infinity =>
      exact ⟨.infinity, [], behind, rfl, rfl, fun _ => rfl⟩
    | numeral spelled =>
      rename_i text n
      -- a numeral does not start like the word
      have number : ("Infinity" : Text).isPrefixOf (text ++ behind) = false := by
        obtain ⟨c, rest, rfl, first⟩ := spelled.exists_cons
        by_contra word
        have start : .char 'I' :: ("nfinity" : Text) <+: c :: (rest ++ behind) :=
          List.isPrefixOf_iff_prefix.mp (Bool.of_not_eq_false word)
        obtain ⟨rfl, -⟩ := List.cons_prefix_cons.mp start
        exact absurd first (by decide)
      obtain ⟨w, more, after, scanned, split, short⟩ := scans_decimal.complete spelled behind
      refine ⟨.numeral w, more, after, ?_, split, fun none => by rw [short none]⟩
      rw [scanMagnitude?, number, scanned]
      rfl

theorem scans_signedMagnitude : Scans (Signed Unbounded) (scanSigned? scanMagnitude?) :=
  scans_signed scans_magnitude unsigned_unbounded

/-! ## §4 Numbers that a text starts with -/

private theorem leadingInt?_eq (text : Text) :
    leadingInt? text
      = (scanSigned? scanDigits? (text.dropWhile isBlank)).map Prod.fst := by
  unfold leadingInt? scanSigned? scanDigits?
  dsimp only
  split <;> rfl

theorem leadingFloat?_eq (text : Text) :
    leadingFloat? text
      = ((scanSigned? scanMagnitude? (text.dropWhile isBlank)).map Prod.fst).map fun found =>
          found.2.toBinary64 found.1 := by
  unfold leadingFloat? scanSigned? scanMagnitude?
  dsimp only
  split
  · rfl
  · cases scan? (scanSign (text.dropWhile isBlank)).2 <;> rfl

/-- **Whole numbers** are read from the longest prefix of a sign and digits. -/
theorem leadingInt?_eq_some_iff {negative : Bool} {digits : Text} :
    leadingInt? text = some (negative, digits) ↔
      LongestPrefix (Signed Digits) (text.dropWhile isBlank) (negative, digits) := by
  rw [leadingInt?_eq]
  exact scans_signedDigits.map_fst_eq_some_iff

/-- **Decimal numbers** are read from the longest prefix of a sign and a magnitude. -/
theorem leadingFloat?_eq_some_iff {x : Binary64} :
    leadingFloat? text = some x ↔
      ∃ negative magnitude,
        LongestPrefix (Signed Unbounded) (text.dropWhile isBlank) (negative, magnitude) ∧
          magnitude.toBinary64 negative = x := by
  rw [leadingFloat?_eq, Option.map_eq_some_iff]
  simp only [scans_signedMagnitude.map_fst_eq_some_iff, Prod.exists]

end Numeral

end PrefixCalc
