import PrefixCalc.Proofs.Binary64.Layout
import PrefixCalc.Proofs.Numeral

/-!
# Reading doubles back

A finite double is read back from its text, whichever of the two layouts it is written in and
whatever its sign. So two doubles with one text are the same.
-/

namespace PrefixCalc.Binary64

open Text Numeral

variable {x : Finite}

/-! ## §1 The scientific layout -/

/-- An exponent with its mark and its sign, filled up with zeros. -/
def exponentText (layout : Layout) (exponent : Int) : Text :=
  .char 'e' :: signChar (exponent < 0) ::
    (zeros (layout.exponentWidth - (ofNat exponent.natAbs).length) ++ ofNat exponent.natAbs)

private theorem scientific_eq (layout : Layout) (c : CodePoint) (fraction : Text) (exponent : Int) :
    layout.scientific (c :: fraction) exponent
      = [c] ++ (if fraction = [] then exponentText layout exponent
          else .char '.' :: (fraction ++ exponentText layout exponent)) := by
  have mark : (if exponent < 0 then "e-" else "e+" : Text)
      = [.char 'e', signChar (exponent < 0)] := by
    by_cases negative : exponent < 0
    · simp [negative, signChar]
      rfl
    · simp [negative, signChar]
      rfl
  unfold Layout.scientific
  dsimp only
  rw [mark]
  cases fraction with
  | nil => simp [exponentText]
  | cons d fraction =>
    simp [exponentText]
    rfl

private theorem scanExponent?_exponentText (layout : Layout) (exponent : Int) :
    scanExponent? (exponentText layout exponent) = some (exponent, []) := by
  have digits : ∀ c ∈ zeros (layout.exponentWidth - (ofNat exponent.natAbs).length)
      ++ ofNat exponent.natAbs, isDigit c = true :=
    List.forall_mem_append.mpr
      ⟨fun _ => isDigit_of_mem_zeros, fun _ => isDigit_of_mem_ofNat⟩
  have ends : ∀ c ∈ ([] : Text).head?, isDigit c = false := nofun
  have value : digitsValue (zeros (layout.exponentWidth - (ofNat exponent.natAbs).length)
      ++ ofNat exponent.natAbs) = exponent.natAbs := by
    rw [digitsValue_append, digitsValue_zeros, digitsValue_ofNat, Nat.zero_mul, Nat.zero_add]
  have scanned := scanExponent?_signed (exponent < 0) (by simp [ofNat_ne_nil]) digits ends
  rw [List.append_nil, value] at scanned
  have size : (if exponent < 0 then -(exponent.natAbs : Int) else exponent.natAbs) = exponent := by
    split <;> omega
  simp only [decide_eq_true_eq, size] at scanned
  exact scanned

/-- The digits of a number, laid out with an exponent, denote the number at the place that the
exponent of its leading digit gives it. -/
theorem exists_scan?_scientific (layout : Layout) (m : Nat) (exponent : Int) :
    ∃ n, scan? (layout.scientific (ofNat m) exponent) = some (n, []) ∧
      ∀ negative, n.toBinary64 negative
        = ofDecimal negative m (exponent + 1 - (ofNat m).length) := by
  obtain ⟨c, fraction, split⟩ := List.exists_cons_of_ne_nil (ofNat_ne_nil m)
  have digits : ∀ d ∈ c :: fraction, isDigit d = true := by
    rw [← split]
    exact fun _ => isDigit_of_mem_ofNat
  obtain ⟨first, others⟩ := List.forall_mem_cons.mp digits
  have whole : ∀ d ∈ [c], isDigit d = true := by simpa using first
  have ends : ∀ d ∈ (exponentText layout exponent).head?, isDecimalChar d = false := by
    rintro d ⟨⟩
    rfl
  have noDigit : ∀ d ∈ (exponentText layout exponent).head?, isDigit d = false := by
    rintro d ⟨⟩
    rfl
  -- the point is written only where digits follow it, and the exponent starts with neither
  have plain : scanPlain (layout.scientific (ofNat m) exponent)
      = ({ whole := [c], fraction }, exponentText layout exponent) := by
    rw [split, scientific_eq]
    by_cases single : fraction = []
    · rw [if_pos single, single]
      exact scanPlain_whole whole ends
    · rw [if_neg single]
      exact scanPlain_point whole others noDigit
  refine ⟨_, scan?_of_exponent plain (by simp) (scanExponent?_exponentText layout exponent),
    fun negative => ?_⟩
  -- one digit is whole, so the exponent that is written is that of the leading digit
  have value : digitsValue ([c] ++ fraction) = m := by
    rw [List.singleton_append, ← split, digitsValue_ofNat]
  have place : exponent - (fraction.length : Int) = exponent + 1 - (ofNat m).length := by
    rw [split, List.length_cons]
    omega
  rw [Numeral.toBinary64]
  simp only [value, place]

/-! ## §2 Both layouts -/

private theorem magnitude_eq_scientific {layout : Layout} {d : Digits} (nonzero : d.digits ≠ 0)
    (far : ¬ (layout.lowest ≤ d.leading ∧ d.leading < layout.highest)) :
    layout.magnitude d = layout.scientific (significantDigits d.digits) d.leading := by
  have outside : ¬ (layout.lowest ≤ d.leading && d.leading < layout.highest) = true := by
    simpa only [Bool.and_eq_true, decide_eq_true_eq] using far
  unfold Digits.leading at outside ⊢
  simp only [Layout.magnitude, if_neg nonzero, if_neg outside]
  rfl

/-- A text is, as a whole, a numeral of the magnitude of a double. It starts with a digit, and a
point or an exponent tells it from the numeral of a whole number. -/
structure Denotes (text : Text) (x : Finite) : Prop where
  digit : ∃ c rest, text = c :: rest ∧ isDigit c = true
  mark : .char '.' ∈ text ∨ .char 'e' ∈ text
  scan : ∃ n, scan? text = some (n, []) ∧ n.toBinary64 x.negative = finite x

private theorem denotes_of_decimal {whole fraction text : Text} (h : Decimal whole fraction text)
    (back : Numeral.toBinary64 { whole, fraction } x.negative = finite x) : Denotes text x := by
  cases h with
  | intro nonempty wholeDigits fractionDigits =>
    have ends : ∀ c ∈ ([] : Text).head?, isDigit c = false := nofun
    have plain := scanPlain_point wholeDigits fractionDigits ends
    rw [List.append_nil] at plain
    refine ⟨?_, .inl (by simp), _, scan?_of_plain plain nonempty rfl, back⟩
    obtain ⟨c, others, rfl⟩ := List.exists_cons_of_ne_nil nonempty
    exact ⟨c, _, rfl, wholeDigits c List.mem_cons_self⟩

/-- The magnitude of a double is written as a numeral that denotes it. -/
theorem denotes_magnitude (layout : Layout) (x : Finite) :
    Denotes (layout.magnitude x.shortest) x := by
  by_cases positional : x.significand ≠ 0 →
      layout.lowest ≤ x.shortest.leading ∧ x.shortest.leading < layout.highest
  · obtain ⟨whole, fraction, laidOut, back⟩ := exists_magnitude layout positional
    exact denotes_of_decimal laidOut back
  · obtain ⟨nonzero, far⟩ := Classical.not_imp.mp positional
    obtain ⟨m, digits, back⟩ := exists_significant nonzero
    obtain ⟨n, scanned, denotes⟩ := exists_scan?_scientific layout m x.shortest.leading
    rw [magnitude_eq_scientific (Finite.shortest_digits_ne_zero nonzero) far, digits]
    have digit : ∀ c ∈ ofNat m, isDigit c = true := fun _ => isDigit_of_mem_ofNat
    obtain ⟨c, fraction, split⟩ := List.exists_cons_of_ne_nil (ofNat_ne_nil m)
    refine ⟨?_, .inr ?_, n, scanned, by rw [denotes, back]⟩
    · rw [split, scientific_eq]
      exact ⟨c, _, rfl, digit c (by simp [split])⟩
    · rw [split, scientific_eq]
      split <;> simp [exponentText]

private theorem write_finite (layout : Layout) (x : Finite) :
    layout.write (.finite x) = withSign x.negative (layout.magnitude x.shortest) := by
  cases negative : x.negative with
  | false => simp [Layout.write, withSign, negative]
  | true =>
    simp [Layout.write, withSign, negative]
    rfl

/-- **Doubles are read back**: the text of a finite double is a number that starts with it and
goes on with nothing else, and that number is the double. -/
theorem leadingFloat?_write (layout : Layout) (x : Finite) :
    leadingFloat? (layout.write (.finite x)) = some (.finite x) := by
  obtain ⟨⟨c, rest, split, digit⟩, -, n, scanned, back⟩ := denotes_magnitude layout x
  rw [write_finite, split]
  rw [split] at scanned
  rw [leadingFloat?_withSign digit scanned, back]

/-- The text of a double is never that of a whole number. -/
theorem mark_mem_write (layout : Layout) (x : Finite) :
    .char '.' ∈ layout.write (.finite x) ∨ .char 'e' ∈ layout.write (.finite x) := by
  rw [write_finite, withSign]
  refine (denotes_magnitude layout x).mark.imp (fun member => ?_) (fun member => ?_) <;>
    split <;> simp [member]

end PrefixCalc.Binary64
