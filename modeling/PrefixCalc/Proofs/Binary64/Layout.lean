import PrefixCalc.Binary64.Layout
import PrefixCalc.Numeral
import PrefixCalc.Proofs.Binary64.Shortest

/-!
# Laws of positional decimals

A double that is laid out positionally is written as digits around a point, and as a numeral
these denote the double again. Which doubles are laid out so is decided by their size alone.
-/

namespace PrefixCalc.Binary64

open Text

variable {x : Finite}

/-! ## §1 Digits around a point -/

/-- A text of digits around a point, with at least one in front of it. -/
inductive Decimal (whole fraction : Text) : Text → Prop where
  | intro (nonempty : whole ≠ []) (wholeDigits : ∀ c ∈ whole, isDigit c = true)
      (fractionDigits : ∀ c ∈ fraction, isDigit c = true) :
      Decimal whole fraction (whole ++ .char '.' :: fraction)

private theorem isDigit_zero : ∀ c ∈ [CodePoint.char '0'], isDigit c = true := by decide

/-- The digits of a number, laid out positionally, denote the number at the place that the
exponent of its leading digit gives it. -/
theorem exists_positional (m : Nat) (exponent : Int) :
    ∃ whole fraction, Decimal whole fraction (Layout.positional (ofNat m) exponent) ∧
      ∀ negative, Numeral.toBinary64 { whole, fraction } negative
        = ofDecimal negative m (exponent + 1 - (ofNat m).length) := by
  have some := List.length_pos_iff.mpr (ofNat_ne_nil m)
  have digits : ∀ c ∈ ofNat m, isDigit c = true := fun c => isDigit_of_mem_ofNat
  have padding : ∀ count, ∀ c ∈ zeros count, isDigit c = true := fun _ c => isDigit_of_mem_zeros
  unfold Layout.positional
  dsimp only
  split
  · rename_i small
    -- a zero in front of the point, and zeros behind it
    obtain ⟨gap, places⟩ : ∃ gap : Nat, exponent = -(gap + 1) :=
      ⟨(-exponent).toNat - 1, by omega⟩
    have count : (-exponent).toNat - 1 = gap := by omega
    rw [count, List.append_assoc]
    refine ⟨[.char '0'], zeros gap ++ ofNat m,
      .intro (by simp) isDigit_zero (List.forall_mem_append.mpr ⟨padding gap, digits⟩),
      fun negative => ?_⟩
    have value : digitsValue ([.char '0'] ++ (zeros gap ++ ofNat m)) = m := by
      rw [← List.append_assoc, digitsValue_append, digitsValue_ofNat]
      have blank : digitsValue ([.char '0'] ++ zeros gap) = 0 := digitsValue_zeros (gap + 1)
      rw [blank, Nat.zero_mul, Nat.zero_add]
    -- what the zeros add to the length is what the exponent is below zero
    have exponents : 0 - ((zeros gap ++ ofNat m).length : Int)
        = exponent + 1 - (ofNat m).length := by
      rw [List.length_append, zeros, List.length_replicate]
      omega
    rw [Numeral.toBinary64, value, exponents]
  · rename_i large
    split
    · rename_i short
      -- zeros up to the point, and one behind it
      obtain ⟨gap, places⟩ : ∃ gap : Nat, exponent + 1 = (ofNat m).length + gap :=
        ⟨exponent.toNat + 1 - (ofNat m).length, by omega⟩
      have count : exponent.toNat + 1 - (ofNat m).length = gap := by omega
      rw [count]
      refine ⟨ofNat m ++ zeros gap, [.char '0'],
        .intro (by simp [ofNat_ne_nil]) (List.forall_mem_append.mpr ⟨digits, padding gap⟩)
          isDigit_zero,
        fun negative => ?_⟩
      have value : digitsValue (ofNat m ++ zeros gap ++ [.char '0']) = m * 10 ^ (gap + 1) := by
        rw [List.append_assoc, digitsValue_append, digitsValue_ofNat]
        have blank : zeros gap ++ [.char '0'] = zeros (gap + 1) := List.replicate_succ'.symm
        rw [blank, digitsValue_zeros, zeros, List.length_replicate, Nat.add_zero]
      have exponents : (0 : Int) - (1 : Nat) = (gap : Int) - (gap + 1 : Nat) := by omega
      have place : exponent + 1 - (ofNat m).length = gap := by omega
      -- the factor of the digits and the exponent of the place cancel
      rw [Numeral.toBinary64, value, place, ← ofDecimal_mul_pow negative m gap (gap + 1),
        ← exponents]
      rfl
    · rename_i long
      -- the point stands among the digits
      rw [List.append_assoc]
      refine ⟨(ofNat m).take (exponent.toNat + 1), (ofNat m).drop (exponent.toNat + 1),
        .intro (by simp [ofNat_ne_nil]) (fun c member => digits c (List.mem_of_mem_take member))
          (fun c member => digits c (List.mem_of_mem_drop member)), fun negative => ?_⟩
      have exponents : 0 - (((ofNat m).drop (exponent.toNat + 1)).length : Int)
          = exponent + 1 - (ofNat m).length := by
        rw [List.length_drop]
        omega
      rw [Numeral.toBinary64, List.take_append_drop, digitsValue_ofNat, exponents]

/-! ## §2 Doubles -/

private theorem magnitude_eq_positional {layout : Layout} {d : Digits} (nonzero : d.digits ≠ 0)
    (low : layout.lowest ≤ d.leading) (high : d.leading < layout.highest) :
    layout.magnitude d = Layout.positional (significantDigits d.digits) d.leading := by
  have between : (layout.lowest ≤ d.leading && d.leading < layout.highest) = true := by
    simp only [Bool.and_eq_true, decide_eq_true_eq]
    exact ⟨low, high⟩
  unfold Digits.leading at between ⊢
  simp only [Layout.magnitude, if_neg nonzero, if_pos between]
  rfl

/-- Without the zeros at their end, the digits of the shortest decimal denote the double at the
place of its leading digit. -/
theorem exists_significant (nonzero : x.significand ≠ 0) :
    ∃ m, significantDigits x.shortest.digits = ofNat m ∧
      ofDecimal x.negative m (x.shortest.leading + 1 - (ofNat m).length) = finite x := by
  obtain ⟨m, count, split, pos, digits⟩ :=
    exists_significantDigits_eq (Nat.pos_of_ne_zero (Finite.shortest_digits_ne_zero nonzero))
  refine ⟨m, digits, ?_⟩
  -- the zeros that are left out are made up for by the exponent
  have place : x.shortest.leading + 1 - (ofNat m).length = x.shortest.exponent + count := by
    rw [Digits.leading, split, ofNat_mul_pow pos, List.length_append, zeros,
      List.length_replicate]
    omega
  have back : x.shortest.exponent = x.shortest.exponent + count - count := by omega
  rw [place, ← ofDecimal_mul_pow _ m _ count, ← back, ← split]
  exact Finite.ofDecimal_shortest x

/-- A double that is written positionally is digits around a point that denote it. -/
theorem exists_magnitude (layout : Layout)
    (moderate : x.significand ≠ 0 →
      layout.lowest ≤ x.shortest.leading ∧ x.shortest.leading < layout.highest) :
    ∃ whole fraction, Decimal whole fraction (layout.magnitude x.shortest) ∧
      Numeral.toBinary64 { whole, fraction } x.negative = finite x := by
  by_cases null : x.significand = 0
  · obtain ⟨negative, rfl⟩ := Finite.exists_eq_zero null
    exact ⟨[.char '0'], [.char '0'], .intro (by simp) isDigit_zero isDigit_zero, rfl⟩
  · obtain ⟨low, high⟩ := moderate null
    obtain ⟨m, digits, back⟩ := exists_significant null
    obtain ⟨whole, fraction, laidOut, denotes⟩ := exists_positional m x.shortest.leading
    refine ⟨whole, fraction, ?_, by rw [denotes, back]⟩
    rw [magnitude_eq_positional (Finite.shortest_digits_ne_zero null) low high, digits]
    exact laidOut

/-! ## §3 Moderate doubles -/

/-- Zero, and the doubles from `0.0001` up to but not including `10 ^ 16`. -/
def Finite.Moderate (x : Finite) : Prop :=
  x.units = 0 ∨ (unitsPerOne ≤ x.units * 10 ^ 4 ∧ x.units < unitsPerOne * 10 ^ 16)

/-- The double that is ten to the sixteenth. -/
def tenToSixteen (negative : Bool) : Finite :=
  ⟨negative, 5 * 10 ^ 15, 1075, by decide, by decide, by decide⟩

private theorem ofDecimal_tenToSixteen (negative : Bool) :
    ofDecimal negative 1 16 = finite (tenToSixteen negative) := by
  cases negative <;> decide +kernel

private theorem units_tenToSixteen (negative : Bool) :
    (tenToSixteen negative).units = unitsPerOne * 10 ^ 16 := by
  cases negative <;> decide +kernel

/-- The exponents of the leading digits of moderate doubles; that the shortest decimal does not
round up to the next power of ten holds because that power is itself a double. -/
theorem Finite.Moderate.leading_shortest (moderate : x.Moderate) (nonzero : x.significand ≠ 0) :
    -4 ≤ x.shortest.leading ∧ x.shortest.leading < 16 := by
  obtain ⟨atLeast, below⟩ := moderate.resolve_left (Nat.ne_of_gt (units_pos nonzero))
  have exponents : (x.leading.toNat : Int) - (-x.leading).toNat
      = leadingExponent x.units unitsPerOne := by
    show _ = x.leading
    omega
  obtain ⟨least, most⟩ := leadingExponent_spec (units_pos nonzero) unitsPerOne_pos exponents
  have low : -4 ≤ x.leading := by
    by_contra small
    have none : x.leading.toNat = 0 := by omega
    have some : 10 ^ 5 ≤ 10 ^ (-x.leading).toNat := ten_pow_mono (by omega)
    have scaled := Nat.mul_le_mul_left x.units some
    rw [none] at most
    omega
  have high : x.leading < 16 := by
    by_contra large
    have none : (-x.leading).toNat = 0 := by omega
    have some : 10 ^ 16 ≤ 10 ^ x.leading.toNat := ten_pow_mono (by omega)
    have scaled := Nat.mul_le_mul_left unitsPerOne some
    rw [none] at least
    omega
  rcases Finite.leading_shortest nonzero with same | ⟨above, count, shortest⟩
  · omega
  · refine ⟨by omega, ?_⟩
    by_contra large
    -- else the shortest decimal is ten to the sixteenth
    have place : x.leading + 1 - count = 16 - count := by omega
    have reads := ofDecimal_shortest x
    rw [shortest, place] at reads
    simp only [ofDecimal_mul_pow, ofDecimal_tenToSixteen] at reads
    have units := congrArg Finite.units (Binary64.finite.inj reads)
    rw [units_tenToSixteen] at units
    omega

end PrefixCalc.Binary64
