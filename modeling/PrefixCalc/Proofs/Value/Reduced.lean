import PrefixCalc.Proofs.Binary64.Shortest
import PrefixCalc.Value.Basic

/-!
# Equal numbers

Whole numbers and doubles are compared by what they are exactly. A double that is a whole number
is no different from that number, so once each such double is reduced to it, two scalars are equal
exactly if they are the same.
-/

namespace PrefixCalc

/-! ## §1 Doubles and whole numbers -/

namespace Binary64

variable {x y : Binary64} {n : Int}

/-- A finite double is a whole number if its units make up so many times the number one. -/
theorem Finite.toInt?_eq_some_iff (x : Finite) :
    (finite x).toInt? = some n ↔ x.signedUnits = n * unitsPerOne := by
  have pos := Finite.unitsPerOne_pos
  unfold toInt? Finite.signedUnits
  dsimp only
  generalize unitsPerOne = one at pos
  generalize x.units = units
  by_cases whole : one ∣ units
  · obtain ⟨k, rfl⟩ := whole
    have nonzero : (one : Int) ≠ 0 := by omega
    have cancel (i : Int) : i = n ↔ one * i = n * one := by
      rw [mul_comm, mul_left_inj' nonzero]
    rw [if_pos (Nat.mul_mod_right one k), Nat.mul_div_cancel_left k pos, Option.some_inj, cancel]
    split <;> simp
  · rw [if_neg (mt Nat.dvd_of_mod_eq_zero whole)]
    refine iff_of_false nofun fun same => whole (Int.natCast_dvd_natCast.mp ?_)
    split at same
    · exact Int.dvd_neg.mp ⟨n, by rw [same, mul_comm]⟩
    · exact ⟨n, by rw [same, mul_comm]⟩

private theorem isInt_iff : x.isInt n = true ↔ x.toInt? = some n := by
  cases x with
  | finite x => rw [Finite.toInt?_eq_some_iff, isInt, beq_iff_eq]
  | infinite negative | nan => exact iff_of_false nofun nofun

/-- Rounding gives a double back from its units. -/
theorem Finite.round_units {x : Finite} (nonzero : x.significand ≠ 0) :
    round x.negative x.units 1 = finite x := by
  apply round_eq_finite Nat.one_pos
  have some := Finite.units_pos nonzero
  have above : 0 < x.gapAbove := Nat.pow_pos (by decide)
  have below : 0 < x.gapBelow := by
    unfold gapBelow
    split <;> exact Nat.pow_pos (by decide)
  simp only [roundsHere, Nat.mul_one]
  split <;> simp only [Bool.and_eq_true, decide_eq_true_eq] <;> omega

/-- A double other than zero is told by its units. -/
theorem Finite.eq_of_signedUnits {x y : Finite} (nonzero : x.significand ≠ 0)
    (same : x.signedUnits = y.signedUnits) : x = y := by
  have some := Finite.units_pos nonzero
  have units : x.units = y.units := by
    rw [← natAbs_signedUnits, same, natAbs_signedUnits]
  have sign : x.negative = y.negative := by
    unfold signedUnits at same
    cases negative : x.negative <;> cases negative' : y.negative <;>
      simp only [negative, negative', if_true, if_false, Bool.false_eq_true] at same ⊢ <;> omega
  have nonzero' : y.significand ≠ 0 := by
    rintro none
    rw [units, Finite.units, none, Nat.zero_mul] at some
    omega
  have back := round_units nonzero
  rw [units, sign, round_units nonzero'] at back
  exact (Binary64.finite.inj back).symm

/-- Doubles are equal as numbers if they are the same whole number or the same double. -/
theorem sameNumber_iff_of_toInt? (whole : x.toInt? = some n) :
    x.sameNumber y = true ↔ y.toInt? = some n := by
  rw [← isInt_iff]
  cases x with
  | infinite negative | nan => cases whole
  | finite x =>
    have units := x.toInt?_eq_some_iff.mp whole
    cases y with
    | finite y => rw [sameNumber, isInt, beq_iff_eq, beq_iff_eq, units, eq_comm]
    | infinite negative | nan => exact Iff.rfl

private theorem sameNumber_iff_eq (number : x ≠ nan) (fractional : x.toInt? = none)
    (fractional' : y.toInt? = none) : x.sameNumber y = true ↔ x = y := by
  cases x with
  | nan => exact absurd rfl number
  | infinite negative =>
    cases y with
    | infinite negative' => rw [sameNumber, beq_iff_eq, infinite.injEq]
    | finite y | nan => exact iff_of_false Bool.false_ne_true (by rintro ⟨⟩)
  | finite x =>
    cases y with
    | infinite negative | nan => exact iff_of_false Bool.false_ne_true (by rintro ⟨⟩)
    | finite y =>
      rw [sameNumber, beq_iff_eq, finite.injEq]
      refine ⟨Finite.eq_of_signedUnits fun null => ?_, congrArg Finite.signedUnits⟩
      -- zero is a whole number
      obtain ⟨negative, rfl⟩ := Finite.exists_eq_zero null
      have zero : (finite (.zero negative)).toInt? = some 0 :=
        (Finite.toInt?_eq_some_iff _).mpr (by rw [Finite.signedUnits_zero, Int.zero_mul])
      rw [zero] at fractional
      cases fractional

end Binary64

/-! ## §2 Scalars -/

namespace Scalar

/-- A double that is a whole number becomes that number. -/
def reduced : Scalar → Scalar
  | float x =>
    match x.toInt? with
    | some n => int n
    | none => float x
  | other => other

theorem reduced_float_of_toInt? {x : Binary64} {n : Int} (whole : x.toInt? = some n) :
    (float x).reduced = int n := by
  simp only [reduced, whole]

theorem reduced_float_of_fractional {x : Binary64} (fractional : x.toInt? = none) :
    (float x).reduced = float x := by
  simp only [reduced, fractional]

private theorem reduced_eq_int_iff {x : Binary64} {n : Int} :
    (float x).reduced = int n ↔ x.toInt? = some n := by
  cases whole : x.toInt? with
  | some m => rw [reduced_float_of_toInt? whole, int.injEq, Option.some_inj]
  | none =>
    rw [reduced_float_of_fractional whole]
    exact iff_of_false nofun nofun

private theorem sameNumber_iff {x y : Binary64} (number : x ≠ .nan) :
    x.sameNumber y = true ↔ (float x).reduced = (float y).reduced := by
  cases whole : x.toInt? with
  | some n =>
    rw [Binary64.sameNumber_iff_of_toInt? whole, reduced_float_of_toInt? whole]
    exact reduced_eq_int_iff.symm.trans eq_comm
  | none =>
    rw [reduced_float_of_fractional whole]
    cases whole' : y.toInt? with
    | some n =>
      rw [Binary64.sameNumber_comm, Binary64.sameNumber_iff_of_toInt? whole', whole,
        reduced_float_of_toInt? whole']
      exact iff_of_false nofun nofun
    | none =>
      rw [reduced_float_of_fractional whole', Binary64.sameNumber_iff_eq number whole whole',
        float.injEq]

/-- A double is reduced to a number. -/
theorem reduced_float_ne {x : Binary64} {s : Scalar} (other : s.number? = none) :
    (float x).reduced ≠ s := by
  rintro rfl
  cases whole : x.toInt? with
  | some n =>
    rw [reduced_float_of_toInt? whole] at other
    cases other
  | none =>
    rw [reduced_float_of_fractional whole] at other
    cases other

/-- **Equality of scalars**: two scalars are equal exactly if they are the same once they are
reduced. -/
theorem same_iff {a b : Scalar} (number : a ≠ .float .nan) :
    a.same b = true ↔ a.reduced = b.reduced := by
  cases a with
  | int n =>
    cases b with
    | int m => exact beq_iff_eq.trans (int.injEq n m ▸ Iff.rfl)
    | float y => exact Binary64.isInt_iff.trans (reduced_eq_int_iff.symm.trans eq_comm)
    | string t | boolean truth => exact iff_of_false nofun nofun
  | float x =>
    cases b with
    | int m => exact Binary64.isInt_iff.trans reduced_eq_int_iff.symm
    | float y => exact sameNumber_iff fun same => number (congrArg float same)
    | string t | boolean truth => exact iff_of_false nofun (reduced_float_ne rfl)
  | string s =>
    cases b with
    | float y => exact iff_of_false nofun (reduced_float_ne rfl).symm
    | int m | string t | boolean truth => exact beq_iff_eq
  | boolean truth =>
    cases b with
    | float y => exact iff_of_false nofun (reduced_float_ne rfl).symm
    | int m | string t | boolean truth => exact beq_iff_eq

end Scalar

end PrefixCalc
