import PrefixCalc.Proofs.Binary64.Rounding

/-!
# Laws of the shortest decimal

The shortest decimal of a double is one of the two multiples of a power of ten that enclose
it, and it is rounded to the double. So a double is what its shortest decimal denotes.
-/

namespace PrefixCalc.Binary64

/-! ## §1 The leading digit -/

/-- The exponent of the leading digit of a quotient, for any two powers of ten whose exponents
differ by it. -/
theorem leadingExponent_spec {num den a b : Nat} (numPos : 0 < num) (denPos : 0 < den)
    (h : (a : Int) - b = leadingExponent num den) :
    den * 10 ^ a ≤ num * 10 ^ b ∧ num * 10 ^ b < den * 10 ^ (a + 1) := by
  unfold leadingExponent at h
  split at h
  · rename_i whole
    -- the digits of the whole part
    have quotientPos : 0 < num / den := Nat.div_pos whole denPos
    obtain ⟨count, digits⟩ : ∃ count, (Text.ofNat (num / den)).length = count + 1 :=
      ⟨_, (Nat.succ_pred_eq_of_pos (List.length_pos_iff.mpr (Text.ofNat_ne_nil _))).symm⟩
    have least := Text.pow_pred_length_ofNat_le quotientPos
    have most := Text.lt_pow_length_ofNat (num / den)
    rw [digits] at h least most
    rw [Nat.add_sub_cancel, Nat.le_div_iff_mul_le denPos] at least
    rw [Nat.div_lt_iff_lt_mul denPos] at most
    obtain rfl : a = count + b := by omega
    constructor
    · calc den * 10 ^ (count + b) = 10 ^ count * den * 10 ^ b := by rw [pow_add]; ring
        _ ≤ num * 10 ^ b := Nat.mul_le_mul_right _ least
    · calc num * 10 ^ b < 10 ^ (count + 1) * den * 10 ^ b :=
            Nat.mul_lt_mul_of_pos_right most (Nat.pow_pos (by decide))
        _ = den * 10 ^ (count + b + 1) := by rw [pow_succ, pow_succ, pow_add]; ring
  · rename_i fraction
    -- the digits of the reciprocal, rounded down if it is whole
    have quotientPos : 0 < (den - 1) / num := Nat.div_pos (by omega) numPos
    obtain ⟨count, digits⟩ : ∃ count, (Text.ofNat ((den - 1) / num)).length = count + 1 :=
      ⟨_, (Nat.succ_pred_eq_of_pos (List.length_pos_iff.mpr (Text.ofNat_ne_nil _))).symm⟩
    have least := Text.pow_pred_length_ofNat_le quotientPos
    have most := Text.lt_pow_length_ofNat ((den - 1) / num)
    rw [digits] at h least most
    rw [Nat.add_sub_cancel, Nat.le_div_iff_mul_le numPos] at least
    rw [Nat.div_lt_iff_lt_mul numPos] at most
    obtain rfl : b = count + 1 + a := by omega
    constructor
    · calc den * 10 ^ a ≤ 10 ^ (count + 1) * num * 10 ^ a := Nat.mul_le_mul_right _ (by omega)
        _ = num * 10 ^ (count + 1 + a) := by rw [pow_add]; ring
    · have below : 10 ^ count * num < den := by omega
      calc num * 10 ^ (count + 1 + a) = 10 ^ count * num * 10 ^ (a + 1) := by
            rw [pow_add, pow_succ, pow_succ]; ring
        _ < den * 10 ^ (a + 1) := Nat.mul_lt_mul_of_pos_right below (Nat.pow_pos (by decide))

namespace Finite

variable {x : Finite} {exponent : Int} {more d : Nat}

theorem units_pos (nonzero : x.significand ≠ 0) : 0 < x.units :=
  Nat.mul_pos (Nat.pos_of_ne_zero nonzero) (Nat.two_pow_pos _)

/-- The exponent of the leading digit of a double. -/
def leading (x : Finite) : Int := leadingExponent x.units unitsPerOne

/-! ## §2 The neighbours on a grid -/

/-- One step of a grid, in quarter units for the common denominator `gridDen`. -/
def gridPoint (exponent : Int) : Nat := 4 * unitsPerOne * 10 ^ exponent.toNat

/-- The denominator of a grid. -/
def gridDen (exponent : Int) : Nat := 10 ^ (-exponent).toNat

theorem unitsPerOne_pos : 0 < unitsPerOne := by decide +kernel

private theorem gridPoint_pos (exponent : Int) : 0 < gridPoint exponent :=
  Nat.mul_pos (Nat.mul_pos (by decide) unitsPerOne_pos) (Nat.pow_pos (by decide))

private theorem gridDen_pos (exponent : Int) : 0 < gridDen exponent := Nat.pow_pos (by decide)

private theorem onGrid_lower (x : Finite) (exponent : Int) :
    (x.onGrid exponent).lower = 4 * x.units * gridDen exponent / gridPoint exponent := rfl

/-- The neighbours of a double have one more digit than there are steps from the leading digit
down to the grid. -/
theorem lower_bounds (nonzero : x.significand ≠ 0) (grid : exponent = x.leading - more) :
    10 ^ more ≤ (x.onGrid exponent).lower ∧ (x.onGrid exponent).lower < 10 ^ (more + 1) := by
  have exponents : ((more + exponent.toNat : Nat) : Int) - (-exponent).toNat
      = leadingExponent x.units unitsPerOne := by
    show _ = x.leading
    omega
  obtain ⟨least, most⟩ := leadingExponent_spec (units_pos nonzero) unitsPerOne_pos exponents
  rw [onGrid_lower, Nat.le_div_iff_mul_le (gridPoint_pos _),
    Nat.div_lt_iff_lt_mul (gridPoint_pos _)]
  unfold gridPoint gridDen
  constructor
  · calc 10 ^ more * (4 * unitsPerOne * 10 ^ exponent.toNat)
        = 4 * (unitsPerOne * 10 ^ (more + exponent.toNat)) := by rw [pow_add]; ring
      _ ≤ 4 * (x.units * 10 ^ (-exponent).toNat) := Nat.mul_le_mul_left 4 least
      _ = 4 * x.units * 10 ^ (-exponent).toNat := (Nat.mul_assoc ..).symm
  · calc 4 * x.units * 10 ^ (-exponent).toNat = 4 * (x.units * 10 ^ (-exponent).toNat) :=
          Nat.mul_assoc ..
      _ < 4 * (unitsPerOne * 10 ^ (more + exponent.toNat + 1)) :=
          Nat.mul_lt_mul_of_pos_left most (by decide)
      _ = 10 ^ (more + 1) * (4 * unitsPerOne * 10 ^ exponent.toNat) := by
          rw [pow_succ, pow_add, pow_succ]; ring

/-- A multiple of a power of ten next to a double, which is rounded to it. -/
structure Close (x : Finite) (exponent : Int) (d : Nat) : Prop where
  neighbour : d = (x.onGrid exponent).lower ∨ d = (x.onGrid exponent).lower + 1
  rounds : x.roundsHere (d * gridPoint exponent) (gridDen exponent) = true

private theorem GridPoint.eq_of_choice? {p : GridPoint} (h : p.choice? = some d) :
    (d = p.lower ∧ p.lowerRounds = true) ∨ (d = p.lower + 1 ∧ p.upperRounds = true) := by
  unfold choice? at h
  split at h
  · cases h
  · rename_i lower _
    cases h
    exact .inl ⟨rfl, lower⟩
  · rename_i upper
    cases h
    exact .inr ⟨rfl, upper⟩
  · rename_i lower upper
    cases h
    split
    · exact .inl ⟨rfl, lower⟩
    · exact .inr ⟨rfl, upper⟩

private theorem close_of_choice? (h : (x.onGrid exponent).choice? = some d) :
    Close x exponent d := by
  rcases GridPoint.eq_of_choice? h with ⟨rfl, rounds⟩ | ⟨rfl, rounds⟩
  · exact ⟨.inl rfl, rounds⟩
  · exact ⟨.inr rfl, rounds⟩

private theorem onGrid_preferLower (x : Finite) (exponent : Int) :
    (x.onGrid exponent).preferLower = true ↔
      2 * (4 * x.units * gridDen exponent % gridPoint exponent) < gridPoint exponent ∨
      (2 * (4 * x.units * gridDen exponent % gridPoint exponent) = gridPoint exponent ∧
        (x.onGrid exponent).lower % 2 = 0) := by
  simp only [onGrid, gridPoint, gridDen, Nat.pow_eq, Bool.or_eq_true, Bool.and_eq_true,
    decide_eq_true_eq, beq_iff_eq]

/-- The nearest point of a grid is at most half a step away. -/
theorem nearest_half_step (x : Finite) (exponent : Int) :
    ((x.onGrid exponent).nearest = (x.onGrid exponent).lower ∨
      (x.onGrid exponent).nearest = (x.onGrid exponent).lower + 1) ∧
    2 * (4 * x.units * gridDen exponent)
      ≤ 2 * ((x.onGrid exponent).nearest * gridPoint exponent) + gridPoint exponent ∧
    2 * ((x.onGrid exponent).nearest * gridPoint exponent)
      ≤ 2 * (4 * x.units * gridDen exponent) + gridPoint exponent := by
  have small := Nat.mod_lt (4 * x.units * gridDen exponent) (gridPoint_pos exponent)
  have whole := Nat.div_add_mod (4 * x.units * gridDen exponent) (gridPoint exponent)
  have prefers := onGrid_preferLower x exponent
  rw [← onGrid_lower, Nat.mul_comm] at whole
  unfold GridPoint.nearest
  split
  · rename_i lower
    have half := prefers.mp lower
    exact ⟨.inl rfl, by omega, by omega⟩
  · rename_i upper
    have half := mt prefers.mpr upper
    have atUpper := Nat.add_mul (x.onGrid exponent).lower 1 (gridPoint exponent)
    exact ⟨.inr rfl, by omega, by omega⟩

/-- On the grid of seventeen digits the nearest point is always close enough: a step there is
finer than the distances of doubles. -/
theorem close_nearest (nonzero : x.significand ≠ 0) (grid : exponent = x.leading - 16) :
    Close x exponent (x.onGrid exponent).nearest := by
  have below : x.significand < 2 ^ 53 := x.significand_lt
  have step := gridPoint_pos exponent
  obtain ⟨fine, -⟩ := lower_bounds nonzero grid
  obtain ⟨neighbour, low, high⟩ := nearest_half_step x exponent
  refine ⟨neighbour, ?_⟩
  -- now in units of the last place, where a step is small
  have place : 0 < gridDen exponent * 2 ^ x.scale :=
    Nat.mul_pos (gridDen_pos _) (Nat.two_pow_pos _)
  have middle : 4 * x.units * gridDen exponent
      = 4 * (x.significand * (gridDen exponent * 2 ^ x.scale)) := by
    simp only [units, Nat.pow_eq]
    ring
  have significand : x.significand * (gridDen exponent * 2 ^ x.scale)
      ≤ (2 ^ 53 - 1) * (gridDen exponent * 2 ^ x.scale) := Nat.mul_le_mul_right _ (by omega)
  -- the number measures at least 10 ^ 16 steps, more than its significand measures units
  have small : 10 ^ 16 * gridPoint exponent
      ≤ 4 * (x.significand * (gridDen exponent * 2 ^ x.scale)) := by
    rw [← middle, ← Nat.le_div_iff_mul_le step]
    exact fine
  have some : 0 < (x.onGrid exponent).nearest * gridPoint exponent := by omega
  have gap : 2 ^ (x.scale + 1) * gridDen exponent = 2 * (gridDen exponent * 2 ^ x.scale) := by
    rw [pow_succ]; ring
  have power : 2 ^ x.scale * gridDen exponent = gridDen exponent * 2 ^ x.scale := Nat.mul_comm ..
  rw [middle] at low high
  -- so half a step stays within both gaps, also where the gap below is the smaller one
  have strict : (4 * x.units - x.gapBelow) * gridDen exponent
        < (x.onGrid exponent).nearest * gridPoint exponent ∧
      (x.onGrid exponent).nearest * gridPoint exponent
        < (4 * x.units + x.gapAbove) * gridDen exponent := by
    unfold gapBelow gapAbove
    simp only [Nat.pow_eq, Nat.sub_mul, Nat.add_mul, middle, gap]
    split
    · rename_i atPower
      rw [atPower.1] at significand small low high ⊢
      omega
    · omega
  unfold roundsHere
  split
  · simp only [Bool.and_eq_true, decide_eq_true_eq]
    exact ⟨Nat.le_of_lt strict.1, Nat.le_of_lt strict.2⟩
  · simp only [Bool.and_eq_true, decide_eq_true_eq]
    exact strict

/-! ## §3 The shortest decimal -/

/-- The decimal that the search finds on the grid `more` places below the leading digit. -/
def attempt (x : Finite) (more : Nat) : Option Digits :=
  (x.onGrid (x.leading - more)).choice?.map fun digits => ⟨digits, x.leading - more⟩

private theorem shortest_eq (nonzero : x.significand ≠ 0) :
    x.shortest = ((List.range 16).findSome? x.attempt).getD
      ⟨(x.onGrid (x.leading - 16)).nearest, x.leading - 16⟩ := by
  unfold shortest attempt leading
  rw [if_neg nonzero]

/-- The shortest decimal of a double has at most seventeen digits and is next to the double on
its grid. -/
theorem exists_shortest_eq (nonzero : x.significand ≠ 0) :
    ∃ (more : Nat) (digits : Nat), more ≤ 16 ∧ x.shortest = ⟨digits, x.leading - more⟩ ∧
      Close x (x.leading - more) digits := by
  rw [shortest_eq nonzero]
  cases searched : (List.range 16).findSome? x.attempt with
  | none =>
    rw [Option.getD_none]
    exact ⟨16, _, Nat.le_refl 16, by rw [Nat.cast_ofNat], close_nearest nonzero rfl⟩
  | some found =>
    obtain ⟨more, member, tried⟩ := List.exists_of_findSome?_eq_some searched
    obtain ⟨digits, chosen, rfl⟩ := Option.map_eq_some_iff.mp tried
    have within := List.mem_range.mp member
    exact ⟨more, digits, by omega, rfl, close_of_choice? chosen⟩

/-! ## §4 Reading it back -/

private theorem units_lt_of_scale_le (x : Finite) {most : Nat} (le : x.scale ≤ most) :
    x.units < 2 ^ 53 * 2 ^ most :=
  Nat.mul_lt_mul_of_lt_of_le x.significand_lt (two_pow_mono le) (Nat.two_pow_pos _)

/-- The size of doubles. -/
theorem units_lt (x : Finite) : x.units < 2 ^ 53 * 2 ^ 2045 := x.units_lt_of_scale_le x.scale_le

theorem ten_pow_mono {i j : Nat} (le : i ≤ j) : 10 ^ i ≤ 10 ^ j :=
  Nat.pow_le_pow_right (by decide) le

/-- The exponent of the leading digit of any double but zero. -/
theorem leading_bounds (nonzero : x.significand ≠ 0) : -324 ≤ x.leading ∧ x.leading ≤ 308 := by
  have exponents : (x.leading.toNat : Int) - (-x.leading).toNat
      = leadingExponent x.units unitsPerOne := by
    show _ = x.leading
    omega
  obtain ⟨least, most⟩ := leadingExponent_spec (units_pos nonzero) unitsPerOne_pos exponents
  constructor
  · by_contra small
    have none : x.leading.toNat = 0 := by omega
    have some : 10 ^ 325 ≤ 10 ^ (-x.leading).toNat := ten_pow_mono (by omega)
    have unit : unitsPerOne * 10 ^ (0 + 1) ≤ 10 ^ 325 := by decide +kernel
    have scaled := Nat.mul_le_mul (units_pos nonzero) some
    rw [none] at most
    omega
  · by_contra large
    have none : (-x.leading).toNat = 0 := by omega
    have some : 10 ^ 309 ≤ 10 ^ x.leading.toNat := ten_pow_mono (by omega)
    have inside := x.units_lt
    have range : 2 ^ 53 * 2 ^ 2045 ≤ unitsPerOne * 10 ^ 309 := by decide +kernel
    have scaled := Nat.mul_le_mul_left unitsPerOne some
    rw [none, pow_zero, Nat.mul_one] at least
    omega

end Finite

/-- The exponent of the leading digit of a decimal. -/
def Digits.leading (d : Digits) : Int := d.exponent + (Text.ofNat d.digits).length - 1

namespace Finite

variable {x : Finite}

/-- The shortest decimal of a double has its leading digit where the double has it, or one place
above if it is a power of ten. -/
theorem leading_shortest (nonzero : x.significand ≠ 0) :
    x.shortest.leading = x.leading ∨
      (x.shortest.leading = x.leading + 1 ∧ ∃ zeros : Nat,
        x.shortest = ⟨1 * 10 ^ zeros, x.leading + 1 - zeros⟩) := by
  obtain ⟨more, digits, -, shortest, close⟩ := exists_shortest_eq nonzero
  have grid : x.leading - more = x.leading - more := rfl
  obtain ⟨low, high⟩ := lower_bounds nonzero grid
  have neighbour := close.neighbour
  -- the digits reach at least to the place where the grid starts
  have length : more < (Text.ofNat digits).length := by
    by_contra short
    have some := List.length_pos_iff.mpr (Text.ofNat_ne_nil digits)
    have := (Text.length_ofNat_le_iff (by omega)).mp (Nat.le_of_not_lt short)
    omega
  rw [shortest]
  -- one digit more than the grid has places is possible only for the next power of ten
  by_cases power : digits = 10 ^ (more + 1)
  · refine .inr ⟨?_, more + 1, ?_⟩
    · have count : (Text.ofNat digits).length = more + 2 := by
        rw [power, ← Nat.one_mul (10 ^ (more + 1)), Text.ofNat_mul_pow (by decide)]
        rw [List.length_append, Text.zeros, List.length_replicate]
        show 1 + (more + 1) = more + 2
        omega
      simp only [Digits.leading, count]
      omega
    · have place : x.leading - more = x.leading + 1 - (more + 1 : Nat) := by omega
      rw [power, Nat.one_mul, place]
  · refine .inl ?_
    have short : (Text.ofNat digits).length ≤ more + 1 :=
      (Text.length_ofNat_le_iff (by omega)).mpr (by omega)
    simp only [Digits.leading]
    omega

theorem exists_eq_zero (null : x.significand = 0) : ∃ negative, x = zero negative := by
  have scale : x.scale = 0 := x.normal.resolve_right (by rw [null]; decide)
  refine ⟨x.negative, ?_⟩
  cases x
  simp only [zero, mk.injEq, true_and]
  exact ⟨null, scale⟩

theorem shortest_digits_ne_zero (nonzero : x.significand ≠ 0) : x.shortest.digits ≠ 0 := by
  obtain ⟨more, digits, -, shortest, close⟩ := exists_shortest_eq nonzero
  have grid : x.leading - more = x.leading - more := rfl
  have some := (lower_bounds nonzero grid).1
  have positive : 0 < 10 ^ more := Nat.pow_pos (by decide)
  have neighbour := close.neighbour
  rw [shortest]
  show digits ≠ 0
  omega

/-- **The shortest decimal of a double denotes the double.** -/
theorem ofDecimal_shortest (x : Finite) :
    ofDecimal x.negative x.shortest.digits x.shortest.exponent = finite x := by
  by_cases null : x.significand = 0
  · obtain ⟨negative, rfl⟩ := exists_eq_zero null
    rfl
  · obtain ⟨more, digits, -, shortest, close⟩ := exists_shortest_eq null
    obtain ⟨low, high⟩ := leading_bounds null
    have leading : x.leading ≤ x.shortest.leading ∧ x.shortest.leading ≤ x.leading + 1 := by
      rcases leading_shortest null with same | ⟨above, -⟩ <;> omega
    have nonzero := shortest_digits_ne_zero null
    simp only [shortest, Digits.leading] at leading nonzero ⊢
    rw [ofDecimal_eq_round nonzero (by omega) (by omega)]
    apply round_eq_finite (gridDen_pos _)
    have rounds := close.rounds
    have quarters : digits * gridPoint (x.leading - more)
        = 4 * (digits * 10 ^ (x.leading - more).toNat * unitsPerOne) := by
      unfold gridPoint
      ring
    rw [quarters, gridDen] at rounds
    exact rounds

end Finite

end PrefixCalc.Binary64
