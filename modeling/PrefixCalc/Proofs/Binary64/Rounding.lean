import Mathlib.Tactic.Linarith
import Mathlib.Tactic.Ring
import PrefixCalc.Binary64.Shortest
import PrefixCalc.Proofs.Text.Decimal

/-!
# Laws of rounding

A quotient is rounded in two steps: its magnitude fixes the scale, and at that scale the
nearest whole number is the significand. What is proved of a rounded quotient speaks only of
the quotient itself, so a common factor of its two parts does not matter.
-/

namespace PrefixCalc.Binary64

variable {negative : Bool} {num den s k : Nat}

/-! ## §1 The nearest whole number -/

/-- `s` is nearest to `num / den`; the two ends count exactly if `s` is even. -/
def Nearest (s num den : Nat) : Prop :=
  if s % 2 = 0 then 2 * s * den ≤ 2 * num + den ∧ 2 * num ≤ (2 * s + 1) * den
  else 2 * s * den < 2 * num + den ∧ 2 * num < (2 * s + 1) * den

private theorem roundHalfEven_eq_iff (pos : 0 < den) :
    roundHalfEven num den = s ↔ Nearest s num den := by
  have small := Nat.mod_lt num pos
  obtain ⟨q, r, whole, quotient, remainder⟩ :
      ∃ q r, num = den * q + r ∧ num / den = q ∧ num % den = r :=
    ⟨_, _, (Nat.div_add_mod num den).symm, rfl, rfl⟩
  rw [remainder] at small
  simp only [roundHalfEven, quotient, remainder, Nearest, Bool.or_eq_true, Bool.and_eq_true,
    decide_eq_true_eq, beq_iff_eq]
  -- all products are multiples of `den * s` and `den * q`
  have products : 2 * s * den = 2 * (den * s) ∧ (2 * s + 1) * den = 2 * (den * s) + den := by
    constructor <;> ring
  rw [products.1, products.2, whole]
  constructor
  · rintro rfl
    split
    · split <;> omega
    · rw [Nat.mul_add, Nat.mul_one]
      split <;> omega
  · intro nearest
    -- only the two neighbours of the quotient can be nearest
    have notBelow : q ≤ s := by
      by_contra below
      have product : den * (s + 1) ≤ den * q := Nat.mul_le_mul_left den (by omega)
      rw [Nat.mul_add, Nat.mul_one] at product
      split at nearest <;> omega
    have notAbove : s ≤ q + 1 := by
      by_contra above
      have product : den * (q + 2) ≤ den * s := Nat.mul_le_mul_left den (by omega)
      rw [Nat.mul_add] at product
      split at nearest <;> omega
    obtain rfl | rfl : s = q ∨ s = q + 1 := by omega
    · split at nearest <;> split <;> omega
    · rw [Nat.mul_add, Nat.mul_one] at nearest
      split at nearest <;> split <;> omega

private theorem roundHalfEven_mul_right (pos : 0 < k) (num den : Nat) :
    roundHalfEven (num * k) (den * k) = roundHalfEven num den := by
  have twice : 2 * (num % den * k) = 2 * (num % den) * k := by ring
  have less : 2 * (num % den) * k < den * k ↔ 2 * (num % den) < den :=
    Nat.mul_lt_mul_right pos
  have equal : 2 * (num % den) * k = den * k ↔ 2 * (num % den) = den :=
    Nat.mul_left_inj (by omega)
  have equalBool : (2 * (num % den) * k == den * k) = (2 * (num % den) == den) := by
    rw [Bool.eq_iff_iff, beq_iff_eq, beq_iff_eq, equal]
  simp only [roundHalfEven, Nat.mul_div_mul_right _ _ pos, Nat.mul_mod_mul_right, twice, less,
    equalBool]

/-! ## §2 The scale -/

/-- The quotient `num / den` has its leading bit at the place that the scale `k` asks for, or
below it if the scale is the least. -/
structure AtScale (num den k : Nat) : Prop where
  pos : 0 < den
  low : k = 0 ∨ 2 ^ (52 + k) * den ≤ num
  high : num < 2 ^ (53 + k) * den

private theorem AtScale.log2_eq (h : AtScale num den k) : (num / den).log2 - 52 = k := by
  have below : num / den < 2 ^ (53 + k) := (Nat.div_lt_iff_lt_mul h.pos).mpr h.high
  rcases h.low with rfl | low
  · by_cases zero : num / den = 0
    · rw [zero]
      rfl
    · have := (Nat.log2_lt zero).mpr below
      omega
  · have above : 2 ^ (52 + k) ≤ num / den := (Nat.le_div_iff_mul_le h.pos).mpr low
    have nonzero : num / den ≠ 0 := by
      have := Nat.two_pow_pos (52 + k)
      omega
    have upper := (Nat.log2_lt nonzero).mpr below
    have lower := (Nat.le_log2 nonzero).mpr above
    omega

private theorem exists_atScale (pos : 0 < den) (num : Nat) : ∃ k, AtScale num den k := by
  by_cases small : num / den < 2 ^ 53
  · exact ⟨0, pos, .inl rfl, (Nat.div_lt_iff_lt_mul pos).mp small⟩
  · have nonzero : num / den ≠ 0 := by omega
    have lower := (Nat.le_log2 nonzero).mp (Nat.le_refl _)
    have upper := (Nat.log2_lt nonzero).mp (Nat.lt_succ_self _)
    have reached : 53 ≤ (num / den).log2 := (Nat.le_log2 nonzero).mpr (by omega)
    obtain ⟨k, log⟩ : ∃ k, (num / den).log2 = 52 + k := ⟨(num / den).log2 - 52, by omega⟩
    rw [log] at lower upper
    refine ⟨k, pos, .inr ((Nat.le_div_iff_mul_le pos).mp lower), ?_⟩
    have exponent : 53 + k = 52 + k + 1 := by omega
    rw [exponent]
    exact (Nat.div_lt_iff_lt_mul pos).mp upper

/-- The significand of a quotient at a scale. -/
def significandAt (num den k : Nat) : Nat := roundHalfEven num (den * 2 ^ k)

private theorem AtScale.round_eq (h : AtScale num den k) (negative : Bool) :
    round negative num den
      = if significandAt num den k = 2 ^ 53 then ofParts negative (2 ^ 52) (k + 1)
        else ofParts negative (significandAt num den k) k := by
  unfold round
  rw [h.log2_eq]
  rfl

private theorem AtScale.significand_le (h : AtScale num den k) :
    significandAt num den k ≤ 2 ^ 53 := by
  have pos : 0 < den * 2 ^ k := Nat.mul_pos h.pos (Nat.two_pow_pos k)
  have high : num / (den * 2 ^ k) < 2 ^ 53 := by
    rw [Nat.div_lt_iff_lt_mul pos]
    calc num < 2 ^ (53 + k) * den := h.high
      _ = 2 ^ 53 * (den * 2 ^ k) := by rw [pow_add]; ring
  have near := roundHalfEven_le_div_add_one num (den * 2 ^ k)
  unfold significandAt
  omega

private theorem AtScale.le_significand (h : AtScale num den k) :
    k = 0 ∨ 2 ^ 52 ≤ significandAt num den k := by
  have pos : 0 < den * 2 ^ k := Nat.mul_pos h.pos (Nat.two_pow_pos k)
  refine h.low.imp_right fun low => ?_
  apply Nat.le_trans _ (div_le_roundHalfEven num (den * 2 ^ k))
  rw [Nat.le_div_iff_mul_le pos]
  calc 2 ^ 52 * (den * 2 ^ k) = 2 ^ (52 + k) * den := by rw [pow_add]; ring
    _ ≤ num := low

private theorem significandAt_eq_iff (pos : 0 < den) :
    significandAt num den k = s ↔ Nearest s num (den * 2 ^ k) :=
  roundHalfEven_eq_iff (Nat.mul_pos pos (Nat.two_pow_pos k))

private theorem round_mul_right (pos : 0 < k) (negative : Bool) (num den : Nat) :
    round negative (num * k) (den * k) = round negative num den := by
  have shared : ∀ scale, den * k * 2 ^ scale = den * 2 ^ scale * k := fun scale => by ring
  unfold round
  simp only [Nat.mul_div_mul_right _ _ pos, Nat.pow_eq, shared, roundHalfEven_mul_right pos]

/-- Only the quotient matters. -/
theorem round_congr {num' den' : Nat} (pos : 0 < den) (pos' : 0 < den')
    (same : num * den' = num' * den) (negative : Bool) :
    round negative num den = round negative num' den' := by
  rw [← round_mul_right pos' negative num den, ← round_mul_right pos negative num' den', same,
    Nat.mul_comm den den']

/-! ## §3 The finite range -/

private theorem ofParts_eq_finite (below : s < 2 ^ 53) (normal : k = 0 ∨ 2 ^ 52 ≤ s)
    (le : k ≤ 2045) :
    ofParts negative s k = finite ⟨negative, s, k, below, normal, le⟩ :=
  dif_pos ⟨below, normal, le⟩

private theorem ofParts_eq_infinite (above : 2045 < k) :
    ofParts negative s k = infinite negative := by
  apply dif_neg
  rintro ⟨-, -, le⟩
  omega

/-- Half a unit of the last place behind the largest double, in least units. -/
def infiniteFrom : Nat := (2 ^ 54 - 1) * 2 ^ 2044

theorem two_pow_mono {i j : Nat} (le : i ≤ j) : 2 ^ i ≤ 2 ^ j := Nat.pow_le_pow_right (by decide) le

private theorem pow_le_infiniteFrom (below : k < 2045) : 2 ^ (53 + k) ≤ infiniteFrom := by
  rw [pow_add, infiniteFrom]
  exact Nat.mul_le_mul (by decide) (two_pow_mono (by omega))

private theorem infiniteFrom_le_pow (above : 2045 < k) : infiniteFrom ≤ 2 ^ (52 + k) := by
  obtain ⟨more, rfl⟩ : ∃ more, k = 2 + more := ⟨k - 2, by omega⟩
  rw [← Nat.add_assoc, pow_add, infiniteFrom]
  exact Nat.mul_le_mul (by decide) (two_pow_mono (by omega))

/-- At the largest scale the significand is rounded up to the next power of two from there on. -/
theorem AtScale.carries_iff (h : AtScale num den 2045) :
    significandAt num den 2045 = 2 ^ 53 ↔ infiniteFrom * den ≤ num := by
  have double : ∀ e, den * 2 ^ (e + 1) = 2 * (2 ^ e * den) := fun e => by rw [pow_succ]; ring
  have place : infiniteFrom * den = (2 ^ 54 - 1) * (2 ^ 2044 * den) := Nat.mul_assoc ..
  have power : 2 ^ (53 + 2045) * den = 2 ^ 54 * (2 ^ 2044 * den) := by
    rw [← Nat.mul_assoc, ← pow_add]
  have high := h.high
  rw [power] at high
  rw [significandAt_eq_iff h.pos, Nearest, if_pos (by decide), double 2044, place]
  generalize 2 ^ 2044 * den = half at high
  omega

/-- A rounded quotient is finite exactly below that place. -/
theorem exists_round_eq_finite_iff (pos : 0 < den) :
    (∃ x, round negative num den = finite x) ↔ num < infiniteFrom * den := by
  obtain ⟨k, h⟩ := exists_atScale pos num
  have le := h.significand_le
  have normal := h.le_significand
  rw [h.round_eq]
  rcases Nat.lt_trichotomy k 2045 with below | rfl | above
  · -- every significand fits, also one that is rounded up
    have inside : num < infiniteFrom * den := by
      apply Nat.lt_of_lt_of_le h.high
      exact Nat.mul_le_mul_right den (pow_le_infiniteFrom below)
    refine iff_of_true ?_ inside
    split
    · exact ⟨_, ofParts_eq_finite (by decide) (.inr (Nat.le_refl _)) (by omega)⟩
    · exact ⟨_, ofParts_eq_finite (by omega) normal (by omega)⟩
  · -- at the last scale it depends on whether the significand is rounded up to the next power
    by_cases carried : significandAt num den 2045 = 2 ^ 53
    · have outside := h.carries_iff.mp carried
      rw [if_pos carried, ofParts_eq_infinite (by decide)]
      exact iff_of_false (fun ⟨x, same⟩ => nomatch same) (by omega)
    · have inside := mt h.carries_iff.mpr carried
      rw [if_neg carried, ofParts_eq_finite (by omega) normal (by decide)]
      exact iff_of_true ⟨_, rfl⟩ (by omega)
  · -- beyond it nothing fits
    have low : 2 ^ (52 + k) * den ≤ num := h.low.resolve_left (by omega)
    have outside : infiniteFrom * den ≤ num := by
      apply Nat.le_trans _ low
      exact Nat.mul_le_mul_right den (infiniteFrom_le_pow above)
    rw [ofParts_eq_infinite (by omega), ofParts_eq_infinite (by omega), ite_self]
    exact iff_of_false (fun ⟨x, same⟩ => nomatch same) (by omega)

/-! ## §4 The neighbourhood of a double -/

theorem AtScale.round_eq_finite {x : Finite} (h : AtScale num den x.scale)
    (nearest : Nearest x.significand num (den * 2 ^ x.scale)) :
    round x.negative num den = finite x := by
  have below : x.significand < 2 ^ 53 := x.significand_lt
  have significand := (significandAt_eq_iff h.pos).mpr nearest
  rw [h.round_eq, significand, if_neg (Nat.ne_of_lt below)]
  exact ofParts_eq_finite below x.normal x.scale_le

private theorem round_eq_finite_of_regular {x : Finite} (pos : 0 < den)
    (regular : ¬ (x.significand = 2 ^ 52 ∧ 0 < x.scale))
    (near : x.roundsHere (4 * num) den = true) : round x.negative num den = finite x := by
  have below := x.significand_lt
  have normal := x.normal
  have unit : 0 < den * 2 ^ x.scale := Nat.mul_pos pos (Nat.two_pow_pos _)
  -- everything is counted in halves of the unit of the last place
  have middle : 4 * (x.significand * 2 ^ x.scale) * den
      = 4 * (x.significand * (den * 2 ^ x.scale)) := by ring
  have gap : 2 ^ (x.scale + 1) * den = 2 * (den * 2 ^ x.scale) := by rw [pow_succ]; ring
  have nearest : Nearest x.significand num (den * 2 ^ x.scale) := by
    have low : 2 * x.significand * (den * 2 ^ x.scale)
        = 2 * (x.significand * (den * 2 ^ x.scale)) := Nat.mul_assoc ..
    have high : (2 * x.significand + 1) * (den * 2 ^ x.scale)
        = 2 * (x.significand * (den * 2 ^ x.scale)) + den * 2 ^ x.scale := by ring
    simp only [Finite.roundsHere, Finite.units, Finite.gapBelow, Finite.gapAbove, Nat.pow_eq,
      if_neg regular, Nat.sub_mul, Nat.add_mul, middle, gap] at near
    rw [Nearest, low, high]
    split at near
    all_goals
      simp only [Bool.and_eq_true, decide_eq_true_eq] at near
      split <;> omega
  -- the neighbourhood of a double that is no power of two lies within its scale
  have unpack := nearest
  rw [Nearest, Nat.mul_assoc, Nat.add_mul, Nat.mul_assoc] at unpack
  refine AtScale.round_eq_finite ⟨pos, ?_, ?_⟩ nearest
  · refine Decidable.or_iff_not_imp_left.mpr fun scaled => ?_
    -- a normal significand that is no power of two is one above it, which leaves room below
    have least : 2 ^ 52 + 1 ≤ x.significand := by
      have : 2 ^ 52 ≤ x.significand := normal.resolve_left scaled
      omega
    have product := Nat.mul_le_mul_right (den * 2 ^ x.scale) least
    rw [Nat.add_mul] at product
    have leading : 2 ^ (52 + x.scale) * den = 2 ^ 52 * (den * 2 ^ x.scale) := by
      rw [pow_add]; ring
    rw [leading]
    split at unpack <;> omega
  · -- and below the next power there is room for the half above
    have most : x.significand + 1 ≤ 2 ^ 53 := below
    have product := Nat.mul_le_mul_right (den * 2 ^ x.scale) most
    rw [Nat.add_mul] at product
    have leading : 2 ^ (53 + x.scale) * den = 2 ^ 53 * (den * 2 ^ x.scale) := by
      rw [pow_add]; ring
    rw [leading]
    split at unpack <;> omega

/-- Just below a power of two the neighbours are half as far, so a quotient may be rounded up
to the power at the scale below. -/
theorem round_eq_finite_of_power {x : Finite} (pos : 0 < den) (power : x.significand = 2 ^ 52)
    (notLeast : 0 < x.scale) (near : x.roundsHere (4 * num) den = true) :
    round x.negative num den = finite x := by
  obtain ⟨lower, scale⟩ : ∃ lower, x.scale = lower + 1 := ⟨x.scale - 1, by omega⟩
  have unit : 0 < den * 2 ^ lower := Nat.mul_pos pos (Nat.two_pow_pos _)
  have double : den * 2 ^ (lower + 1) = 2 * (den * 2 ^ lower) := by rw [pow_succ]; ring
  -- everything is counted in quarters of the unit of the last place
  have bounds : (2 ^ 54 - 1) * 2 * (den * 2 ^ lower) ≤ 4 * num ∧
      4 * num ≤ (2 ^ 54 + 2) * 2 * (den * 2 ^ lower) := by
    have middle : 4 * (2 ^ 52 * 2 ^ (lower + 1)) * den = 2 ^ 54 * 2 * (den * 2 ^ lower) := by
      rw [pow_succ]; ring
    have below : 2 ^ (lower + 1) * den = 2 * (den * 2 ^ lower) := by rw [pow_succ]; ring
    have above : 2 ^ (lower + 1 + 1) * den = 4 * (den * 2 ^ lower) := by
      rw [pow_succ, pow_succ]; ring
    have even : 2 ^ 52 % 2 = 0 := by decide
    simp only [Finite.roundsHere, Finite.units, Finite.gapBelow, Finite.gapAbove, Nat.pow_eq,
      power, scale, even, Nat.succ_pos, and_self, if_true, Nat.sub_mul, Nat.add_mul, middle, below,
      above, Bool.and_eq_true, decide_eq_true_eq] at near
    omega
  -- the quotient may lie on either side of the power, and the scales differ there
  by_cases inside : 2 ^ 52 * (den * 2 ^ (lower + 1)) ≤ num
  · -- at the power or above it
    have atScale : AtScale num den x.scale := by
      refine ⟨pos, .inr ?_, ?_⟩
      · calc 2 ^ (52 + x.scale) * den = 2 ^ 52 * (den * 2 ^ (lower + 1)) := by
              rw [scale, pow_add]; ring
          _ ≤ num := inside
      · calc num < 2 ^ 54 * (den * 2 ^ lower) := by omega
          _ = 2 ^ (53 + x.scale) * den := by rw [scale, pow_add, pow_succ]; ring
    refine atScale.round_eq_finite ?_
    rw [Nearest, power, if_pos (by decide), scale, double]
    omega
  · -- below it, where rounding carries
    have atScale : AtScale num den lower := by
      refine ⟨pos, .inr ?_, ?_⟩
      · calc 2 ^ (52 + lower) * den = 2 ^ 52 * (den * 2 ^ lower) := by rw [pow_add]; ring
          _ ≤ num := by omega
      · calc num < 2 ^ 53 * (den * 2 ^ lower) := by omega
          _ = 2 ^ (53 + lower) * den := by rw [pow_add]; ring
    have carried : significandAt num den lower = 2 ^ 53 := by
      rw [significandAt_eq_iff pos, Nearest, if_pos (by decide)]
      omega
    rw [atScale.round_eq, if_pos carried, ← scale, ← power]
    exact ofParts_eq_finite x.significand_lt x.normal x.scale_le

/-- **Rounding to a double**: what lies in the neighbourhood of a double is rounded to it. -/
theorem round_eq_finite {x : Finite} (pos : 0 < den)
    (near : x.roundsHere (4 * num) den = true) : round x.negative num den = finite x := by
  by_cases power : x.significand = 2 ^ 52 ∧ 0 < x.scale
  · exact round_eq_finite_of_power pos power.1 power.2 near
  · exact round_eq_finite_of_regular pos power near

/-! ## §5 Decimals -/

/-- A decimal whose leading digit is in the range of doubles is rounded as a quotient. -/
theorem ofDecimal_eq_round {significand : Nat} {exponent : Int} (nonzero : significand ≠ 0)
    (high : exponent + (Text.ofNat significand).length ≤ 310)
    (low : -330 ≤ exponent + (Text.ofNat significand).length) :
    ofDecimal negative significand exponent
      = round negative (significand * 10 ^ exponent.toNat * unitsPerOne)
          (10 ^ (-exponent).toNat) := by
  have notHigh : ¬ 310 < exponent + (Text.ofNat significand).length := by omega
  have notLow : ¬ exponent + (Text.ofNat significand).length < -330 := by omega
  simp only [ofDecimal, if_neg nonzero, if_neg notHigh, if_neg notLow, Nat.pow_eq]
  split
  · have none : (-exponent).toNat = 0 := by omega
    rw [none, pow_zero]
  · have none : exponent.toNat = 0 := by omega
    rw [none, pow_zero, Nat.mul_one]

/-- **Equal decimals** are the same double, however many zeros their digits end in. -/
theorem ofDecimal_mul_pow (negative : Bool) (significand : Nat) (exponent : Int) (k : Nat) :
    ofDecimal negative (significand * 10 ^ k) (exponent - k)
      = ofDecimal negative significand exponent := by
  by_cases zero : significand = 0
  · rw [zero, Nat.zero_mul]
    simp [ofDecimal]
  · have pos : 0 < significand := Nat.pos_of_ne_zero zero
    have nonzero : significand * 10 ^ k ≠ 0 :=
      Nat.mul_ne_zero zero (Nat.ne_of_gt (Nat.pow_pos (by decide)))
    -- both have their leading digit at the same place
    have leading : exponent - k + (Text.ofNat (significand * 10 ^ k)).length
        = exponent + (Text.ofNat significand).length := by
      rw [Text.ofNat_mul_pow pos, List.length_append, Text.zeros, List.length_replicate]
      omega
    by_cases high : 310 < exponent + (Text.ofNat significand).length
    · simp [ofDecimal, zero, leading, high]
    · by_cases low : exponent + (Text.ofNat significand).length < -330
      · simp [ofDecimal, zero, leading, high, low]
      · rw [ofDecimal_eq_round nonzero (by omega) (by omega),
          ofDecimal_eq_round zero (by omega) (by omega)]
        apply round_congr (Nat.pow_pos (by decide)) (Nat.pow_pos (by decide))
        have exponents : k + (exponent - k).toNat + (-exponent).toNat
            = exponent.toNat + (-(exponent - k)).toNat := by omega
        have powers := congrArg (10 ^ ·) exponents
        simp only [pow_add] at powers
        calc significand * 10 ^ k * 10 ^ (exponent - k).toNat * unitsPerOne
              * 10 ^ (-exponent).toNat
            = significand * unitsPerOne
              * (10 ^ k * 10 ^ (exponent - k).toNat * 10 ^ (-exponent).toNat) := by ring
          _ = significand * unitsPerOne
              * (10 ^ exponent.toNat * 10 ^ (-(exponent - k)).toNat) := by rw [powers]
          _ = significand * 10 ^ exponent.toNat * unitsPerOne
              * 10 ^ (-(exponent - k)).toNat := by ring

end PrefixCalc.Binary64
