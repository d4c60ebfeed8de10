import Mathlib.Data.List.Induction
import Mathlib.Tactic.Positivity
import Mathlib.Tactic.Ring
import PrefixCalc.Limit
import PrefixCalc.Proofs.Text.Run

/-!
# Decimal digits

The digits in which a whole number is written are read back as that number. How many there
are tells its size, and a power of ten as a factor only puts zeros behind them.
-/

namespace PrefixCalc.Text

variable {n k : Nat} {digits : Text}

/-! ## §1 Reading digits back -/

theorem digitsValue_append (front back : Text) :
    digitsValue (front ++ back) = digitsValue front * 10 ^ back.length + digitsValue back := by
  induction back using List.reverseRecOn with
  | nil => simp [digitsValue]
  | append_singleton back c ih =>
    have last : ∀ text : Text,
        digitsValue (text ++ [c]) = 10 * digitsValue text + (c.toNat - 48) := by
      intro text
      simp only [digitsValue, List.foldl_append, List.foldl_cons, List.foldl_nil]
    rw [← List.append_assoc, last, last, ih, List.length_append, List.length_singleton, pow_succ]
    ring

theorem digitsValue_zeros (count : Nat) : digitsValue (zeros count) = 0 := by
  induction count with
  | zero => rfl
  | succ count ih =>
    rw [zeros, List.replicate_succ', digitsValue_append]
    show digitsValue (zeros count) * 10 ^ 1 + 0 = 0
    rw [ih, Nat.zero_mul]

theorem digitsValue_ofNat (n : Nat) : digitsValue (ofNat n) = n := by
  -- characters and the code points that they are have the same numbers
  have same : ∀ (chars : List Char) (start : Nat),
      (chars.map CodePoint.char).foldl (fun value digit => 10 * value + (digit.toNat - 48)) start
        = Nat.ofDigitChars 10 chars start := by
    intro chars start
    rw [Nat.ofDigitChars_eq_foldl, List.foldl_map]
    rfl
  rw [digitsValue, ofNat, same]
  exact Nat.ofDigitChars_ten_toDigits

theorem digitsValue_lt (all : ∀ c ∈ digits, isDigit c = true) :
    digitsValue digits < 10 ^ digits.length := by
  induction digits using List.reverseRecOn with
  | nil => decide
  | append_singleton front c ih =>
    have last := (isDigit_iff c).mp (all c (by simp))
    have before := ih fun d member => all d (List.mem_append_left [c] member)
    have one : digitsValue [c] = c.toNat - 48 := by simp [digitsValue]
    rw [digitsValue_append, one, List.length_append, List.length_singleton, pow_one, pow_succ]
    omega

theorem isDigit_of_mem_ofNat {c : CodePoint} (h : c ∈ ofNat n) : isDigit c = true := by
  obtain ⟨char, member, rfl⟩ := List.mem_map.mp h
  have digit := Nat.isDigit_of_mem_toDigits (by decide) (by decide) member
  simp only [Char.isDigit, Bool.and_eq_true, decide_eq_true_eq] at digit
  exact (isDigit_iff _).mpr digit

theorem isDigit_of_mem_zeros {c : CodePoint} {count : Nat} (h : c ∈ zeros count) :
    isDigit c = true := by
  rw [List.eq_of_mem_replicate h]
  rfl

/-! ## §2 How many digits there are -/

theorem ofNat_ne_nil (n : Nat) : ofNat n ≠ [] := by
  intro none
  exact Nat.toDigits_ne_nil (List.map_eq_nil_iff.mp none)

theorem ofInt_ne_nil (i : Int) : ofInt i ≠ [] := by
  cases i with
  | ofNat n => exact ofNat_ne_nil n
  | negSucc n => exact List.cons_ne_nil _ _

theorem length_ofNat_le_iff (pos : 0 < k) : (ofNat n).length ≤ k ↔ n < 10 ^ k := by
  rw [ofNat, List.length_map]
  exact Nat.length_toDigits_le_iff (by decide) pos

private theorem lt_length_ofNat_iff (pos : 0 < k) : k < (ofNat n).length ↔ 10 ^ k ≤ n := by
  have within := length_ofNat_le_iff (n := n) pos
  omega

theorem lt_pow_length_ofNat (n : Nat) : n < 10 ^ (ofNat n).length :=
  (length_ofNat_le_iff (List.length_pos_iff.mpr (ofNat_ne_nil n))).mp (Nat.le_refl _)

theorem pow_pred_length_ofNat_le (pos : 0 < n) : 10 ^ ((ofNat n).length - 1) ≤ n := by
  by_cases single : (ofNat n).length = 1
  · rw [single]
    exact pos
  · have some := List.length_pos_iff.mpr (ofNat_ne_nil n)
    exact (lt_length_ofNat_iff (by omega)).mp (by omega)

/-! ## §3 Writing within the limit -/

theorem decimal_of_short {i : Int} (short : (ofNat i.natAbs).length ≤ Limit.maxDigits) :
    decimal i = .ok (ofInt i) := by
  -- for any limit, so that no large power of ten is computed
  have within : ∀ limit, 0 < limit → (ofNat i.natAbs).length ≤ limit →
      i.natAbs < Nat.pow 10 limit := fun limit pos le => (length_ofNat_le_iff pos).mp le
  exact if_pos (within _ (by decide) short)

theorem decimal_of_long {i : Int} (long : Limit.maxDigits < (ofNat i.natAbs).length) :
    decimal i = .error .writtenDigits := by
  have outside : ∀ limit, 0 < limit → limit < (ofNat i.natAbs).length →
      ¬ i.natAbs < Nat.pow 10 limit :=
    fun limit pos lt within => Nat.not_le_of_lt lt ((length_ofNat_le_iff pos).mpr within)
  exact if_neg (outside _ (by decide) long)

/-- What is written is the number, whatever its length. -/
theorem eq_ofInt_of_decimal {i : Int} {text : Text} (written : decimal i = .ok text) :
    text = ofInt i := by
  rcases Nat.lt_or_ge Limit.maxDigits (ofNat i.natAbs).length with long | short
  · rw [decimal_of_long long] at written
    cases written
  · rw [decimal_of_short short] at written
    cases written
    rfl

/-! ## §4 Zeros behind the digits -/

private theorem ofNat_mul_ten (pos : 0 < n) : ofNat (n * 10) = ofNat n ++ zeros 1 := by
  have digits := Nat.toDigits_append_toDigits (b := 10) (d := 0) (by decide) pos (by decide)
  rw [Nat.add_zero, Nat.mul_comm] at digits
  rw [ofNat, ← digits, List.map_append]
  rfl

theorem ofNat_mul_pow (pos : 0 < n) (k : Nat) : ofNat (n * 10 ^ k) = ofNat n ++ zeros k := by
  induction k with
  | zero => simp [zeros]
  | succ k ih =>
    rw [pow_succ, ← Nat.mul_assoc, ofNat_mul_ten (by positivity), ih, List.append_assoc]
    simp only [zeros, List.replicate_append_replicate]

/-- The digits without the zeros at their end. -/
def significantDigits (n : Nat) : Text :=
  ((ofNat n).reverse.dropWhile (· = CodePoint.char '0')).reverse

/-- Leaving out the zeros at the end divides by a power of ten. -/
theorem exists_significantDigits_eq (pos : 0 < n) :
    ∃ m zeros, n = m * 10 ^ zeros ∧ 0 < m ∧ significantDigits n = ofNat m := by
  induction n using Nat.strongRecOn with
  | ind n ih =>
    by_cases whole : n % 10 = 0
    · -- the last digit is a zero, so it goes and the number is a tenth
      obtain ⟨tenth, rfl⟩ : ∃ tenth, n = tenth * 10 := ⟨n / 10, by omega⟩
      obtain ⟨m, zeros, split, mPos, digits⟩ := ih tenth (by omega) (by omega)
      refine ⟨m, zeros + 1, by rw [pow_succ, ← Nat.mul_assoc, ← split], mPos, ?_⟩
      rw [← digits, significantDigits, ofNat_mul_ten (by omega), List.reverse_append]
      rfl
    · refine ⟨n, 0, by simp, pos, ?_⟩
      have last : ∃ front c, ofNat n = front ++ [c] ∧ c ≠ .char '0' := by
        refine ⟨(ofNat n).dropLast, (ofNat n).getLast (ofNat_ne_nil n),
          (List.dropLast_concat_getLast _).symm, fun zero => whole ?_⟩
        have value := digitsValue_ofNat n
        rw [← List.dropLast_concat_getLast (ofNat_ne_nil n), zero, digitsValue_append] at value
        rw [← value]
        show (digitsValue _ * 10 ^ 1 + 0) % 10 = 0
        omega
      obtain ⟨front, c, split, notZero⟩ := last
      simp [significantDigits, split, notZero]

end PrefixCalc.Text
