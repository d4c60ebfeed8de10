/-!
# Code points

What a text is made of. Nearly all code points are characters. The others are the halves
of surrogate pairs: no character by themselves, but an escape can spell one, and two
texts that differ in one are different. Code points are ordered by their numbers.
-/

namespace PrefixCalc

/-- A character, or half of a surrogate pair. The halves are counted from the first one. -/
inductive CodePoint where
  | char (c : Char)
  | surrogate (half : Fin 0x800)
  deriving DecidableEq, Repr

namespace CodePoint

instance : Coe Char CodePoint := ⟨char⟩

/-! ## §1 Numbers -/

/-- The number of a code point; the halves of surrogate pairs begin at `0xD800`. -/
def toNat : CodePoint → Nat
  | char c => c.toNat
  | surrogate half => 0xD800 + half

/-- The code point of a number; a number behind the last one is read as zero. -/
def ofNat (n : Nat) : CodePoint :=
  if h : 0xD800 ≤ n ∧ n < 0xE000 then surrogate ⟨n - 0xD800, by omega⟩
  else char (Char.ofNat n)

/-- Every code point is that of its number. -/
theorem ofNat_toNat (c : CodePoint) : ofNat c.toNat = c := by
  cases c with
  | surrogate half =>
    have bounds : 0xD800 ≤ 0xD800 + half.val ∧ 0xD800 + half.val < 0xE000 := by omega
    rw [toNat, ofNat, dif_pos bounds]
    exact congrArg surrogate (Fin.ext (Nat.add_sub_cancel_left ..))
  | char c =>
    have valid : ¬(0xD800 ≤ c.toNat ∧ c.toNat < 0xE000) := by
      have := c.valid
      simp only [UInt32.isValidChar, Nat.isValidChar] at this
      simp only [Char.toNat]
      omega
    simp only [toNat, ofNat, dif_neg valid, Char.ofNat_toNat]

/-! ## §2 Order -/

instance : LE CodePoint := ⟨fun a b => a.toNat ≤ b.toNat⟩

instance : LT CodePoint := ⟨fun a b => a.toNat < b.toNat⟩

instance (a b : CodePoint) : Decidable (a ≤ b) :=
  inferInstanceAs (Decidable (a.toNat ≤ b.toNat))

instance (a b : CodePoint) : Decidable (a < b) :=
  inferInstanceAs (Decidable (a.toNat < b.toNat))

/-! ## §3 Characters -/

/-- The character that shows a code point; half of a surrogate pair is shown as the
replacement character. -/
def toChar : CodePoint → Char
  | char c => c
  | surrogate _ => '\uFFFD'

end CodePoint

end PrefixCalc
