import PrefixCalc.Proofs.Value.Canonical

/-!
# Equality of values

Arrays are compared by their canonical forms and scalars directly, but it comes to the same: two
arrays are equal exactly if they have the same length and their elements are equal in pairs, and
two scalars if they are the same number, the same string or the same truth value. So equality is
an equivalence on the values that are plain.
-/

namespace PrefixCalc

open Text

variable {v w : Value}

/-! ## §1 Exact numbers -/

/-- What a number is exactly: an infinity by its sign, and every other number in least units. -/
def Number.amount? : Number → Option (Int ⊕ Bool)
  | int n => some (.inl (n * Binary64.unitsPerOne))
  | float (.finite x) => some (.inl x.signedUnits)
  | float (.infinite negative) => some (.inr negative)
  | float .nan => none

private theorem Number.amount_int_ne_none (n : Int) : (int n).amount? ≠ none := by
  rintro ⟨⟩

private theorem Binary64.isInt_iff_amount (x : Binary64) (n : Int) :
    x.isInt n = true ↔ (Number.float x).amount? = (Number.int n).amount? := by
  cases x with
  | finite x =>
    rw [isInt, beq_iff_eq, Number.amount?, Number.amount?, Option.some_inj, Sum.inl.injEq]
  | infinite negative | nan => exact iff_of_false Bool.false_ne_true (by rintro ⟨⟩)

private theorem Binary64.sameNumber_iff_amount (x y : Binary64) :
    x.sameNumber y = true ↔
      (Number.float x).amount? ≠ none ∧ (Number.float x).amount? = (Number.float y).amount? := by
  cases x with
  | nan =>
    exact iff_of_false (by cases y <;> exact Bool.false_ne_true) fun alike => alike.1 rfl
  | finite x =>
    rw [and_iff_right (by rintro ⟨⟩)]
    cases y with
    | finite y =>
      rw [sameNumber, beq_iff_eq, Number.amount?, Number.amount?, Option.some_inj, Sum.inl.injEq]
    | infinite negative | nan => exact iff_of_false Bool.false_ne_true (by rintro ⟨⟩)
  | infinite negative =>
    rw [and_iff_right (by rintro ⟨⟩)]
    cases y with
    | infinite negative' =>
      rw [sameNumber, beq_iff_eq, Number.amount?, Number.amount?, Option.some_inj, Sum.inr.injEq]
    | finite y | nan => exact iff_of_false Bool.false_ne_true (by rintro ⟨⟩)

/-- Two numbers are equal if they are exactly the same. -/
theorem Number.same_iff (m n : Number) :
    m.same n = true ↔ m.amount? ≠ none ∧ m.amount? = n.amount? := by
  cases m with
  | int i =>
    rw [and_iff_right (amount_int_ne_none i)]
    cases n with
    | int j =>
      have one : (Binary64.unitsPerOne : Int) ≠ 0 := by
        have := Binary64.Finite.unitsPerOne_pos
        omega
      rw [same, beq_iff_eq, amount?, amount?, Option.some_inj, Sum.inl.injEq, mul_left_inj' one]
    | float y => exact (y.isInt_iff_amount i).trans eq_comm
  | float x =>
    cases n with
    | int j =>
      refine (x.isInt_iff_amount j).trans (and_iff_right_of_imp fun alike => ?_).symm
      rw [alike]
      exact amount_int_ne_none j
    | float y => exact x.sameNumber_iff_amount y

namespace Scalar

/-- Scalars that are equal: numbers that are exactly the same, and otherwise the same scalars. -/
inductive Equal : Scalar → Scalar → Prop where
  | number (m n : Number) (number : m.amount? ≠ none) (same : m.amount? = n.amount?) :
      Equal m.toScalar n.toScalar
  | string (s : Text) : Equal (.string s) (.string s)
  | boolean (b : Bool) : Equal (.boolean b) (.boolean b)

private theorem same_toScalar (m n : Number) : m.toScalar.same n.toScalar = m.same n := by
  cases m <;> cases n <;> rfl

private theorem equal_of_numbers {m n : Number} (same : m.toScalar.same n.toScalar = true) :
    m.toScalar.Equal n.toScalar := by
  rw [same_toScalar] at same
  obtain ⟨number, amount⟩ := (m.same_iff n).mp same
  exact .number m n number amount

private theorem same_iff_equal (a b : Scalar) : a.same b = true ↔ a.Equal b := by
  constructor
  · intro same
    -- kind by kind: only numbers are compared across two kinds
    cases a with
    | int i =>
      cases b with
      | int j => exact equal_of_numbers (m := .int i) (n := .int j) same
      | float y => exact equal_of_numbers (m := .int i) (n := .float y) same
      | string t | boolean truth => cases same
    | float x =>
      cases b with
      | int j => exact equal_of_numbers (m := .float x) (n := .int j) same
      | float y => exact equal_of_numbers (m := .float x) (n := .float y) same
      | string t | boolean truth => cases same
    | string s =>
      cases b with
      | string t =>
        obtain rfl : s = t := by simpa [Scalar.same, number?] using same
        exact .string s
      | int j | float y | boolean truth => cases same
    | boolean truth =>
      cases b with
      | boolean truth' =>
        obtain rfl : truth = truth' := by simpa [Scalar.same, number?] using same
        exact .boolean truth
      | int j | float y | string t => cases same
  · rintro (⟨m, n, number, amount⟩ | s | truth)
    · rw [same_toScalar]
      exact (m.same_iff n).mpr ⟨number, amount⟩
    · exact beq_iff_eq.mpr rfl
    · exact beq_iff_eq.mpr rfl

end Scalar

/-! ## §2 Equal forms -/

private theorem Scalar.canonical_reduced (s : Scalar) : s.reduced.canonical = s.canonical := by
  cases s with
  | int n | string x | boolean b => rfl
  | float x =>
    cases whole : x.toInt? with
    | some n =>
      rw [reduced_float_of_toInt? whole, canonical_float_of_toInt? whole]
      rfl
    | none => rw [reduced_float_of_fractional whole]

/-- Elements are written alike if each one is. -/
theorem Value.writeAll_map {leaf : Scalar → Except Limit Text} {enclose : List Text → Text}
    {f : Value → Value} {elements : List Value}
    (alike : ∀ v ∈ elements, (f v).write leaf enclose = v.write leaf enclose) :
    writeAll leaf enclose (elements.map f) = writeAll leaf enclose elements := by
  induction elements with
  | nil => rfl
  | cons v elements ih =>
    obtain ⟨first, others⟩ := List.forall_mem_cons.mp alike
    rw [List.map_cons, writeAll, writeAll, first, ih others]

/-- Reducing a value does not change its canonical form. -/
theorem Value.Plain.canonical_reduced (plain : v.Plain) : v.reduced.canonical = v.canonical := by
  induction plain with
  | scalar s plain =>
    rw [Value.reduced_scalar]
    exact s.canonical_reduced
  | array elements plain ih =>
    rw [Value.reduced_array, Value.canonical, Value.write, Value.write, Value.writeAll_map ih]

/-- Equality of plain values is decided, and it is that of the reduced values. -/
theorem Value.Plain.exists_same (plain : v.Plain) (plain' : w.Plain) :
    ∃ answer, v.same w = .ok answer ∧ (answer = true ↔ v.reduced = w.reduced) := by
  have same := plain
  have same' := plain'
  cases plain with
  -- Scalars are compared as such; a scalar and an array are never the same.
  | scalar s plain =>
    rw [Value.reduced_scalar]
    cases plain' with
    | scalar t plain' =>
      refine ⟨s.same t, rfl, ?_⟩
      rw [Value.reduced_scalar, Value.scalar.injEq]
      apply Scalar.same_iff
      rintro rfl
      exact plain rfl
    | array others plain' =>
      rw [Value.reduced_array]
      exact ⟨false, rfl, iff_of_false nofun nofun⟩
  | array elements plain =>
    cases plain' with
    | scalar t plain' =>
      rw [Value.reduced_array, Value.reduced_scalar]
      exact ⟨false, rfl, iff_of_false nofun nofun⟩
    | array others plain' =>
      -- arrays are compared by their canonical forms, which tell values apart up to reduction
      obtain ⟨left, written⟩ := same.exists_canonical
      obtain ⟨right, written'⟩ := same'.exists_canonical
      refine ⟨left == right, ?_, ?_⟩
      · rw [Value.same, written, written']
        rfl
      · rw [beq_iff_eq]
        constructor
        · rintro rfl
          exact (same.tells _ _ _ [] [] same' written written' nofun nofun rfl).1
        · intro reduced
          rw [← same.canonical_reduced, reduced, same'.canonical_reduced, written'] at written
          cases written
          rfl

theorem Value.Plain.same_iff (plain : v.Plain) (plain' : w.Plain) :
    v.same w = .ok true ↔ v.reduced = w.reduced := by
  obtain ⟨answer, decided, iff⟩ := plain.exists_same plain'
  rw [decided, Except.ok.injEq, iff]

/-! ## §3 Structural equality -/

/-- Values that are equal: scalars as above, and arrays if they have the same length and their
elements are equal in pairs. -/
def Value.Alike : Value → Value → Prop
  | scalar s, scalar t => s.Equal t
  | array elements, array others =>
    List.Forall₂ (fun v w => v.same w = .ok true) elements others
  | _, _ => False

private theorem map_reduced_iff {elements others : List Value} (plain : ∀ v ∈ elements, v.Plain)
    (plain' : ∀ w ∈ others, w.Plain) :
    elements.map Value.reduced = others.map Value.reduced ↔
      List.Forall₂ (fun v w => v.same w = .ok true) elements others := by
  induction elements generalizing others with
  | nil => cases others <;> simp
  | cons v elements ih =>
    cases others with
    | nil => simp
    | cons w others =>
      obtain ⟨first, later⟩ := List.forall_mem_cons.mp plain
      obtain ⟨first', later'⟩ := List.forall_mem_cons.mp plain'
      rw [List.map_cons, List.map_cons, List.cons_eq_cons, List.forall₂_cons, ih later later',
        first.same_iff first']

private theorem Value.Plain.alike_iff (plain : v.Plain) (plain' : w.Plain) :
    v.Alike w ↔ v.same w = .ok true := by
  have same := plain
  have same' := plain'
  cases plain with
  | scalar s plain =>
    cases plain' with
    | scalar t plain' =>
      rw [Value.same, Except.ok.injEq, Scalar.same_iff_equal]
      exact Iff.rfl
    | array others plain' => exact iff_of_false id nofun
  | array elements plain =>
    cases plain' with
    | scalar t plain' => exact iff_of_false id nofun
    | array others plain' =>
      rw [same.same_iff same', Value.reduced_array, Value.reduced_array, Value.array.injEq,
        map_reduced_iff plain plain']
      exact Iff.rfl

/-- **Equality is structural.** Whether two plain values are equal is always decided. Arrays are
equal exactly if they have the same length and their elements are equal in pairs, and equality is
reflexive, symmetric and transitive on all plain values. -/
theorem same_structural (v w : Value) (plain : v.Plain) (plain' : w.Plain) :
    (∃ answer, v.same w = .ok answer ∧ (answer = true ↔ v.Alike w)) ∧
    Equivalence fun v w : { v : Value // v.Plain } => v.1.same w.1 = .ok true := by
  refine ⟨?_, ?_, ?_, ?_⟩
  · obtain ⟨answer, decided, -⟩ := plain.exists_same plain'
    refine ⟨answer, decided, ?_⟩
    rw [plain.alike_iff plain', decided, Except.ok.injEq]
  · exact fun u => (u.2.same_iff u.2).mpr rfl
  · exact fun {u v} same => (v.2.same_iff u.2).mpr ((u.2.same_iff v.2).mp same).symm
  · exact fun {u v w} first second =>
      (u.2.same_iff w.2).mpr (((u.2.same_iff v.2).mp first).trans ((v.2.same_iff w.2).mp second))

/-- The double that is two. -/
def doubleTwo : Binary64 :=
  .finite ⟨false, 2 ^ 52, 1023, by decide, by decide, by decide⟩

/-- Arrays in arrays are equal if a double in the one is the whole number in the other. -/
theorem same_structural_nested :
    (Value.array [.array [.int 2, .string "],"], .boolean true]).same
      (.array [.array [.scalar (.float doubleTwo), .string "],"], .boolean true]) = .ok true ∧
    (Value.array [.array [.int 2, .string "],"], .boolean true]).Alike
      (.array [.array [.scalar (.float doubleTwo), .string "],"], .boolean true]) := by
  have short : (ofNat 2).length ≤ Limit.maxDigits := by decide
  have whole : (Value.int 2).Plain := .scalar _ short
  have double : (Value.scalar (.float doubleTwo)).Plain := .scalar _ nofun
  have text : (Value.string "],").Plain := .scalar _ (by simp [Scalar.Plain, ofString])
  have truth : (Value.boolean true).Plain := .scalar _ trivial
  have plain : (Value.array [.array [.int 2, .string "],"], .boolean true]).Plain :=
    .array _ (by simp [truth, Value.Plain.array, whole, text])
  have plain' :
      (Value.array [.array [.scalar (.float doubleTwo), .string "],"], .boolean true]).Plain :=
    .array _ (by simp [truth, Value.Plain.array, double, text])
  obtain ⟨answer, decided, alike⟩ := (same_structural _ _ plain plain').1
  have equal : (Value.array [.array [.int 2, .string "],"], .boolean true]).same
      (.array [.array [.scalar (.float doubleTwo), .string "],"], .boolean true]) = .ok true := by
    decide +kernel
  rw [equal, Except.ok.injEq] at decided
  exact ⟨equal, alike.mp decided.symm⟩

end PrefixCalc
