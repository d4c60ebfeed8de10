import PrefixCalc.Proofs.Builtin

/-!
# Endings of checked calls

A call whose arguments fit yields a value or is refused, with two exceptions. A sum or a
difference that mixes a double with a whole number needs the double nearest to that number, so
the number has to lie in the range of doubles. And whole numbers of too many digits cannot be
written, which every call asks of its arguments when it is done. A number out of range is met
first, since the builtin runs before its arguments are written.
-/

namespace PrefixCalc

variable {b : Builtin} {head : Head} {arguments : List Value} {v : Value}

/-! ## §1 Whole numbers as doubles -/

/-- Half a unit of the last place behind the largest double. -/
def Number.doubleRange : Nat := 2 ^ 1024 - 2 ^ 970

private theorem infiniteFrom_eq :
    Binary64.infiniteFrom = Number.doubleRange * Binary64.unitsPerOne := by decide +kernel

/-- A whole number is nearest to a finite double exactly below that place. -/
theorem exists_ofInt_eq_finite_iff (n : Int) :
    (∃ x, Binary64.ofInt n = .finite x) ↔ n.natAbs < Number.doubleRange := by
  rw [Binary64.ofInt, Binary64.exists_round_eq_finite_iff Nat.one_pos, Nat.mul_one,
    infiniteFrom_eq, Nat.mul_lt_mul_right Binary64.Finite.unitsPerOne_pos]

private theorem exists_doubleOfInt {n : Int} (inside : n.natAbs < Number.doubleRange) :
    ∃ x, Number.doubleOfInt n = .ok x := by
  obtain ⟨x, nearest⟩ := (exists_ofInt_eq_finite_iff n).mpr inside
  refine ⟨.finite x, ?_⟩
  rw [Number.doubleOfInt, nearest, Number.finiteOnly]

private theorem doubleOfInt_eq_error {n : Int} (outside : Number.doubleRange ≤ n.natAbs) :
    Number.doubleOfInt n = .error .doubleRange := by
  have none := mt (exists_ofInt_eq_finite_iff n).mp (Nat.not_lt.mpr outside)
  rw [Number.doubleOfInt]
  generalize Binary64.ofInt n = nearest at none
  cases nearest with
  | finite x => exact absurd ⟨x, rfl⟩ none
  | infinite negative => rfl
  | nan => rfl

section Combine

variable (exact : Int → Int → Int) (rounded : Binary64 → Binary64 → Binary64)

private theorem combine_int_float (n : Int) (y : Binary64) :
    Number.combine exact rounded (.int n) (.float y)
      = (Number.doubleOfInt n).map fun x => .float (rounded x y) := by
  rw [Number.combine]
  generalize Number.doubleOfInt n = nearest
  cases nearest <;> rfl

private theorem combine_float_int (x : Binary64) (n : Int) :
    Number.combine exact rounded (.float x) (.int n)
      = (Number.doubleOfInt n).map fun y => .float (rounded x y) := by
  rw [Number.combine]
  generalize Number.doubleOfInt n = nearest
  cases nearest <;> rfl

end Combine

/-! ## §2 Endings -/

/-- A call of `plus` or `minus` mixes a double with a whole number out of the range of doubles. -/
def OutOfRange (b : Builtin) (arguments : List Value) : Prop :=
  (b.name = "plus" ∨ b.name = "minus") ∧ ∃ (n : Int) (x : Binary64),
    Number.doubleRange ≤ n.natAbs ∧
    (arguments = [.int n, .scalar (.float x)] ∨ arguments = [.scalar (.float x), .int n])

/-- One of the arguments is a whole number with too many digits. -/
def TooLong (arguments : List Value) : Prop := ∃ v ∈ arguments, v.Long

/-- How a call ends: in a value, in a refusal, or over a limit, if it is over it. -/
inductive Ends (b : Builtin) (arguments : List Value) : Except Failure Value → Prop where
  | value (v : Value) (inRange : ¬ OutOfRange b arguments) : Ends b arguments (.ok v)
  | refused (cause : Cause) (offset : Option Int) (inRange : ¬ OutOfRange b arguments)
      (short : ¬ TooLong arguments) : Ends b arguments (.error (.refused cause offset))
  | range (out : OutOfRange b arguments) : Ends b arguments (.error (.exceeded .doubleRange))
  | digits (inRange : ¬ OutOfRange b arguments) (long : TooLong arguments) :
      Ends b arguments (.error (.exceeded .writtenDigits))

private theorem not_outOfRange_of_name (plus : b.name ≠ "plus") (minus : b.name ≠ "minus") :
    ¬ OutOfRange b arguments := by
  rintro ⟨name | name, -⟩
  · exact plus name
  · exact minus name

private theorem not_tooLong_singleton (short : ¬ v.Long) : ¬ TooLong [v] := by
  rintro ⟨w, member, long⟩
  rw [List.mem_singleton.mp member] at long
  exact short long

private theorem tooLong_singleton (long : v.Long) :
    TooLong [v] := ⟨v, List.mem_singleton.mpr rfl, long⟩

/-! ## §3 Builtins -/

/-- A whole number that is mixed with a double in an operation of arithmetic is out of range or
has a nearest double. -/
theorem ends_mixed (name : b.name = "plus" ∨ b.name = "minus") {n : Int} {x : Binary64}
    (mixed : arguments = [.int n, .scalar (.float x)] ∨ arguments = [.scalar (.float x), .int n])
    (f : Binary64 → Number) :
    Ends b arguments ((Failure.ofLimit ((Number.doubleOfInt n).map f)).map .number) := by
  by_cases inside : n.natAbs < Number.doubleRange
  · obtain ⟨y, nearest⟩ := exists_doubleOfInt inside
    rw [nearest]
    apply Ends.value
    rintro ⟨-, k, z, out, same⟩
    -- the whole number among the arguments is the one that was in range
    have number : k = n := by
      rcases mixed with rfl | rfl <;> rcases same with same | same <;> cases same <;> rfl
    omega
  · have outside := Nat.le_of_not_lt inside
    rw [doubleOfInt_eq_error outside]
    exact .range ⟨name, n, x, outside, mixed⟩

private theorem ends_combine (name : b.name = "plus" ∨ b.name = "minus") (exact : Int → Int → Int)
    (rounded : Binary64 → Binary64 → Binary64) (m n : Number) :
    Ends b [.number m, .number n]
      ((Failure.ofLimit (Number.combine exact rounded m n)).map .number) := by
  cases m with
  | int i =>
    cases n with
    | int j =>
      apply Ends.value
      rintro ⟨-, k, x, -, same | same⟩ <;> cases same
    | float y =>
      rw [combine_int_float]
      exact ends_mixed name (.inl rfl) _
  | float x =>
    cases n with
    | int j =>
      rw [combine_float_int]
      exact ends_mixed name (.inr rfl) _
    | float y =>
      apply Ends.value
      rintro ⟨-, k, z, -, same | same⟩ <;> cases same

/-- Equality of values is decided, as arrays hold literals only and those can be written. -/
theorem exists_same {w : Value} (first : shortLiterals.OfValue v)
    (second : shortLiterals.OfValue w) : ∃ truth, v.same w = .ok truth := by
  cases v with
  | scalar s =>
    cases w with
    | scalar t => exact ⟨_, rfl⟩
    | array others => exact ⟨_, rfl⟩
  | array elements =>
    cases w with
    | scalar t => exact ⟨_, rfl⟩
    | array others =>
      obtain ⟨left, writtenLeft⟩ := exists_canonical first
      obtain ⟨right, writtenRight⟩ := exists_canonical second
      refine ⟨left == right, ?_⟩
      rw [Value.same, writtenLeft, writtenRight]
      rfl

/-- A length is found or refused, except that the refusal shows the value. -/
theorem ends_length (name : b.name = "length") (kept : shortLiterals.OfValue v) :
    Ends b [v] (v.length.map fun n => .int n) := by
  have inRange : ¬ OutOfRange b [v] :=
    not_outOfRange_of_name (by rw [name]; decide) (by rw [name]; decide)
  -- what is neither a string nor an array is shown before it is refused
  have unmeasured : (v.length = do
      let shown ← Failure.ofLimit v.text
      .error (.refused (.noLength shown) none)) → Ends b [v] (v.length.map fun n => .int n) := by
    intro shows
    rw [shows]
    by_cases long : v.Long
    · rw [text_of_long long]
      exact .digits inRange (tooLong_singleton long)
    · obtain ⟨text, written⟩ := exists_text kept long
      rw [written]
      exact .refused _ _ inRange (not_tooLong_singleton long)
  cases v with
  | array elements => exact .value _ inRange
  | scalar s =>
    cases s with
    | string s => exact .value _ inRange
    | int n => exact unmeasured rfl
    | float x => exact unmeasured rfl
    | boolean truth => exact unmeasured rfl

/-- A text is written, unless the value is too long. -/
theorem ends_string (name : b.name = "string") (kept : shortLiterals.OfValue v) :
    Ends b [v] ((Failure.ofLimit v.text).map .string) := by
  have inRange : ¬ OutOfRange b [v] :=
    not_outOfRange_of_name (by rw [name]; decide) (by rw [name]; decide)
  by_cases long : v.Long
  · rw [text_of_long long]
    exact .digits inRange (tooLong_singleton long)
  · obtain ⟨text, written⟩ := exists_text kept long
    rw [written]
    exact .value _ inRange

/-- A cast of a text is refused or done. -/
theorem ends_cast {α : Type} {cast : Except Failure α} {s : Text} (f : α → Value)
    (plus : b.name ≠ "plus") (minus : b.name ≠ "minus")
    (refuses : ∀ failure, cast = .error failure → ∃ cause, failure = .refused cause none) :
    Ends b [.string s] (cast.map f) := by
  cases cast with
  | ok made => exact .value _ (not_outOfRange_of_name plus minus)
  | error failure =>
    obtain ⟨cause, rfl⟩ := refuses failure rfl
    exact .refused cause none (not_outOfRange_of_name plus minus)
      (not_tooLong_singleton (not_long_string s))

/-- **Builtins fail as told.** -/
theorem ends_run (member : b ∈ Builtin.standard) (fit : Fit b.parameters arguments)
    (kept : ∀ v ∈ arguments, shortLiterals.OfValue v) : Ends b arguments (b.run arguments) := by
  have computes := Builtin.computes_run member fit
  generalize b.run arguments = outcome at computes
  cases computes with
  | plus m n => exact ends_combine (.inl rfl) _ _ m n
  | minus m n => exact ends_combine (.inr rfl) _ _ m n
  | concat s t => exact .value _ (not_outOfRange_of_name (by decide) (by decide))
  | int s => exact ends_cast _ (by decide) (by decide) fun _ failed =>
      ⟨_, Cast.refused_of_toInt failed⟩
  | float s => exact ends_cast _ (by decide) (by decide) fun _ failed =>
      ⟨_, Cast.refused_of_toFloat failed⟩
  | string v => exact ends_string rfl (kept v (by simp))
  | length v => exact ends_length rfl (kept v (by simp))
  | equals v w =>
    obtain ⟨truth, decided⟩ := exists_same (kept v (by simp)) (kept w (by simp))
    rw [decided]
    exact .value _ (not_outOfRange_of_name (by decide) (by decide))
  | choose truth v w => exact .value _ (not_outOfRange_of_name (by decide) (by decide))

/-! ## §4 Calls -/

private theorem checkWritable_of_short (kept : ∀ v ∈ arguments, shortLiterals.OfValue v)
    (short : ¬ TooLong arguments) : Machine.checkWritable arguments = .ok () := by
  induction arguments with
  | nil => rfl
  | cons v arguments ih =>
    have notLong : ¬ v.Long := fun long => short ⟨v, List.mem_cons_self, long⟩
    obtain ⟨text, written⟩ := exists_logged (kept v List.mem_cons_self) notLong
    rw [Machine.checkWritable, written]
    apply ih fun w member => kept w (List.mem_cons_of_mem v member)
    rintro ⟨w, member, long⟩
    exact short ⟨w, List.mem_cons_of_mem v member, long⟩

private theorem checkWritable_of_long (kept : ∀ v ∈ arguments, shortLiterals.OfValue v)
    (long : TooLong arguments) :
    Machine.checkWritable arguments = .error (.exceeded .writtenDigits) := by
  induction arguments with
  | nil =>
    obtain ⟨v, member, -⟩ := long
    cases member
  | cons v arguments ih =>
    rw [Machine.checkWritable]
    by_cases first : v.Long
    · rw [logged_of_long first]
    · obtain ⟨text, written⟩ := exists_logged (kept v List.mem_cons_self) first
      rw [written]
      apply ih fun w member => kept w (List.mem_cons_of_mem v member)
      obtain ⟨w, member, long⟩ := long
      rcases List.mem_cons.mp member with rfl | later
      · exact absurd long first
      · exact ⟨w, later, long⟩

/-- **Calls fail as told**, and one that yields a value has had none but short arguments. -/
theorem ends_invoke (member : b ∈ Builtin.standard) (fit : Fit b.parameters arguments)
    (kept : ∀ v ∈ arguments, shortLiterals.OfValue v) :
    Ends b arguments (Machine.invoke b head arguments) ∧
    (TooLong arguments → ∀ v, Machine.invoke b head arguments ≠ .ok v) := by
  have ends := ends_run member fit kept
  -- the arguments are written only behind a builtin that yields a value
  unfold Machine.invoke
  generalize b.run arguments = outcome at ends
  cases ends with
  | value v inRange =>
    by_cases long : TooLong arguments
    · rw [checkWritable_of_long kept long]
      exact ⟨.digits inRange long, fun _ _ => nofun⟩
    · rw [checkWritable_of_short kept long]
      exact ⟨.value v inRange, fun digits => absurd digits long⟩
  | refused cause offset inRange short =>
    refine ⟨?_, fun _ _ => nofun⟩
    -- the name is blamed, if no place was yet
    cases offset with
    | none => exact .refused cause _ inRange short
    | some place => exact .refused cause _ inRange short
  | range out => exact ⟨.range out, fun _ _ => nofun⟩
  | digits inRange long => exact ⟨.digits inRange long, fun _ _ => nofun⟩

end PrefixCalc
