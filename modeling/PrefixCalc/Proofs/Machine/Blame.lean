import PrefixCalc.Proofs.Builtin

/-!
# Mistakes about names

Three categories of mistakes are about names: a broken definition, a constant that nothing is
bound to, and a function that does not exist. Of the ways in which a step fails, arguments that do
not fit and builtins of the language that fail on their arguments are mistakes of other categories,
and so is everything that is wrong at the end of the input.
-/

namespace PrefixCalc

/-! ## §1 Categories -/

/-- Whether mistakes of a category are about names. -/
def Category.isOfNames : Category → Bool
  | definition | undefinedConstant | invalidFunction => true
  | syntactic | arity | type | cast | domain => false

/-- Whether a failure is a mistake about names. -/
def Failure.isOfNames : Failure → Bool
  | refused cause _ => cause.category.isOfNames
  | exceeded _ | misused _ => false

variable {m : Machine} {failure : Failure} {head : Head} {b : Builtin} {arguments : List Value}

/-- A place that is blamed does not change what the mistake is. -/
theorem Failure.isOfNames_blame (offset : Int) (failure : Failure) :
    (failure.blame offset).isOfNames = failure.isOfNames := by
  cases failure with
  | refused cause place => cases place <;> rfl
  | exceeded limit | misused misuse => rfl

/-! ## §2 Builtins and arguments -/

/-- No builtin of the language makes a mistake about names. -/
theorem Builtin.isOfNames_run (member : b ∈ standard) (fit : Fit b.parameters arguments)
    (h : b.run arguments = .error failure) : failure.isOfNames = false := by
  cases falters_of_run member fit h with
  | exceeded limit => rfl
  | refused cause category =>
    rcases category with category | category <;> rw [Failure.isOfNames, category] <;> rfl

namespace Machine

theorem exceeded_of_checkWritable (h : checkWritable arguments = .error failure) :
    ∃ limit, failure = .exceeded limit := by
  induction arguments with
  | nil => cases h
  | cons v rest ih =>
    rw [checkWritable] at h
    split at h
    · exact ih h
    · cases h
      exact ⟨_, rfl⟩

theorem isOfNames_invoke (member : b ∈ Builtin.standard) (fit : Fit b.parameters arguments)
    (h : invoke b head arguments = .error failure) : failure.isOfNames = false := by
  unfold invoke at h
  split at h
  · rename_i found failed
    cases h
    rw [Failure.isOfNames_blame]
    exact b.isOfNames_run member fit failed
  · split at h
    · cases h
    · rename_i found failed
      cases h
      obtain ⟨limit, rfl⟩ := exceeded_of_checkWritable failed
      rfl

theorem isOfNames_takeArguments {arity : Nat} {pending : List ParameterKind}
    {taken values : List Value}
    (h : takeArguments head arity pending taken values = .error failure) :
    failure.isOfNames = false := by
  induction pending generalizing taken values with
  | nil => cases h
  | cons expected pending ih =>
    cases values with
    | nil =>
      cases h
      rfl
    | cons v values =>
      rw [takeArguments] at h
      split at h
      · exact ih h
      · cases h
        rfl

theorem isOfNames_result (h : m.result = .error failure) : failure.isOfNames = false := by
  unfold result at h
  split at h
  · cases h
    rfl
  split at h
  · cases h
    rfl
  split at h
  · cases h
    rfl
  · cases h

end Machine

end PrefixCalc
