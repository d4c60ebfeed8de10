import PrefixCalc.Proofs.Value.Written

/-!
# Results of the builtins

The kinds of the parameters tell what the arguments of a builtin look like, and with that what
it computes of them. Every promise that numbers, truth values and written values keep is kept by
all results.
-/

namespace PrefixCalc

open Text

variable {promise : Promise} {b : Builtin} {arguments : List Value} {v : Value}

/-! ## §1 Results -/

private theorem exists_number_of_accepts (h : ParameterKind.number.accepts v.kind = true) :
    ∃ n, v = .number n := by
  cases v with
  | array elements => cases h
  | scalar s =>
    cases s with
    | int n => exact ⟨.int n, rfl⟩
    | float x => exact ⟨.float x, rfl⟩
    | string s => cases h
    | boolean b => cases h

private theorem exists_string_of_accepts (h : ParameterKind.string.accepts v.kind = true) :
    ∃ s, v = .string s := by
  cases v with
  | array elements => cases h
  | scalar s =>
    cases s with
    | string s => exact ⟨s, rfl⟩
    | int n => cases h
    | float x => cases h
    | boolean b => cases h

private theorem exists_boolean_of_accepts (h : ParameterKind.boolean.accepts v.kind = true) :
    ∃ b, v = .boolean b := by
  cases v with
  | array elements => cases h
  | scalar s =>
    cases s with
    | boolean b => exact ⟨b, rfl⟩
    | int n => cases h
    | float x => cases h
    | string s => cases h

theorem exists_of_map_eq_ok {α β ε : Type} {x : Except ε α} {f : α → β} {made : β}
    (h : x.map f = .ok made) : ∃ a, x = .ok a ∧ f a = made := by
  cases x with
  | error e => cases h
  | ok a =>
    cases h
    exact ⟨a, rfl, rfl⟩

private theorem eq_ok_of_ofLimit {α : Type} {x : Except Limit α} {a : α}
    (h : Failure.ofLimit x = .ok a) : x = .ok a := by
  cases x with
  | error limit => cases h
  | ok found =>
    cases h
    rfl

private theorem fit_one {p : ParameterKind} (fit : Fit [p] arguments) :
    ∃ v, arguments = [v] ∧ p.accepts v.kind = true := by
  cases fit with
  | cons first rest =>
    cases rest
    exact ⟨_, rfl, first⟩

private theorem fit_two {p q : ParameterKind} (fit : Fit [p, q] arguments) :
    ∃ v w, arguments = [v, w] ∧ p.accepts v.kind = true ∧ q.accepts w.kind = true := by
  cases fit with
  | cons first rest =>
    obtain ⟨w, rfl, second⟩ := fit_one rest
    exact ⟨_, w, rfl, first, second⟩

namespace Builtin

/-- What the builtins compute of arguments that fit their parameters. -/
inductive Computes : Builtin → List Value → Except Failure Value → Prop where
  | plus (m n : Number) :
      Computes plus [.number m, .number n] ((Failure.ofLimit (m.add n)).map .number)
  | minus (m n : Number) :
      Computes minus [.number m, .number n] ((Failure.ofLimit (m.sub n)).map .number)
  | concat (s t : Text) : Computes concat [.string s, .string t] (.ok (.string (s ++ t)))
  | int (s : Text) : Computes int [.string s] ((Cast.toInt s).map .int)
  | float (s : Text) :
      Computes float [.string s] ((Cast.toFloat s).map fun x => .scalar (.float x))
  | string (v : Value) : Computes string [v] ((Failure.ofLimit v.text).map .string)
  | length (v : Value) : Computes length [v] (v.length.map fun n => .int n)
  | equals (v w : Value) : Computes equals [v, w] ((Failure.ofLimit (v.same w)).map .boolean)
  | choose (b : Bool) (v w : Value) :
      Computes choose [.boolean b, v, w] (.ok (if b then v else w))

/-- **Inversion of a call**: arguments that fit are of the form that the builtin works on. -/
theorem computes_run (member : b ∈ standard) (fit : Fit b.parameters arguments) :
    Computes b arguments (b.run arguments) := by
  simp only [standard, List.mem_cons, List.not_mem_nil, or_false] at member
  -- one builtin after the other: its parameters say what the arguments are, and the rest is to see
  -- that it runs on them as it is said to
  rcases member with rfl | rfl | rfl | rfl | rfl | rfl | rfl | rfl | rfl
  · obtain ⟨v, w, rfl, first, second⟩ := fit_two fit
    obtain ⟨m, rfl⟩ := exists_number_of_accepts first
    obtain ⟨n, rfl⟩ := exists_number_of_accepts second
    have computed : plus.run [.number m, .number n]
        = (Failure.ofLimit (m.add n)).map .number := by
      cases m <;> cases n <;> rfl
    rw [computed]
    exact .plus m n
  · obtain ⟨v, w, rfl, first, second⟩ := fit_two fit
    obtain ⟨m, rfl⟩ := exists_number_of_accepts first
    obtain ⟨n, rfl⟩ := exists_number_of_accepts second
    have computed : minus.run [.number m, .number n]
        = (Failure.ofLimit (m.sub n)).map .number := by
      cases m <;> cases n <;> rfl
    rw [computed]
    exact .minus m n
  · obtain ⟨v, w, rfl, first, second⟩ := fit_two fit
    obtain ⟨s, rfl⟩ := exists_string_of_accepts first
    obtain ⟨t, rfl⟩ := exists_string_of_accepts second
    exact .concat s t
  · obtain ⟨v, rfl, first⟩ := fit_one fit
    obtain ⟨s, rfl⟩ := exists_string_of_accepts first
    have computed : int.run [.string s] = (Cast.toInt s).map .int := by
      show (Cast.toInt s >>= fun n => pure (Value.int n)) = _
      cases Cast.toInt s <;> rfl
    rw [computed]
    exact .int s
  · obtain ⟨v, rfl, first⟩ := fit_one fit
    obtain ⟨s, rfl⟩ := exists_string_of_accepts first
    have computed : float.run [.string s]
        = (Cast.toFloat s).map fun x => .scalar (.float x) := by
      show (Cast.toFloat s >>= fun x => pure (Value.scalar (.float x))) = _
      cases Cast.toFloat s <;> rfl
    rw [computed]
    exact .float s
  · obtain ⟨v, rfl, -⟩ := fit_one fit
    exact .string v
  · obtain ⟨v, rfl, -⟩ := fit_one fit
    exact .length v
  · obtain ⟨v, w, rfl, -, -⟩ := fit_two fit
    exact .equals v w
  · cases fit with
    | cons first rest =>
      obtain ⟨v, w, rfl, -, -⟩ := fit_two rest
      obtain ⟨b, rfl⟩ := exists_boolean_of_accepts first
      exact .choose b v w

theorem mem_of_get?_standard {name : Text} (known : Registry.standard.get? name = some b) :
    b ∈ standard := by
  have entry := OrderedMap.mem_of_mem_ofList (OrderedMap.mem_of_get? known)
  obtain ⟨_, member, same⟩ := List.mem_map.mp entry
  cases same
  exact member

/-- The registry of the language knows its builtins by their own names. -/
theorem name_of_get?_standard {name : Text} (known : Registry.standard.get? name = some b) :
    b.name = name := by
  have entry := OrderedMap.mem_of_mem_ofList (OrderedMap.mem_of_get? known)
  obtain ⟨_, -, same⟩ := List.mem_map.mp entry
  cases same
  rfl

end Builtin

/-! ## §2 Failures -/

variable {failure : Failure}

private theorem eq_error_of_map {α β ε : Type} {x : Except ε α} {f : α → β} {e : ε}
    (h : x.map f = .error e) : x = .error e := by
  cases x with
  | ok made => cases h
  | error found =>
    cases h
    rfl

private theorem Failure.exceeded_of_ofLimit {α : Type} {x : Except Limit α}
    (h : Failure.ofLimit x = .error failure) : ∃ limit, failure = .exceeded limit := by
  cases x with
  | ok made => cases h
  | error limit =>
    cases h
    exact ⟨limit, rfl⟩

theorem Cast.refused_of_toInt {s : Text} (h : Cast.toInt s = .error failure) :
    failure = .refused (.noInteger s) none := by
  unfold Cast.toInt at h
  split at h
  · split at h
    · cases h
    · cases h
      rfl
  · cases h
    rfl

theorem Cast.refused_of_toFloat {s : Text} (h : Cast.toFloat s = .error failure) :
    failure = .refused (.noFloat s) none := by
  unfold Cast.toFloat at h
  split at h
  · cases h
  · cases h
    rfl

namespace Builtin

/-- How a builtin of the language fails: over a limit, or with a complaint of a text that is no
number or of a value that has no length. It does not know of places. -/
inductive Falters : Failure → Prop where
  | exceeded (limit : Limit) : Falters (.exceeded limit)
  | refused (cause : Cause) (category : cause.category = .cast ∨ cause.category = .domain) :
      Falters (.refused cause none)

private theorem falters_of_ofLimit {α : Type} {x : Except Limit α}
    (h : Failure.ofLimit x = .error failure) : Falters failure := by
  obtain ⟨limit, rfl⟩ := Failure.exceeded_of_ofLimit h
  exact .exceeded limit

private theorem falters_of_length (h : v.length = .error failure) : Falters failure := by
  unfold Value.length at h
  split at h
  · cases h
  · cases h
  · rcases Machine.error_of_bind h with unshown | ⟨shown, -, refused⟩
    · exact falters_of_ofLimit unshown
    · cases refused
      exact .refused _ (.inr rfl)

theorem falters_of_run (member : b ∈ standard) (fit : Fit b.parameters arguments)
    (h : b.run arguments = .error failure) : Falters failure := by
  have computes := computes_run member fit
  rw [h] at computes
  generalize failed : Except.error failure = outcome at computes
  cases computes with
  | plus m n | minus m n | string v | equals v w =>
    exact falters_of_ofLimit (eq_error_of_map failed.symm)
  | concat s t => cases failed
  | choose condition v w => cases failed
  | int s =>
    rw [Cast.refused_of_toInt (eq_error_of_map failed.symm)]
    exact .refused _ (.inl rfl)
  | float s =>
    rw [Cast.refused_of_toFloat (eq_error_of_map failed.symm)]
    exact .refused _ (.inl rfl)
  | length v =>
    rcases Machine.error_of_bind (eq_error_of_map failed.symm) with unmeasured | ⟨n, -, impossible⟩
    · exact falters_of_length unmeasured
    · cases impossible

/-! ## §3 Promises -/

/-- The builtins keep to every promise that covers numbers and truth values and is kept by
joined strings and by written values. -/
theorem ofBuiltins_standard (numbers : ∀ n : Number, promise.scalar n.toScalar)
    (booleans : ∀ b, promise.scalar (.boolean b))
    (joined : ∀ s t, promise.scalar (.string s) → promise.scalar (.string t) →
      promise.scalar (.string (s ++ t)))
    (written : ∀ v text, promise.OfValue v → v.text = .ok text → promise.scalar (.string text)) :
    promise.OfBuiltins .standard := by
  intro name b known arguments result fit given ran
  have computes := computes_run (mem_of_get?_standard known) fit
  rw [ran] at computes
  generalize made : Except.ok result = outcome at computes
  -- what a builtin computes is a number, a truth value, a string or one of its arguments
  cases computes with
  | plus m n | minus m n =>
    obtain ⟨n, -, rfl⟩ := exists_of_map_eq_ok made.symm
    exact numbers n
  | concat s t =>
    cases made
    have first : promise.OfValue (.string s) := given _ (by simp)
    have second : promise.OfValue (.string t) := given _ (by simp)
    exact joined s t first second
  | int s | length v =>
    obtain ⟨n, -, rfl⟩ := exists_of_map_eq_ok made.symm
    exact numbers (.int n)
  | float s =>
    obtain ⟨x, -, rfl⟩ := exists_of_map_eq_ok made.symm
    exact numbers (.float x)
  | string v =>
    obtain ⟨text, shown, rfl⟩ := exists_of_map_eq_ok made.symm
    exact written v text (given v (by simp)) (eq_ok_of_ofLimit shown)
  | equals v w =>
    obtain ⟨b, -, rfl⟩ := exists_of_map_eq_ok made.symm
    exact booleans b
  | choose b v w =>
    cases made
    split
    · exact given v (by simp)
    · exact given w (by simp)

end Builtin

end PrefixCalc
