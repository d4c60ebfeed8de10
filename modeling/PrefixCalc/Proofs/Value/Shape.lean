import PrefixCalc.Proofs.Builtin
import PrefixCalc.Proofs.Machine.Frame
import PrefixCalc.Proofs.Text.Characters
import PrefixCalc.Proofs.Token.Line

/-!
# Shapes of values

What a text can make of constants that are plain scalars: scalars, and flat arrays of scalars
that literals denote. No double quote gets into a string, since none stands in a literal, in a
joined string or in a written value. So the constants that a text leaves, also when it fails,
are fit for the next one.
-/

namespace PrefixCalc

open Text

/-! ## §1 Shapes -/

/-- A scalar that holds no double quote. -/
def Scalar.Unquoted : Scalar → Prop
  | .string s => .char '"' ∉ s
  | _ => True

/-- A scalar that is no number with a sign, be it a zero, and is not nan. -/
def Scalar.Unsigned : Scalar → Prop
  | .int n => 0 ≤ n
  | .float x => x.Unsigned
  | _ => True

/-- The promise that no string holds a double quote and that the elements of arrays are no
numbers below zero and not nan. -/
def wellShaped : Promise where
  literal s := s.Unquoted ∧ s.Unsigned
  scalar := Scalar.Unquoted
  scalar_of_literal _ := And.left

private theorem wellShaped_tokens (text : Text) :
    wellShaped.OfTokens (Token.significant (Token.read text)) := by
  intro t member kind s lexeme
  have literal := Token.ofLiteral_of_mem_read (List.mem_of_mem_filter member) lexeme
  cases s with
  | int n => exact ⟨trivial, literal.1⟩
  | float x => exact ⟨trivial, literal⟩
  | string s => exact ⟨literal, trivial⟩
  | boolean b => exact ⟨trivial, trivial⟩

/-! ## §2 Written values -/

variable {v : Value} {written : Text}

private theorem Text.Numeric.quote_not_mem (h : written.Numeric) : .char '"' ∉ written := by
  intro member
  cases h _ member

private theorem Scalar.quote_not_mem_text {s : Scalar} (plain : s.Unquoted)
    (shown : s.text = .ok written) : .char '"' ∉ written := by
  cases s with
  | int n =>
    have digits : Text.decimal n = .ok written := shown
    rw [eq_ofInt_of_decimal digits]
    exact (numeric_ofInt n).quote_not_mem
  | float x =>
    cases shown
    exact (doubleLayout.numeric_write x).quote_not_mem
  | string s =>
    cases shown
    exact plain
  | boolean b =>
    cases shown
    cases b <;> decide

/-- The commas between the elements of an array bring no double quote in either. -/
theorem Value.quote_not_mem_text (shaped : wellShaped.OfValue v) (shown : v.text = .ok written) :
    .char '"' ∉ written := by
  cases v with
  | scalar s => exact Scalar.quote_not_mem_text shaped shown
  | array elements =>
    obtain ⟨parts, all, rfl⟩ := exists_of_map_eq_ok shown
    apply not_mem_join (by decide)
    intro part member
    obtain ⟨w, inside, text⟩ := exists_of_mem_writeAll all member
    obtain ⟨s, rfl, literal⟩ := shaped w inside
    exact Scalar.quote_not_mem_text literal.1 text

private theorem wellShaped_builtins : wellShaped.OfBuiltins .standard := by
  apply Builtin.ofBuiltins_standard
  · intro n
    cases n <;> trivial
  · exact fun _ => trivial
  · exact fun s t => List.not_mem_append
  · exact fun v text => Value.quote_not_mem_text

/-! ## §3 The law of shapes -/

/-- **Shapes of values.** If the constants that a text finds are scalars without double quotes,
then every value on the stack, in every state of its evaluation, and the value that it yields
are such scalars, or flat arrays of scalars that hold no double quotes and are neither numbers
below zero nor nan. The constants that it leaves, whether or not it yields a value, are scalars
without double quotes again. -/
theorem wellShaped_evaluate (env : Environment) (constants : wellShaped.OfConstants env)
    (text : Text) :
    (∀ done ahead m, Token.significant (Token.read text) = done ++ ahead →
      Machine.Reaches .standard ahead { env } done m → ∀ v ∈ m.values, wellShaped.OfValue v) ∧
    (∀ v, (Machine.evaluate .standard env (Token.read text)).result = .ok v →
      wellShaped.OfValue v) ∧
    wellShaped.OfConstants (Machine.evaluate .standard env (Token.read text)).env := by
  have states : ∀ done ahead m, Token.significant (Token.read text) = done ++ ahead →
      Machine.Reaches .standard ahead { env } done m → ∀ v ∈ m.values, wellShaped.OfValue v := by
    intro done ahead m split reached
    have tokens := wellShaped_tokens text
    rw [split] at tokens
    exact ((Promise.ofMachine_start constants tokens).of_reaches wellShaped_builtins reached).values
  refine ⟨states, fun v ok => ?_, constants.run wellShaped_builtins (wellShaped_tokens text)⟩
  -- the value is the newest one in the last state
  have whole : Token.significant (Token.read text) = Token.significant (Token.read text) ++ [] :=
    (List.append_nil _).symm
  rw [Machine.evaluate, whole] at ok
  obtain ⟨last, reached, ended⟩ := Machine.exists_reaches_of_run_eq_ok ok
  obtain ⟨-, -, newest⟩ := Machine.result_eq_ok_iff.mp ended
  exact states _ [] last whole reached v (List.mem_of_mem_head? newest)

/-- A name inside brackets is no element of the array, so its value may be below zero. -/
theorem wellShaped_evaluate_nameInArray :
    wellShaped.OfConstants ⟨[("x", .int (-1))]⟩ ∧
    (Machine.evaluate .standard ⟨[("x", .int (-1))]⟩ (Token.read "[1 x \"]\"]")).result
      = .ok (.array [.int 1, .string "]"]) ∧
    wellShaped.OfValue (.array [.int 1, .string "]"]) := by
  have constants : wellShaped.OfConstants ⟨[("x", .int (-1))]⟩ := by
    intro entry member
    rw [List.mem_singleton.mp member]
    exact ⟨.int (-1), rfl, trivial⟩
  have tokens : Token.read "[1 x \"]\"]" = [⟨.openBracket, 0⟩, ⟨.literal .int (.int 1), 1⟩,
      ⟨.whitespace " ", 2⟩, ⟨.identifier "x", 3⟩, ⟨.whitespace " ", 4⟩,
      ⟨.literal .string (.string "]"), 5⟩, ⟨.closeBracket, 8⟩] := by
    rw [Token.read_eq_onePassFrom]
    decide +kernel
  have ok : (Machine.evaluate .standard ⟨[("x", .int (-1))]⟩ (Token.read "[1 x \"]\"]")).result
      = .ok (.array [.int 1, .string "]"]) := by
    rw [tokens]
    rfl
  exact ⟨constants, ok, (wellShaped_evaluate _ constants _).2.1 _ ok⟩

end PrefixCalc
