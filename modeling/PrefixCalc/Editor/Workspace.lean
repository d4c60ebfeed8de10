import PrefixCalc.Editor.Cursor
import PrefixCalc.Editor.Diagnostic

/-!
# Workspaces

The documents that an editor has open, each with its index, and the answers to what an
editor asks about them. A document that is not open has no answers.
-/

namespace PrefixCalc

/-- A document and its index. -/
structure Document where
  text : Text
  index : Index

/-- A document with the index of its text. -/
def Document.ofText (text : Text) : Document := ⟨text, .ofText text⟩

/-- The open documents by their identifiers, in the order in which they were opened. -/
abbrev Workspace := OrderedMap Text Document

namespace Workspace

/-! ## §1 Documents -/

/-- Takes the text of a document, new or changed, and the remarks about it. -/
def update (w : Workspace) (uri text : Text) : Workspace × List Diagnostic :=
  let document := Document.ofText text
  (w.insert uri document, Diagnostic.ofIndex document.index)

/-- Closes a document, about which no remarks remain. -/
def close (w : Workspace) (uri : Text) : Workspace × List Diagnostic := (w.erase uri, [])

/-! ## §2 Help -/

/-- The help on every word of the language: the builtins, then the definition. -/
def help : List (Text × Text) :=
  let definition : Text := "(def identifier literal): Define a constant"
  Builtin.standard.map (fun b => (b.name, b.help)) ++ [(definitionWord, definition)]

/-- What is shown about the constant `name`. -/
def describe (name : Text) (c : Constant) : Text :=
  name ++ ": " ++ c.kind.name ++ " constant (defined at "
    ++ Text.ofNat (c.place.line + 1) ++ ":" ++ Text.ofNat (c.place.column + 1) ++ ")"

/-- What is shown about the word at a place. -/
def hover? (w : Workspace) (uri : Text) (p : Position) : Option Text := do
  let document ← w.get? uri
  let word ← Cursor.wordAt? document.text p
  match help.lookup word with
  | some text => some text
  | none => (document.index.constants.get? word).map (describe word)

/-! ## §3 Completion -/

/-- What a completion stands for. -/
inductive ItemKind where
  | function
  | constant
  deriving DecidableEq, Repr

/-- The number by which editors know what a completion stands for. -/
def ItemKind.code : ItemKind → Nat
  | function => 3
  | constant => 21

/-- A word to complete to. -/
structure Item where
  label : Text
  kind : ItemKind
  detail : Text
  deriving DecidableEq, Repr

/-- The words of the language, then the constants of the document if it is open. -/
def completion (w : Workspace) (uri : Text) : List Item :=
  let words := help.map fun entry => Item.mk entry.1 .function entry.2
  match w.get? uri with
  | none => words
  | some document =>
    words ++ document.index.constants.entries.map fun entry =>
      Item.mk entry.1 .constant entry.2.kind.name

/-! ## §4 Signatures -/

/-- The signature of the call at a place, and which parameter comes next. -/
structure Signature where
  builtin : Builtin
  activeParameter : Nat

/-- The signature of the call that is open at a place; behind the last parameter it is the
last one that stays active. -/
def signature? (w : Workspace) (uri : Text) (p : Position) : Option Signature := do
  let document ← w.get? uri
  let (name, count) ← Cursor.openCall? (Cursor.lineBefore document.text p)
  let builtin ← Registry.standard.get? name
  return ⟨builtin, min count (builtin.arity - 1)⟩

/-! ## §5 Symbols -/

/-- A constant in the outline of a document. -/
structure Entry where
  name : Text
  detail : Text
  stretch : Stretch
  deriving DecidableEq, Repr

/-- The number by which editors know an entry of an outline to be a constant. -/
def Entry.code : Nat := 14

/-- The outline of a document: its constants. -/
def outline? (w : Workspace) (uri : Text) : Option (List Entry) :=
  (w.get? uri).map fun document =>
    document.index.constants.entries.map fun entry =>
      ⟨entry.1, entry.2.kind.name, ⟨entry.2.place, entry.1.length⟩⟩

end Workspace

end PrefixCalc
