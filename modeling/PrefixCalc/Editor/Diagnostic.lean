import PrefixCalc.Editor.Index

/-!
# Diagnostics

The index of a document as a list of marked stretches: first what concerns the document
as a whole, marked at its start, then the single findings by group.
-/

namespace PrefixCalc

/-- How grave a diagnostic is. -/
inductive Severity where
  | error
  | warning
  deriving DecidableEq, Repr

/-- The number by which editors know a severity. -/
def Severity.code : Severity → Nat
  | error => 1
  | warning => 2

/-- A stretch of one line. -/
structure Stretch where
  start : Position
  length : Nat
  deriving DecidableEq, Repr

/-- The place behind a stretch. -/
def Stretch.stop (s : Stretch) : Position := ⟨s.start.line, s.start.column + s.length⟩

/-- A remark about a stretch of a document. -/
structure Diagnostic where
  message : Text
  severity : Severity
  stretch : Stretch
  deriving DecidableEq, Repr

namespace Diagnostic

/-- Who makes the remarks. -/
def source : Text := "pexpr-ls"

/-- A warning about a document as a whole. -/
def general (message : Text) : Diagnostic := ⟨message, .warning, ⟨⟨0, 0⟩, 1⟩⟩

/-- A remark about a single finding. -/
def ofProblem (severity : Severity) (p : Problem) : Diagnostic :=
  ⟨p.finding.message, severity, ⟨p.place, p.finding.length⟩⟩

/-- The remarks about a document. -/
def ofIndex (index : Index) : List Diagnostic :=
  (if index.parenBalance ≠ 0 then [general "Unmatched parentheses detected"] else [])
    ++ (if index.bracketBalance ≠ 0 then [general "Unterminated array detected"] else [])
    ++ (if index.unmatchedQuote then [general "Unmatched quote detected"] else [])
    ++ index.structural.map (ofProblem .error)
    ++ index.ignoredValues.map (ofProblem .warning)
    ++ index.unknownFunctions.map (ofProblem .error)
    ++ index.undefinedConstants.map (ofProblem .warning)

end Diagnostic

end PrefixCalc
