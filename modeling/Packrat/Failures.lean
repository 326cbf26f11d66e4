import Packrat.Source
import Packrat.Text

/-! The record of the furthest failures of a parse, and the error that comes of it: why the parse failed, where,
and the message that says so. -/
namespace Packrat

/-- A failure before `furthest` is forgotten, one at it adds its label, one beyond it starts anew. -/
structure Failures where
  furthest : Option Position := none
  /-- Labels without repeats, in the order of their first failure at `furthest`. -/
  expected : List String := []
  /-- How many lookaheads are open. Inside one, failures do not count. -/
  suppressed : Nat := 0
  deriving DecidableEq, Repr

namespace Failures

def empty : Failures := {}

def addLabel (labels : List String) (label : String) : List String :=
  if labels.contains label then labels else labels ++ [label]

def mark (f : Failures) (pos : Position) (label : String) : Failures :=
  if 0 < f.suppressed then f
  else
    match f.furthest with
    | none => { f with furthest := some pos, expected := [label] }
    | some far =>
      if pos.offset < far.offset then f
      else if pos.offset = far.offset then { f with expected := addLabel f.expected label }
      else { f with furthest := some pos, expected := [label] }

/-- Record the failures of a separate record, each as if it had been marked here. -/
def absorb (f other : Failures) : Failures :=
  match other.furthest with
  | none => f
  | some pos => other.expected.foldl (fun g label => g.mark pos label) f

def suppress (f : Failures) : Failures := { f with suppressed := f.suppressed + 1 }

def release (f : Failures) : Failures := { f with suppressed := f.suppressed - 1 }

def labelsText : List String → String
  | [] => "<unreported>"
  | labels => " or ".intercalate labels

end Failures

namespace ParseError

inductive Cause where
  | expected (labels : List String)
  | unconsumed (rest : List Char)
  | rejected (reason : String)
  deriving DecidableEq, Repr

def snippetLength : Nat := 16

def Cause.text : Cause → String
  | .expected labels => "Expected " ++ Failures.labelsText labels
  | .unconsumed rest =>
    "Not all input was consumed starting from '" ++ String.ofList (rest.take snippetLength) ++ "'"
  | .rejected reason => reason

def Cause.labels : Cause → List String
  | .expected labels => labels
  | _ => []

def Cause.rest : Cause → List Char
  | .unconsumed rest => rest
  | _ => []

end ParseError

structure ParseError where
  cause : ParseError.Cause
  location : Position
  file : Option String := none
  deriving DecidableEq, Repr

namespace ParseError

def ofFailures (f : Failures) (file : Option String) : ParseError :=
  ⟨.expected f.expected, f.furthest.getD Position.start, file⟩

def expected (e : ParseError) : List String := e.cause.labels

def unconsumed (e : ParseError) : List Char := e.cause.rest

/-- One line: the cause with control characters made visible, the position, and the file or a period. -/
def message (e : ParseError) : String :=
  String.ofList (Text.escape e.cause.text.toList) ++ " at " ++ e.location.text ++
    match e.file with
    | some file => " in " ++ file
    | none => "."

end ParseError

end Packrat
