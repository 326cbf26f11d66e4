import Packrat.Failures
import Packrat.Grammar.Check
import Packrat.Session.Eval

/-! Parsers: a grammar that has passed its check, with the rule to start from. -/
namespace Packrat

structure Parser (V : Type) where
  grammar : Grammar V
  start : String
  allowPartial : Bool := false
  accepted : grammar.check start = none

structure Parsed (V : Type) where
  value : V
  unconsumed : String
  deriving DecidableEq, Repr

inductive Error where
  | parse (error : ParseError)
  | inconsistent (reason : String)
  | fault (why : Fault)
  deriving DecidableEq, Repr

namespace Error

def message : Error → String
  | parse error => error.message
  | inconsistent reason => "grammar inconsistency: " ++ reason
  | fault .offBoundary => "position outside the input"
  | fault .runaway => "endless recursion"

end Error

structure Run (V : Type) where
  result : Except Error (Parsed V)
  journal : List Record

namespace Abort

def reason : Abort → String
  | rejected reason _ => reason
  | undefinedRule name => s!"undefined rule `{name}`"
  | inconsistent rule reason => s!"rule `{rule}`: {reason}"
  | fault why => (Error.fault why).message

end Abort

namespace Parser

variable {V : Type}

/-- The parser for a grammar, or the first defect of the grammar. -/
def ofGrammar (g : Grammar V) (start : String) : Except Defect (Parser V) :=
  match h : g.check start with
  | none => .ok { grammar := g, start, accepted := h }
  | some defect => .error defect

def startRule (p : Parser V) : Rule V :=
  (p.grammar.find? p.start).get (by rw [Grammar.isSome_find?, Grammar.defines_of_check p.accepted])

def withPartial (p : Parser V) (allowPartial : Bool) : Parser V := { p with allowPartial }

def ofAbort (file : Option String) : Abort → Error
  | .rejected reason start => .parse ⟨.rejected reason, start, file⟩
  | .fault why => .fault why
  | why => .inconsistent why.reason

def abortRecord : Abort → Record
  | .rejected reason start => .parseRejected start reason
  | why => .parseInconsistent why.reason

/-- What the outcome of the start rule means for the parse, and its closing record. -/
def close (source : Source) (file : Option String) (allowPartial : Bool) (failures : Failures) :
    Outcome (Position × Match V) → Except Error (Parsed V) × Record
  | .aborted why => (.error (ofAbort file why), abortRecord why)
  | .failed =>
    let error := ParseError.ofFailures failures file
    (.error (.parse error), .parseFailed error.message)
  | .matched (stop, m) =>
    match source.rest? stop with
    | none => (.error (.fault .offBoundary), abortRecord (.fault .offBoundary))
    | some rest =>
      if rest.isEmpty || allowPartial then
        (.ok ⟨m.value, String.ofList rest⟩, .parseMatched stop)
      else (.error (.parse ⟨.unconsumed rest, stop, file⟩), .parseLeftOver stop)

variable [Value V]

/-- Parse from the start rule. `allowPartial` decides whether input may be left over; `file` is named in
messages. -/
def run (p : Parser V) (input : String) (file : Option String) (allowPartial : Bool) : Run V :=
  let s := Session.ofText p.grammar input.toList
  let opened : State V := State.initial.record (.parseOpened s.source.size p.start)
  match s.invoke s.budget p.startRule Position.start opened with
  | (outcome, st) =>
    match close s.source file allowPartial st.failures outcome with
    | (result, closing) => ⟨result, (closing :: st.journal).reverse⟩

def parse (p : Parser V) (input : String) : Except Error V :=
  (p.run input none p.allowPartial).result.map Parsed.value

def parseFile (p : Parser V) (input file : String) : Except Error V :=
  (p.run input (some file) p.allowPartial).result.map Parsed.value

/-- The value of the beginning of an input, and what is left over. -/
def parsePartial (p : Parser V) (input : String) : Except Error (Parsed V) :=
  (p.run input none true).result

end Parser

end Packrat
