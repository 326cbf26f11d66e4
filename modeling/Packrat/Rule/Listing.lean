import Packrat.Grammar
import Packrat.Text.Quoted

/-! The listing of a rule, field by field on one line. -/
namespace Packrat

namespace Listing

def record (name : String) (fields : List (String × String)) : String :=
  name ++ " \x7b " ++ ", ".intercalate (fields.map fun f => f.1 ++ ": " ++ f.2) ++ " \x7d"

def list (items : List String) : String := "[" ++ ", ".intercalate items ++ "]"

def bool (b : Bool) : String := if b then "true" else "false"

def nat (n : Nat) : String := s!"{n}"

def option (item : α → String) : Option α → String
  | none => "None"
  | some a => "Some(" ++ item a ++ ")"

def literal (l : Literal) : String :=
  record "Literal" [("text", Text.Quoted.string l.text), ("ignore_case", bool l.ignoreCase)]

def range (r : Char × Char) : String := Text.Quoted.char r.1 ++ "..=" ++ Text.Quoted.char r.2

def charClass (k : CharClass) : String :=
  record "CharClass" [
    ("chars", list (k.chars.map Text.Quoted.char)),
    ("ranges", list (k.ranges.map range)),
    ("negated", bool k.negated),
    ("label", option Text.Quoted.string k.label)]

mutual

def expr : Expr → String
  | .literal l => "LiteralExpr(" ++ literal l ++ ")"
  | .charClass k => "ClassExpr(" ++ charClass k ++ ")"
  | .seq parts => "SeqExpr(" ++ list (exprs parts) ++ ")"
  | .choice alternatives => "ChoiceExpr(" ++ list (exprs alternatives) ++ ")"
  | .repeated body min max =>
    record "RepeatExpr" [("expr", expr body), ("min", nat min), ("max", option nat max)]
  | .ahead body => "PosAssertExpr(" ++ expr body ++ ")"
  | .notAhead body => "NegAssertExpr(" ++ expr body ++ ")"
  | .ref name => "RuleExpr(" ++ Text.Quoted.string name ++ ")"
  | .endOfInput => "EofExpr"

def exprs : List Expr → List String
  | [] => []
  | e :: rest => expr e :: exprs rest

end

def trace : Trace → String
  | .off => "Off"
  | .matches => "Matches"
  | .failures => "Failures"
  | .all => "All"

end Listing

namespace Rule

/-- A fold is only said to be there. -/
def listing (r : Rule V) : String :=
  Listing.record "Rule" [
    ("name", Text.Quoted.string r.name),
    ("expr", Listing.expr r.body),
    ("fold", Listing.option (fun _ => Text.Quoted.string "<fn>") r.fold),
    ("expected", Listing.option Text.Quoted.string r.label),
    ("silent", Listing.bool r.silent),
    ("cached", Listing.bool r.cached),
    ("trace", Listing.trace r.trace)]

end Rule

end Packrat
