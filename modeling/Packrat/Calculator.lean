import Packrat.Number
import Packrat.Parser

/-! Arithmetic on floating-point numbers with four operators and parentheses, blanks allowed between tokens. -/
namespace Packrat

/-- Text that is no number, blanks around it apart, has the value NaN. -/
instance : Value Float := ⟨fun text => (Number.read? (Text.trim text)).getD Number.notANumber⟩

namespace Fold

def arith (lhs : Float) (op : String) (rhs : Float) : Option Float :=
  if op = "+" then some (lhs + rhs)
  else if op = "-" then some (lhs - rhs)
  else if op = "*" then some (lhs * rhs)
  else if op = "/" then some (lhs / rhs)
  else none

end Fold

namespace Calculator

def digits : Expr := .plus (.charClass (CharClass.empty.addRange '0' '9'))

def level (operand : String) (operators : List String) : Expr :=
  .seq [.ref operand, .star (.seq [.choice (operators.map .lit), .ref "_", .ref operand])]

/-- The number that the matches spell. It has to be finite. -/
def readNumber : Fold Float := fun children =>
  let text := children.flatMap Match.text
  match (Number.read? text).filter Float.isFinite with
  | some x => .ok x
  | none => .error (.reject ("number " ++ String.ofList text ++ " is out of range"))

def rules : List (Rule Float) := [
  { name := "start", body := .seq [.ref "_", .ref "sum"], fold := some Fold.first },
  { name := "sum", body := level "product" ["+", "-"], fold := some (Fold.binary Fold.arith) },
  { name := "product", body := level "value" ["*", "/"], fold := some (Fold.binary Fold.arith) },
  { name := "value", body := .choice [.ref "number", .ref "paren"], fold := some Fold.first },
  { name := "number"
    body := .seq [digits, .opt (.seq [.lit ".", digits]), .ref "_"]
    fold := some readNumber
    label := some "number" },
  { name := "paren"
    body := .seq [.lit "(", .ref "_", .ref "sum", .lit ")", .ref "_"]
    fold := some (Fold.nth 1)
    label := some "parenthesized expression"
    cached := true },
  { name := "_", body := .star (.ref "space"), silent := true },
  { name := "space"
    body := .charClass (CharClass.empty.addChars " \t\r\n")
    label := some "whitespace" }]

def grammar : Grammar Float := Grammar.ofRules rules

theorem grammar_accepted : grammar.check "start" = none := by decide +kernel

def parser : Parser Float := { grammar, start := "start", accepted := grammar_accepted }

end Calculator

end Packrat
