import Packrat.Source
import Packrat.Text

/-! Matches, and folds: how the value of a rule is made from the matches of its body, in order. -/
namespace Packrat

class Value (V : Type) where
  /-- The value of a single literal or character, and of a rule without a fold. -/
  ofText : List Char → V

instance : Value String := ⟨String.ofList⟩

instance : Value Unit := ⟨fun _ => ()⟩

structure Match (V : Type) where
  text : List Char
  value : V
  start : Position
  deriving DecidableEq, Repr

inductive FoldError where
  /-- The input is well formed and not acceptable. -/
  | reject (reason : String)
  /-- The fold does not fit the body of its rule. -/
  | inconsistent (reason : String)
  deriving DecidableEq, Repr

abbrev Fold (V : Type) := List (Match V) → Except FoldError V

namespace Fold

def nth (index : Nat) : Fold V := fun children =>
  match children[index]? with
  | some child => .ok child.value
  | none =>
    .error (.inconsistent s!"expected at least {index + 1} results, found {children.length}")

def first : Fold V := nth 0

def operator (m : Match V) : String := String.ofList (Text.trim m.text)

/-- Combine from the left along operators and operands, which alternate. -/
def accumulate (apply : V → String → V → Option V) (acc : V) : Fold V
  | token :: operand :: rest =>
    match apply acc (operator token) operand.value with
    | some value => accumulate apply value rest
    | none => .error (.inconsistent s!"unexpected operator '{operator token}'")
  | _ => .ok acc

/-- The left fold over operand, operator, operand, … An operator that `apply` does not know, or that
has no operand after it, is inconsistent. The latter is found before anything is applied. -/
def binary (apply : V → String → V → Option V) : Fold V
  | [] => .error (.inconsistent "no operand to fold")
  | head :: tail =>
    match if tail.length % 2 = 1 then tail.getLast? else none with
    | some token => .error (.inconsistent s!"operator '{operator token}' without an operand")
    | none => accumulate apply head.value tail

end Fold

end Packrat
