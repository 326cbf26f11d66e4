import Packrat.CharClass
import Packrat.Text
import Packrat.Text.Lowercase

/-! Literal texts, compared exactly or without regard to case, and parsing expressions: the bodies of rules. -/
namespace Packrat

structure Literal where
  text : String
  ignoreCase : Bool
  deriving DecidableEq, Repr

namespace Literal

/-- The size in bytes of the beginning of `rest` that agrees with `expected` up to the case of single
characters. -/
def foldedSize? : List Char → List Char → Option Nat
  | [], _ => some 0
  | _ :: _, [] => none
  | e :: expected, c :: rest =>
    if Text.lowerChar c = Text.lowerChar e then (foldedSize? expected rest).map (c.utf8Size + ·)
    else none

def matchSize? (l : Literal) (rest : List Char) : Option Nat :=
  if l.ignoreCase then foldedSize? l.text.toList rest
  else if l.text.toList.isPrefixOf rest then some (Text.byteSize l.text.toList)
  else none

/-- The literal is taken to match wherever `later` does. Texts are lowered as a whole here, so that
context counts. -/
def shadows (l later : Literal) : Bool :=
  if l.ignoreCase then
    (Text.lowerText l.text.toList).isPrefixOf (Text.lowerText later.text.toList)
  else !later.ignoreCase && l.text.toList.isPrefixOf later.text.toList

end Literal

inductive Expr where
  | literal (text : Literal)
  | charClass (members : CharClass)
  | seq (parts : List Expr)
  | choice (alternatives : List Expr)
  | repeated (body : Expr) (min : Nat) (max : Option Nat)
  /-- Matches nothing where the body matches. -/
  | ahead (body : Expr)
  /-- Matches nothing where the body fails. -/
  | notAhead (body : Expr)
  | ref (name : String)
  | endOfInput

namespace Expr

def lit (text : String) : Expr := literal ⟨text, false⟩

def ilit (text : String) : Expr := literal ⟨text, true⟩

def opt (body : Expr) : Expr := repeated body 0 (some 1)

def star (body : Expr) : Expr := repeated body 0 none

def plus (body : Expr) : Expr := repeated body 1 none

mutual

/-- The expression and every expression in it, parents first. -/
def subexprs : Expr → List Expr
  | seq parts => seq parts :: subexprsOf parts
  | choice alternatives => choice alternatives :: subexprsOf alternatives
  | repeated body min max => repeated body min max :: subexprs body
  | ahead body => ahead body :: subexprs body
  | notAhead body => notAhead body :: subexprs body
  | literal text => [literal text]
  | charClass members => [charClass members]
  | ref name => [ref name]
  | endOfInput => [endOfInput]

def subexprsOf : List Expr → List Expr
  | [] => []
  | e :: rest => subexprs e ++ subexprsOf rest

end

def ref? : Expr → Option String
  | ref name => some name
  | _ => none

def refs (e : Expr) : List String := e.subexprs.filterMap ref?

@[simp] theorem refs_ref (name : String) : (ref name).refs = [name] := rfl

@[simp] theorem refs_ahead (body : Expr) : (ahead body).refs = body.refs := by
  simp [refs, subexprs, ref?, List.filterMap_cons]

@[simp] theorem refs_notAhead (body : Expr) : (notAhead body).refs = body.refs := by
  simp [refs, subexprs, ref?, List.filterMap_cons]

@[simp] theorem refs_repeated (body : Expr) (min : Nat) (max : Option Nat) :
    (repeated body min max).refs = body.refs := by
  simp [refs, subexprs, ref?, List.filterMap_cons]

@[simp] theorem refs_seq_cons (e : Expr) (rest : List Expr) :
    (seq (e :: rest)).refs = e.refs ++ (seq rest).refs := by
  simp [refs, subexprs, subexprsOf, ref?, List.filterMap_cons]

@[simp] theorem refs_choice_cons (e : Expr) (rest : List Expr) :
    (choice (e :: rest)).refs = e.refs ++ (choice rest).refs := by
  simp [refs, subexprs, subexprsOf, ref?, List.filterMap_cons]

mutual

def same : Expr → Expr → Bool
  | literal a, literal b => a == b
  | charClass a, charClass b => a == b
  | seq a, seq b => sameAll a b
  | choice a, choice b => sameAll a b
  | repeated a min max, repeated b min' max' => same a b && min == min' && max == max'
  | ahead a, ahead b => same a b
  | notAhead a, notAhead b => same a b
  | ref a, ref b => a == b
  | endOfInput, endOfInput => true
  | _, _ => false

def sameAll : List Expr → List Expr → Bool
  | [], [] => true
  | a :: as, b :: bs => same a b && sameAll as bs
  | _, _ => false

end

end Expr

end Packrat
