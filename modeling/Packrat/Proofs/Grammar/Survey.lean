import Packrat.Grammar.Check

/-! The check of a grammar as a run that keeps the rules it is in on one stack, pushed and popped as it goes,
and that looks at nothing else to come to an end. Calls may lie in each other up to some depth, and a run
that goes deeper has no result: one without end has none for any depth. The run notes with which stack
each call was entered and left. -/
namespace Packrat

namespace Survey

structure Passage where
  before : List String
  after : List String
  deriving DecidableEq, Repr

structure Notes where
  stack : List String := []
  calls : List Passage := []
  queries : List Passage := []
  defects : List Defect := []

end Survey

abbrev Survey := StateT Survey.Notes Option

namespace Survey

variable {V : Type}

def stack : Survey (List String) := return (← get).stack

def push (name : String) : Survey Unit :=
  modify fun notes => { notes with stack := notes.stack ++ [name] }

def pop : Survey Unit := modify fun notes => { notes with stack := notes.stack.dropLast }

def report (defect : Defect) : Survey Unit :=
  modify fun notes => { notes with defects := notes.defects ++ [defect] }

def returned (before : List String) : Survey Unit :=
  modify fun notes => { notes with calls := notes.calls ++ [⟨before, notes.stack⟩] }

def searchForm (g : Grammar V) (search : Expr → Survey Bool) : Expr → Survey Bool
  | .literal l => return l.text.isEmpty
  | .charClass _ | .notAhead _ | .endOfInput => return false
  | .seq parts => parts.allM search
  | .choice alternatives => alternatives.anyM search
  | .ahead body => search body
  | .repeated body min max =>
    if min == 0 || max == some 0 then return true
    else if min == 1 then search body
    else return false
  | .ref name => do
    if (← stack).contains name then return false
    else
      match g.find? name with
      | none => return false
      | some r =>
        push r.name
        let always ← search r.body
        pop
        return always

def search (g : Grammar V) : Nat → Expr → Survey Bool
  | 0, _ => failure
  | depth + 1, e => do
    let before ← stack
    let always ← searchForm g (search g depth) e
    returned before
    return always

def walkRule (walk : Expr → Survey Bool) (r : Rule V) : Survey Bool := do
  let before ← stack
  push r.name
  let nullable ← walk r.body
  pop
  returned before
  return nullable

def walkForm (g : Grammar V) (walk : Expr → Survey Bool) : Expr → Survey Bool
  | .literal l => return l.text.isEmpty
  | .charClass _ => return false
  | .endOfInput => return true
  | .seq parts => parts.allM walk
  | .choice alternatives =>
    alternatives.foldlM (fun nullable e => do return nullable || (← walk e)) false
  | .ahead body | .notAhead body => do
    let _ ← walk body
    return true
  | .repeated body min _ => return (← walk body) || min == 0
  | .ref name => do
    let callers ← stack
    if callers.contains name then
      report (.leftRecursion (callers.dropWhile (· != name) ++ [name]))
      return false
    else
      match g.find? name with
      | none => return false
      | some r => walkRule walk r

/-- May the expression match without consuming input? The chains of rules that close on the way are
reported. -/
def walk (g : Grammar V) : Nat → Expr → Survey Bool
  | 0, _ => failure
  | depth + 1, e => do
    let before ← stack
    let nullable ← walkForm g (walk g depth) e
    returned before
    return nullable

def query (call : Survey Bool) : Survey Bool := do
  let before ← stack
  let answer ← call
  modify fun notes => { notes with queries := notes.queries ++ [⟨before, notes.stack⟩] }
  return answer

def unreachableAlternative (g : Grammar V) (depth : Nat) (alternatives : List Expr) : Survey Bool := do
  if ← alternatives.dropLast.anyM fun e => query (search g depth e) then return true
  else return Expr.anyHidden alternatives

def examine (g : Grammar V) (depth : Nat) (rule : String) : Expr → Survey Unit
  | .ref name => do
    if !g.defines name then report (.undefinedRule name rule)
  | .repeated _ min (some max) => do
    if max = 0 ∨ max < min then report (.invalidRepeat rule min max)
  | .charClass k => k.backwardsRange?.forM fun r => report (.backwardsRange rule r.1 r.2)
  | .choice alternatives => do
    if ← unreachableAlternative g depth alternatives then report (.unreachableAlternative rule)
  | _ => return ()

/-- The whole check, with calls up to this depth. The walk begins with a stack of its own. -/
def check (g : Grammar V) (depth : Nat) : Survey Unit := do
  g.rules.forM fun r => r.body.subexprs.forM (examine g depth r.name)
  if g.closed then
    modify fun notes => { notes with stack := [] }
    g.rules.forM fun r => discard (query (walkRule (walk g depth) r))

end Survey

end Packrat
