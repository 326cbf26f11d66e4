import Packrat.CharClass
import Packrat.Grammar

/-! The check that a grammar passes before it is used. It looks for alternatives that are never tried, since an
earlier one matches wherever they do, and for chains of rules that lead back to their first rule before any input
need have been consumed. -/
namespace Packrat

namespace Expr

mutual

/-- The expression always matches, given which rules do. A repetition counts an empty match once, so
only a minimum of one survives a body that matches nothing. -/
def alwaysMatches (rule : String → Bool) : Expr → Bool
  | literal l => l.text.isEmpty
  | seq parts => allAlwaysMatch rule parts
  | choice alternatives => anyAlwaysMatches rule alternatives
  | repeated body min max => min == 0 || max == some 0 || (min == 1 && alwaysMatches rule body)
  | ahead body => alwaysMatches rule body
  | ref name => rule name
  | charClass _ | notAhead _ | endOfInput => false

def allAlwaysMatch (rule : String → Bool) : List Expr → Bool
  | [] => true
  | e :: rest => alwaysMatches rule e && allAlwaysMatch rule rest

def anyAlwaysMatches (rule : String → Bool) : List Expr → Bool
  | [] => false
  | e :: rest => alwaysMatches rule e || anyAlwaysMatches rule rest

end

/-- Wherever the second expression matches, so does the first, as far as two literals or two classes
show it. -/
def hides : Expr → Expr → Bool
  | literal a, literal b => a.shadows b
  | charClass a, charClass b => a.covers b
  | _, _ => false

def anyHidden : List Expr → Bool
  | [] => false
  | e :: rest => rest.any (hides e) || anyHidden rest

end Expr

namespace Grammar

/-- The rule always matches. Undefined rules and those on the stack count as fallible. Each rule
entered takes one unit of fuel, and none is entered twice. -/
def ruleAlwaysMatches (g : Grammar V) : Nat → List String → String → Bool
  | fuel, stack, name =>
    if stack.contains name then false
    else
      match g.find? name, fuel with
      | some r, fuel + 1 => r.body.alwaysMatches (ruleAlwaysMatches g fuel (name :: stack))
      | _, _ => false

def alwaysMatches (g : Grammar V) (e : Expr) : Bool :=
  e.alwaysMatches (g.ruleAlwaysMatches g.rules.length [])

def unreachableAlternative (g : Grammar V) (alternatives : List Expr) : Bool :=
  alternatives.dropLast.any g.alwaysMatches || Expr.anyHidden alternatives

end Grammar

structure Walk where
  nullable : Bool
  loops : List (List String) := []

namespace Expr

mutual

/-- Walk to the places that can be reached without consuming input, given the walk of a rule. -/
def walk (rule : String → Walk) : Expr → Walk
  | literal l => ⟨l.text.isEmpty, []⟩
  | charClass _ => ⟨false, []⟩
  | endOfInput => ⟨true, []⟩
  | seq parts => walkSeq rule parts
  | choice alternatives => walkChoice rule alternatives
  | repeated body min _ =>
    let w := walk rule body
    ⟨w.nullable || min == 0, w.loops⟩
  | ahead body => ⟨true, (walk rule body).loops⟩
  | notAhead body => ⟨true, (walk rule body).loops⟩
  | ref name => rule name

def walkSeq (rule : String → Walk) : List Expr → Walk
  | [] => ⟨true, []⟩
  | e :: rest =>
    let w := walk rule e
    if w.nullable then
      let ws := walkSeq rule rest
      ⟨ws.nullable, w.loops ++ ws.loops⟩
    else w

def walkChoice (rule : String → Walk) : List Expr → Walk
  | [] => ⟨false, []⟩
  | e :: rest =>
    let w := walk rule e
    let ws := walkChoice rule rest
    ⟨w.nullable || ws.nullable, w.loops ++ ws.loops⟩

end

end Expr

namespace Grammar

/-- Walk into the rule of that name from the rules on the stack, outermost first. Where the name is on
the stack, a chain closes. Each rule entered takes one unit of fuel, and none is entered twice. -/
def walkRule (g : Grammar V) : Nat → List String → String → Walk
  | fuel, stack, name =>
    if stack.contains name then ⟨false, [stack.dropWhile (· != name) ++ [name]]⟩
    else
      match g.find? name, fuel with
      | some r, fuel + 1 => r.body.walk (walkRule g fuel (stack ++ [name]))
      | _, _ => ⟨false, []⟩

def leftRecursions (g : Grammar V) : List (List String) :=
  g.rules.flatMap fun r => (g.walkRule g.rules.length [] r.name).loops

/-- The defect of a single expression of a rule, apart from those in its parts. -/
def defect? (g : Grammar V) (rule : String) : Expr → Option Defect
  | .ref name => if g.defines name then none else some (.undefinedRule name rule)
  | .repeated _ min (some max) =>
    if max = 0 ∨ max < min then some (.invalidRepeat rule min max) else none
  | .charClass k => k.backwardsRange?.map fun r => .backwardsRange rule r.1 r.2
  | .choice alternatives =>
    if g.unreachableAlternative alternatives then some (.unreachableAlternative rule) else none
  | _ => none

def bodyDefects (g : Grammar V) : List Defect :=
  g.rules.flatMap fun r => r.body.subexprs.filterMap (g.defect? r.name)

def closed (g : Grammar V) : Bool :=
  g.rules.all fun r => r.body.refs.all g.defines

/-- All defects of the bodies. Left recursion is looked for only if every reference is defined. -/
def defects (g : Grammar V) : List Defect :=
  g.bodyDefects ++ if g.closed then g.leftRecursions.map .leftRecursion else []

def check (g : Grammar V) (start : String) : Option Defect :=
  match g.duplicates with
  | name :: _ => some (.duplicateRule name)
  | [] => if g.defines start then g.defects.head? else some (.missingStart start)

theorem defines_of_check {g : Grammar V} {start : String} (accepted : g.check start = none) :
    g.defines start := by
  unfold check at accepted
  split at accepted
  · simp at accepted
  · split at accepted
    · assumption
    · simp at accepted

end Grammar

end Packrat
