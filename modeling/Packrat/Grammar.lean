import Packrat.Expr
import Packrat.Fold

/-! Named rules, grammars of rules in the order of their declaration, and the defects that a grammar can have. -/
namespace Packrat

inductive Trace where
  | off
  | matches
  | failures
  | all
  deriving DecidableEq, Repr

namespace Trace

def notesMatches : Trace → Bool
  | .matches | .all => true
  | .off | .failures => false

def notesFailures : Trace → Bool
  | .failures | .all => true
  | .off | .matches => false

end Trace

structure Rule (V : Type) where
  name : String
  body : Expr
  fold : Option (Fold V) := none
  /-- When the rule fails, this label stands for everything that failed in it. -/
  label : Option String := none
  /-- The match of a silent rule is not passed on to the rule that refers to it. -/
  silent : Bool := false
  /-- The outcome at an offset is kept for the rest of the parse. -/
  cached : Bool := false
  trace : Trace := .off

namespace Rule

/-- The failures inside the rule are collected apart: a label may replace them, a kept outcome has to
repeat them. -/
def isolated (r : Rule V) : Bool := r.cached || r.label.isSome

end Rule

structure Grammar (V : Type) where
  rules : List (Rule V) := []
  /-- Names declared again, in order; the later rules themselves are dropped. -/
  duplicates : List String := []
  distinct : (rules.map Rule.name).Nodup := by simp

namespace Grammar

def empty : Grammar V := {}

def find? (g : Grammar V) (name : String) : Option (Rule V) :=
  g.rules.find? fun r => r.name == name

def index? (g : Grammar V) (name : String) : Option Nat :=
  g.rules.findIdx? fun r => r.name == name

def defines (g : Grammar V) (name : String) : Bool := g.rules.any fun r => r.name == name

theorem isSome_find? (g : Grammar V) (name : String) : (g.find? name).isSome = g.defines name := by
  rw [Bool.eq_iff_iff, find?, List.find?_isSome, defines, List.any_eq_true]

/-- Declare a rule. A name that is taken keeps its first rule. -/
def add (g : Grammar V) (r : Rule V) : Grammar V :=
  if taken : g.defines r.name then
    { g with duplicates := g.duplicates ++ [r.name] }
  else
    { g with
      rules := g.rules ++ [r]
      distinct := by
        have fresh : r.name ∉ g.rules.map Rule.name := by simpa [defines] using taken
        rw [List.map_append, List.nodup_append]
        refine ⟨g.distinct, by simp, fun a ha b hb => ?_⟩
        obtain rfl : b = r.name := by simpa using hb
        exact fun h => fresh (h ▸ ha) }

def ofRules (rules : List (Rule V)) : Grammar V := rules.foldl add empty

end Grammar

inductive Defect where
  | duplicateRule (name : String)
  | undefinedRule (name user : String)
  | missingStart (name : String)
  /-- A chain of rules, the last the same as the first, each used by the one before it where nothing
  need have been consumed. -/
  | leftRecursion (path : List String)
  | invalidRepeat (rule : String) (min max : Nat)
  | backwardsRange (rule : String) (lo hi : Char)
  | unreachableAlternative (rule : String)
  deriving DecidableEq, Repr

namespace Defect

def message : Defect → String
  | duplicateRule name => s!"duplicate rule `{name}`"
  | undefinedRule name user => s!"undefined rule `{name}` referenced from `{user}`"
  | missingStart name => s!"missing start rule `{name}`"
  | leftRecursion path =>
    "left recursive rules create an infinite loop: " ++ " -> ".intercalate path
  | invalidRepeat rule min max =>
    s!"repetition in rule `{rule}` allows {min} to {max} matches; " ++
      "max must be positive and at least min"
  | backwardsRange rule lo hi => s!"backwards range `{lo}-{hi}` in rule `{rule}`"
  | unreachableAlternative rule => s!"unreachable alternative in rule `{rule}`"

end Defect

end Packrat
