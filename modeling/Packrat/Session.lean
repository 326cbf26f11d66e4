import Packrat.Failures
import Packrat.Fold
import Packrat.Grammar
import Packrat.Source
import Std.Data.TreeMap

/-! A session: one input under one grammar, and the state that evaluation hands from step to step, with the
outcomes kept of cached rules and the journal of what was tried and what came of it. -/
namespace Packrat

namespace Memo

structure Entry (V : Type) where
  result : Option (Position × Match V)
  /-- What the outcome contributes to the failures each time it is used. -/
  failures : Failures

end Memo

structure Memo (V : Type) where
  atOffset : Std.TreeMap Nat (List (String × Memo.Entry V))

namespace Memo

def empty : Memo V := ⟨∅⟩

def find? (m : Memo V) (rule : String) (offset : Nat) : Option (Entry V) :=
  (m.atOffset.getD offset []).lookup rule

def insert (m : Memo V) (rule : String) (offset : Nat) (entry : Entry V) : Memo V :=
  ⟨m.atOffset.insert offset ((rule, entry) :: m.atOffset.getD offset [])⟩

@[simp] theorem find?_empty (rule : String) (offset : Nat) :
    (empty : Memo V).find? rule offset = none := by
  simp [empty, find?]

theorem find?_insert (m : Memo V) (rule rule' : String) (offset offset' : Nat) (entry : Entry V) :
    (m.insert rule offset entry).find? rule' offset' =
      if rule = rule' ∧ offset = offset' then some entry else m.find? rule' offset' := by
  by_cases same : offset = offset'
  · subst same
    by_cases named : rule = rule'
    · subst named
      simp [insert, find?]
    · have apart : (rule' == rule) = false := by simpa using Ne.symm named
      simp [insert, find?, List.lookup_cons, apart, named]
  · simp [insert, find?, Std.TreeMap.getD_insert, same]

end Memo

/-- Detail records follow the evaluation, note records are for the user of the grammar. -/
inductive Level where
  | note
  | detail
  deriving DecidableEq, Repr

inductive Record where
  | attempted (rule : String) (start : Position)
  | recalled (rule : String) (start : Position) (hit : Bool)
  | matched (rule : String) (start stop : Position)
  | failed (rule : String) (start : Position)
  /-- The rule's fold was applied to matches that began at these places, and gave a value or an error.
  Shown at no level. -/
  | folded (rule : String) (start : Position) (children : List Position) (error : Option FoldError)
  | matchNoted (rule : String) (start stop : Position)
  | failureNoted (rule : String) (start : Position)
  | parseOpened (size : Nat) (rule : String)
  | parseRejected (place : Position) (reason : String)
  | parseInconsistent (reason : String)
  | parseFailed (message : String)
  | parseLeftOver (stop : Position)
  | parseMatched (stop : Position)
  deriving DecidableEq, Repr

namespace Record

def level? : Record → Option Level
  | attempted .. | recalled .. | matched .. | failed .. => some .detail
  | folded .. => none
  | _ => some .note

def text : Record → String
  | attempted rule start => "Attempting to match rule " ++ rule ++ " at " ++ start.text
  | recalled rule start hit =>
    (if hit then "Cached match of rule " else "Cached fail of rule ") ++ rule ++ " at " ++ start.text
  | matched rule start stop =>
    "Matched rule " ++ rule ++ " at " ++ start.text ++ " to " ++ stop.text
  | failed rule start => "Failed to match rule " ++ rule ++ " at " ++ start.text
  | folded rule start _ _ => "folded rule " ++ rule ++ " at " ++ start.text
  | matchNoted rule start stop =>
    "matched rule " ++ rule ++ " at " ++ start.text ++ " to " ++ stop.text
  | failureNoted rule start => "failed to match rule " ++ rule ++ " at " ++ start.text
  | parseOpened size rule => s!"parsing {size} bytes from rule {rule}"
  | parseRejected place reason => "rejected at " ++ place.text ++ ": " ++ reason
  | parseInconsistent reason => "grammar inconsistency: " ++ reason
  | parseFailed message => "failed: " ++ message
  | parseLeftOver stop => "matched to " ++ stop.text ++ " with input left over"
  | parseMatched stop => "matched to " ++ stop.text

end Record

/-- Records with the newest first. -/
abbrev Journal := List Record

/-- Why evaluation could not go on although no rule asked for an end. No grammar that passes the check
leads here. -/
inductive Fault where
  /-- A position that stands beyond the input or inside a character. -/
  | offBoundary
  /-- A rule that was entered more often than there are rules and places to enter them. -/
  | runaway
  deriving DecidableEq, Repr

/-- An end of the whole evaluation, over which nothing backtracks. -/
inductive Abort where
  | rejected (reason : String) (start : Position)
  | undefinedRule (name : String)
  | inconsistent (rule reason : String)
  | fault (why : Fault)
  deriving DecidableEq, Repr

inductive Outcome (α : Type) where
  | matched (value : α)
  | failed
  | aborted (why : Abort)
  deriving DecidableEq, Repr

structure Session (V : Type) where
  grammar : Grammar V
  source : Source

structure State (V : Type) where
  /-- Matches made so far, the newest first. -/
  out : List (Match V) := []
  failures : Failures := {}
  memo : Memo V := Memo.empty
  journal : Journal := []

namespace State

def initial : State V := {}

def push (st : State V) (m : Match V) : State V := { st with out := m :: st.out }

def mark (st : State V) (pos : Position) (label : String) : State V :=
  { st with failures := st.failures.mark pos label }

def record (st : State V) (r : Record) : State V := { st with journal := r :: st.journal }

@[simp] theorem journal_record (st : State V) (r : Record) :
    (st.record r).journal = r :: st.journal := rfl

def backTo (st before : State V) : State V := { st with out := before.out }

end State

namespace Session

def ofText (g : Grammar V) (input : List Char) : Session V := ⟨g, Source.ofText input⟩

/-- As many rules can be active at once as there are rules and places to enter them. -/
def budget (s : Session V) : Nat := s.grammar.rules.length * (s.source.size + 1)

end Session

end Packrat
