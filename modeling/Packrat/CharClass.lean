/-! Classes of characters: listed characters and inclusive ranges, possibly negated. Coverage of one class by
another is decided on the spans of code points that they list. -/
namespace Packrat

structure CharClass where
  chars : List Char := []
  /-- From first to last; a range that runs backwards holds nothing. -/
  ranges : List (Char × Char) := []
  negated : Bool := false
  label : Option String := none
  deriving DecidableEq, Repr

namespace CharClass

def empty : CharClass := {}

def addChars (k : CharClass) (text : String) : CharClass :=
  { k with chars := k.chars ++ text.toList }

def addRange (k : CharClass) (lo hi : Char) : CharClass :=
  { k with ranges := k.ranges ++ [(lo, hi)] }

def negate (k : CharClass) : CharClass := { k with negated := !k.negated }

def withLabel (k : CharClass) (label : String) : CharClass := { k with label := some label }

def lists (k : CharClass) (c : Char) : Bool :=
  k.chars.contains c || k.ranges.any fun r => r.1 ≤ c && c ≤ r.2

def contains (k : CharClass) (c : Char) : Bool := k.lists c != k.negated

def backwardsRange? (k : CharClass) : Option (Char × Char) :=
  k.ranges.find? fun r => r.2 < r.1

def text (k : CharClass) : String :=
  "[" ++ (if k.negated then "^" else "") ++ String.ofList k.chars ++
    String.join (k.ranges.map fun r => String.ofList [r.1, '-', r.2]) ++ "]"

def describe (k : CharClass) : String := k.label.getD k.text

end CharClass

structure Span where
  lo : Nat
  hi : Nat
  deriving DecidableEq, Repr

namespace Span

def before (a b : Span) : Bool := a.lo < b.lo || (a.lo == b.lo && a.hi ≤ b.hi)

/-- Spans in increasing order, joined to `current` where they overlap or touch it. -/
def joinFrom (current : Span) : List Span → List Span
  | [] => [current]
  | next :: rest =>
    if next.lo ≤ current.hi + 1 then joinFrom ⟨current.lo, max current.hi next.hi⟩ rest
    else current :: joinFrom next rest

def join : List Span → List Span
  | [] => []
  | first :: rest => joinFrom first rest

def within (inner outer : List Span) : Bool :=
  inner.all fun a => outer.any fun b => b.lo ≤ a.lo && a.hi ≤ b.hi

def disjoint (left right : List Span) : Bool :=
  left.all fun a => right.all fun b => a.hi < b.lo || b.hi < a.lo

end Span

namespace CharClass

def listed (k : CharClass) : List Span :=
  k.chars.map (fun c => ⟨c.toNat, c.toNat⟩) ++
    (k.ranges.filter fun r => r.1 ≤ r.2).map fun r => ⟨r.1.toNat, r.2.toNat⟩

/-- The same code points as spans in increasing order, with a gap between any two. -/
def spans (k : CharClass) : List Span := Span.join (k.listed.mergeSort Span.before)

/-- Every character of `other` belongs to `k`. A negated class is taken to be covered only by a
negated one. -/
def covers (k other : CharClass) : Bool :=
  match k.negated, other.negated with
  | false, false => Span.within other.spans k.spans
  | true, false => Span.disjoint other.spans k.spans
  | true, true => Span.within k.spans other.spans
  | false, true => false

end CharClass

end Packrat
