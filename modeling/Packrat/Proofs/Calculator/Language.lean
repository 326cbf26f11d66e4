import Packrat.Calculator

/-! The language of the calculator, as a context-free grammar: derivations, the text that they spell and
the number that they stand for. Sums and products are chains of operands at two levels. -/
namespace Packrat.Calculator

def isBlank (c : Char) : Bool := c == ' ' || c == '\t' || c == '\r' || c == '\n'

@[ext]
structure Blanks where
  chars : List Char
  blank : ∀ c ∈ chars, isBlank c

@[ext]
structure Digits where
  chars : List Char
  nonempty : chars ≠ []
  digit : ∀ c ∈ chars, c.isDigit

@[ext]
structure Numeral where
  whole : Digits
  fraction : Option Digits

namespace Numeral

def tail (n : Numeral) : List Char := n.fraction.elim [] fun digits => '.' :: digits.chars

def text (n : Numeral) : List Char := n.whole.chars ++ n.tail

/-- The number that the numeral reads as. -/
def value (n : Numeral) : Float := (Number.read? n.text).getD 0

def isFinite (n : Numeral) : Bool := (Number.read? n.text).any Float.isFinite

end Numeral

/-- Products bind tighter than sums. -/
inductive Level where
  | product
  | sum

inductive Operator : Level → Type where
  | times : Operator .product
  | divide : Operator .product
  | plus : Operator .sum
  | minus : Operator .sum

namespace Operator

variable {l : Level}

def char : Operator l → Char
  | times => '*'
  | divide => '/'
  | plus => '+'
  | minus => '-'

def apply : Operator l → Float → Float → Float
  | times => (· * ·)
  | divide => (· / ·)
  | plus => (· + ·)
  | minus => (· - ·)

theorem char_inj {op op' : Operator l} (same : op.char = op'.char) : op = op' := by
  cases op <;> cases op' <;> first | rfl | simp [char] at same

end Operator

/-- What is derived. An operand of a product is a number or a sum in parentheses, an operand of a sum is a
product; a chain is an operand with others after it, each with an operator before it. -/
inductive Symbol where
  | start
  | operand (l : Level)
  | chain (l : Level)
  | others (l : Level)

/-- The others after an operand make a number from the one before them. -/
abbrev Symbol.Meaning : Symbol → Type
  | others _ => Float → Float
  | _ => Float

inductive Derivation : Symbol → Type where
  | start (before : Blanks) (sum : Derivation (.chain .sum)) : Derivation .start
  | number (n : Numeral) (after : Blanks) : Derivation (.operand .product)
  | paren (before : Blanks) (inner : Derivation (.chain .sum)) (after : Blanks) :
      Derivation (.operand .product)
  | product (p : Derivation (.chain .product)) : Derivation (.operand .sum)
  | chain (first : Derivation (.operand l)) (others : Derivation (.others l)) : Derivation (.chain l)
  | done : Derivation (.others l)
  | more (op : Operator l) (before : Blanks) (next : Derivation (.operand l))
      (others : Derivation (.others l)) : Derivation (.others l)

namespace Derivation

variable {X : Symbol}

def text : {X : Symbol} → Derivation X → List Char
  | _, start before sum => before.chars ++ sum.text
  | _, number n after => n.text ++ after.chars
  | _, paren before inner after => '(' :: before.chars ++ inner.text ++ ')' :: after.chars
  | _, product p => p.text
  | _, chain first others => first.text ++ others.text
  | _, done => []
  | _, more op before next others => op.char :: before.chars ++ next.text ++ others.text

section Text

variable {l : Level}

@[simp] theorem text_start (before : Blanks) (sum : Derivation (.chain .sum)) :
    (start before sum).text = before.chars ++ sum.text := rfl

@[simp] theorem text_number (n : Numeral) (after : Blanks) :
    (number n after).text = n.text ++ after.chars := rfl

@[simp] theorem text_paren (before : Blanks) (inner : Derivation (.chain .sum)) (after : Blanks) :
    (paren before inner after).text = '(' :: before.chars ++ inner.text ++ ')' :: after.chars := rfl

@[simp] theorem text_product (p : Derivation (.chain .product)) : (product p).text = p.text := rfl

@[simp] theorem text_chain (first : Derivation (.operand l)) (others : Derivation (.others l)) :
    (chain first others).text = first.text ++ others.text := rfl

@[simp] theorem text_done : (done : Derivation (.others l)).text = [] := rfl

@[simp] theorem text_more (op : Operator l) (before : Blanks) (next : Derivation (.operand l))
    (others : Derivation (.others l)) :
    (more op before next others).text = op.char :: before.chars ++ next.text ++ others.text := rfl

end Text

/-- Each level associates to the left. -/
def value : {X : Symbol} → Derivation X → X.Meaning
  | _, start _ sum => sum.value
  | _, number n _ => n.value
  | _, paren _ inner _ => inner.value
  | _, product p => p.value
  | _, chain first others => others.value first.value
  | _, done => id
  | _, more op _ next others => fun acc => others.value (op.apply acc next.value)

/-- The numerals from left to right with their places, for a text that begins at `pos`. -/
def numerals : {X : Symbol} → Derivation X → Position → List (Position × Numeral)
  | _, start before sum, pos => sum.numerals (pos.advanceOver before.chars)
  | _, number n _, pos => [(pos, n)]
  | _, paren before inner _, pos => inner.numerals (pos.advanceOver ('(' :: before.chars))
  | _, product p, pos => p.numerals pos
  | _, chain first others, pos => first.numerals pos ++ others.numerals (pos.advanceOver first.text)
  | _, done, _ => []
  | _, more op before next others, pos =>
    let there := pos.advanceOver (op.char :: before.chars)
    next.numerals there ++ others.numerals (there.advanceOver next.text)

/-- The leftmost numeral that does not read as a finite number. -/
def overflow? (d : Derivation X) (pos : Position) : Option (Position × Numeral) :=
  (d.numerals pos).find? fun t => !t.2.isFinite

end Derivation

end Packrat.Calculator
