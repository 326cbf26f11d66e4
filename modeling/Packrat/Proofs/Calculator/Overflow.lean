import Packrat.Proofs.Calculator.Longest
import Packrat.Proofs.Source

/-! Texts that a number out of range makes unreadable: the leftmost of them is the same in every derivation
of the text. -/
namespace Packrat.Calculator

variable {X : Symbol} {l : Level} {pos : Position} {n : Numeral} {r rest gone : List Char}
  {before after : Blanks}

namespace Derivation

/-- The longest derivation is the only one that stops. -/
theorem Longest.only {x y : Derivation X} {more : List Char} (longest : x.Longest rest)
    (stops : Stops X more) (same : x.text ++ rest = y.text ++ more) : y = x ∧ more = rest := by
  have begins : y.text ++ more <+: x.text ++ rest := ⟨[], by simp [same]⟩
  rcases longest y more stops begins with rfl | short
  · exact ⟨rfl, (List.append_cancel_left same).symm⟩
  · exact (short.ne same).elim

@[simp] theorem overflow?_start (before : Blanks) (sum : Derivation (.chain .sum)) (pos : Position) :
    (start before sum).overflow? pos = sum.overflow? (pos.advanceOver before.chars) := rfl

@[simp] theorem overflow?_number (n : Numeral) (after : Blanks) (pos : Position) :
    (number n after).overflow? pos = if n.isFinite then none else some (pos, n) := by
  change List.find? (fun t => !t.2.isFinite) [(pos, n)] = _
  cases finite : n.isFinite <;> simp [finite]

@[simp] theorem overflow?_paren (before after : Blanks) (inner : Derivation (.chain .sum))
    (pos : Position) : (paren before inner after).overflow? pos =
      inner.overflow? (pos.advanceOver ('(' :: before.chars)) := rfl

@[simp] theorem overflow?_product (p : Derivation (.chain .product)) (pos : Position) :
    (product p).overflow? pos = p.overflow? pos := rfl

@[simp] theorem overflow?_chain (first : Derivation (.operand l)) (others : Derivation (.others l))
    (pos : Position) : (chain first others).overflow? pos =
      (first.overflow? pos).or (others.overflow? (pos.advanceOver first.text)) :=
  List.find?_append

@[simp] theorem overflow?_more (op : Operator l) (before : Blanks) (next : Derivation (.operand l))
    (others : Derivation (.others l)) (pos : Position) : (more op before next others).overflow? pos =
      (next.overflow? (pos.advanceOver (op.char :: before.chars))).or
        (others.overflow? ((pos.advanceOver (op.char :: before.chars)).advanceOver next.text)) :=
  List.find?_append

end Derivation

/-- The text does not end in what could be part of a number. -/
def Apart (gone : List Char) : Prop := Halts isNumeric gone.reverse

theorem Apart.nil : Apart [] := halts_nil _

theorem Apart.append {a b : List Char} (first : b = [] → Apart a) (second : Apart b) :
    Apart (a ++ b) := by
  intro c last
  rw [List.reverse_append] at last
  cases rev : b.reverse with
  | nil =>
    rw [rev, List.nil_append] at last
    exact first (by simpa using rev) c last
  | cons d t =>
    rw [rev] at last
    exact second c (by rw [rev]; exact last)

theorem Apart.blanks (before : Blanks) : Apart before.chars := by
  intro c last
  have member := List.mem_reverse.mp (List.mem_of_mem_head? last)
  exact isNumeric_of_isBlank (before.blank c member)

theorem Apart.operator (op : Operator l) : Apart [op.char] := by
  rintro c ⟨⟩
  cases op <;> rfl

theorem Apart.opening : Apart ['('] := by
  rintro c ⟨⟩
  rfl

theorem Apart.getLast?_ne_point (apart : Apart gone) : gone.getLast? ≠ some '.' := by
  intro point
  have part := apart '.' (by rw [List.head?_reverse, point]; rfl)
  cases part

/-- What stands after such a text, and ends as numerals do, is no part of a longer numeral. -/
theorem Apart.maximal (apart : Apart gone) (ends : n.Ends rest) : n.Maximal gone rest := by
  rintro before n' after same ⟨g, rfl⟩ ⟨a, rfl⟩
  have text : n'.text = g ++ (n.text ++ a) := by
    rw [List.append_assoc, List.append_cancel_left_eq] at same
    exact List.append_cancel_right (by simpa using same)
  rcases List.eq_nil_or_concat g with rfl | ⟨g, c, rfl⟩
  · have begins : n'.text ++ [] <+: n.text ++ (a ++ after) := ⟨after, by simp [text]⟩
    rcases Numeral.unique ends (halts_nil _) begins with rfl | ⟨-, u, nonempty, longer⟩
    · exact ⟨by simp, rfl⟩
    · simp [text, nonempty] at longer
  · have part := n'.isNumeric_of_mem (c := c) (by simp [text])
    rw [apart c (by simp)] at part
    cases part

structure OutOfRange (r gone : List Char) (n : Numeral) : Prop where
  splits : ∃ after, r = gone ++ (n.text ++ after) ∧ n.Ends after
  infinite : n.isFinite = false
  apart : Apart gone

theorem OutOfRange.append {a : List Char} (first : gone = [] → Apart a) (there : OutOfRange r gone n) :
    OutOfRange (a ++ r) (a ++ gone) n where
  splits := by
    obtain ⟨after, rfl, ends⟩ := there.splits
    exact ⟨after, by simp, ends⟩
  infinite := there.infinite
  apart := .append first there.apart

/-- The numeral that stands there is the leftmost out of range in every derivation at the beginning of `r`
that stops. -/
structure Overflows (X : Symbol) (pos : Position) (r gone : List Char) (n : Numeral) : Prop extends
    OutOfRange r gone n where
  later : ∀ l, X = .others l → gone ≠ []
  leftmost : ∀ (y : Derivation X) (more : List Char), Stops X more → r = y.text ++ more →
    y.overflow? pos = some (pos.advanceOver gone, n)

namespace Overflows

theorem start (overflows : Overflows (.chain .sum) (pos.advanceOver before.chars) r gone n)
    (halts : Halts isBlank r) : Overflows .start pos (before.chars ++ r) (before.chars ++ gone) n where
  toOutOfRange := overflows.append fun _ => .blanks before
  later := nofun
  leftmost y more stops same := by
    cases y with
    | start before' sum =>
      simp only [Derivation.text_start, List.append_assoc] at same
      obtain ⟨rfl, sums⟩ := Derivation.blanks_only halts sum rfl same
      rw [Derivation.overflow?_start, Position.advanceOver_append]
      exact overflows.leftmost sum more stops sums

theorem number (ends : n.Ends rest) (infinite : n.isFinite = false) :
    Overflows (.operand .product) pos (n.text ++ rest) [] n where
  splits := ⟨rest, rfl, ends⟩
  infinite := infinite
  apart := .nil
  later := nofun
  leftmost y more stops same := by
    cases y with
    | number n' after' =>
      simp only [Derivation.text_number, List.append_assoc] at same
      obtain ⟨rfl, -⟩ := Numeral.only ends (after'.halts_append stops) same
      simp [infinite]
    | paren before' inner' after' => exact (n.ne_opening _ _ same).elim

theorem paren (overflows : Overflows (.chain .sum) (pos.advanceOver ('(' :: before.chars)) r gone n)
    (halts : Halts isBlank r) :
    Overflows (.operand .product) pos ('(' :: before.chars ++ r) ('(' :: before.chars ++ gone) n where
  toOutOfRange :=
    overflows.append fun _ => .append (a := ['(']) (fun _ => .opening) (.blanks before)
  later := nofun
  leftmost y more stops same := by
    cases y with
    | number n' after' =>
      simp only [Derivation.text_number, List.append_assoc] at same
      exact (n'.ne_opening _ _ same.symm).elim
    | paren before' inner after' =>
      simp only [Derivation.text_paren, List.cons_append, List.append_assoc, List.cons.injEq, true_and] at same
      obtain ⟨rfl, sums⟩ := Derivation.blanks_only halts inner rfl same
      rw [Derivation.overflow?_paren, Position.advanceOver_append]
      exact overflows.leftmost inner _ stops_paren sums

theorem product (overflows : Overflows (.chain .product) pos r gone n) :
    Overflows (.operand .sum) pos r gone n where
  toOutOfRange := overflows.toOutOfRange
  later := nofun
  leftmost y more stops same := by
    cases y with
    | product p => exact overflows.leftmost p more stops same

theorem first (overflows : Overflows (.operand l) pos r gone n) : Overflows (.chain l) pos r gone n where
  toOutOfRange := overflows.toOutOfRange
  later := nofun
  leftmost y more stops same := by
    cases y with
    | chain first others =>
      simp only [Derivation.text_chain, List.append_assoc] at same
      simp [overflows.leftmost first _ (others.stops_others stops.others) same]

theorem others {first : Derivation (.operand l)} (longest : first.Longest r)
    (finite : first.overflow? pos = none)
    (overflows : Overflows (.others l) (pos.advanceOver first.text) r gone n) :
    Overflows (.chain l) pos (first.text ++ r) (first.text ++ gone) n where
  toOutOfRange := overflows.append fun nothing => (overflows.later l rfl nothing).elim
  later := nofun
  leftmost y more stops same := by
    cases y with
    | chain first' others =>
      simp only [Derivation.text_chain, List.append_assoc] at same
      obtain ⟨rfl, rest⟩ := longest.only (others.stops_others stops.others) same
      rw [Derivation.overflow?_chain, finite, Option.none_or, Position.advanceOver_append]
      exact overflows.leftmost others more stops.others rest.symm

section More

variable {op : Operator l}

/-- Every derivation of a text that begins with an operator has this operator and an operand after it. -/
theorem more_cases {P : Derivation (.others l) → Prop} (halts : Halts isBlank r)
    (more : ∀ (next : Derivation (.operand l)) (others : Derivation (.others l)) (rest : List Char),
      Stops (.others l) rest → r = next.text ++ (others.text ++ rest) → P (.more op before next others))
    (y : Derivation (.others l)) (rest : List Char) (stops : Stops (.others l) rest)
    (same : op.char :: before.chars ++ r = y.text ++ rest) : P y := by
  cases y with
  | done =>
    obtain rfl : _ = rest := same
    exact (op.not_halts stops.halts_isSign).elim
  | more op' before' next others =>
    simp only [Derivation.text_more, List.cons_append, List.append_assoc, List.cons.injEq] at same
    obtain ⟨signs, tails⟩ := same
    obtain rfl := Operator.char_inj signs
    obtain ⟨rfl, ends⟩ := Derivation.blanks_only halts next rfl tails
    exact more next others rest stops ends

theorem next (overflows : Overflows (.operand l) (pos.advanceOver (op.char :: before.chars)) r gone n)
    (halts : Halts isBlank r) :
    Overflows (.others l) pos (op.char :: before.chars ++ r) (op.char :: before.chars ++ gone) n where
  toOutOfRange :=
    overflows.append fun _ => .append (a := [op.char]) (fun _ => .operator op) (.blanks before)
  later := by simp
  leftmost := by
    refine more_cases halts fun next others rest stops same => ?_
    have there := overflows.leftmost next _ (others.stops_others stops) same
    rw [Derivation.overflow?_more, there, Position.advanceOver_append, Option.some_or]

theorem more {next : Derivation (.operand l)} (longest : next.Longest r)
    (finite : next.overflow? (pos.advanceOver (op.char :: before.chars)) = none)
    (overflows : Overflows (.others l)
      ((pos.advanceOver (op.char :: before.chars)).advanceOver next.text) r gone n) :
    Overflows (.others l) pos (op.char :: before.chars ++ (next.text ++ r))
      (op.char :: before.chars ++ (next.text ++ gone)) n where
  toOutOfRange := by
    rw [← List.append_assoc, ← List.append_assoc]
    exact overflows.append fun nothing => (overflows.later l rfl nothing).elim
  later := by simp
  leftmost := by
    refine more_cases (next.halts_isBlank rfl r) fun next' others rest stops same => ?_
    obtain ⟨rfl, ends⟩ := longest.only (others.stops_others stops) same
    rw [Derivation.overflow?_more, finite, Option.none_or, Position.advanceOver_append,
      Position.advanceOver_append]
    exact overflows.leftmost others rest stops ends.symm

end More

end Overflows

end Packrat.Calculator
