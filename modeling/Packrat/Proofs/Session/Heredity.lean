import Mathlib.Logic.Relation
import Packrat.Proofs.Session.Following

/-! Induction over evaluations: a relation between how an evaluation begins and how it ends holds of all of them,
if evaluations inherit it from their parts, down to those of single literals and classes. -/
namespace Packrat

namespace Outcome

def map {α β : Type} (f : α → β) : Outcome α → Outcome β
  | matched value => matched (f value)
  | failed => failed
  | aborted why => aborted why

def isAborted {α : Type} : Outcome α → Bool
  | aborted _ => true
  | _ => false

end Outcome

namespace State

variable {V : Type}

def veil (st : State V) : State V := { st with failures := st.failures.suppress }

def unveil (st st' : State V) : State V :=
  { st' with failures := st'.failures.release }.backTo st

end State

/-- A relation between where and in what state an evaluation begins, and how it ends. -/
abbrev Course (V : Type) := Position → State V → Outcome Position × State V → Prop

abbrev CallCourse (V : Type) :=
  Rule V → Position → State V → Outcome (Position × Match V) × State V → Prop

variable {V : Type} [Value V] {s : Session V}

namespace Session

/-- Evaluations inherit the relation `R` from the evaluations they consist of, and from the invocations
that these lead to the relation `C`. -/
structure Hereditary (s : Session V) (R : Course V) (C : CallCourse V) : Prop where
  leaf : s.source.rest? pos = some (text ++ rest) →
    R pos st (.matched (pos.advanceOver text), st.push ⟨text, Value.ofText text, pos⟩)
  miss (label : String) : R pos st (.failed, st.mark pos label)
  stay : R pos st (.matched pos, st)
  none_left : R pos st (.failed, st)
  astray : s.source.rest? pos = none → R pos st (.aborted (.fault .offBoundary), st)
  undefined : s.grammar.find? name = none → R pos st (.aborted (.undefinedRule name), st)
  runaway : R pos st (.aborted (.fault .runaway), st)
  trans : R pos st (.matched next, st') → R next st' result → R pos st result
  retry : R pos st (.failed, st') → R pos (st'.backTo st) result → R pos st result
  undo : R pos st (.failed, st') → R pos st (.failed, st'.backTo st)
  short : R pos st (.matched stop, st') → R pos st (.failed, st'.backTo st)
  enough : R pos st (.failed, st') → R pos st (.matched pos, st')
  still : R pos st (.matched stop, st') → stop.offset = pos.offset → R pos st (.matched pos, st')
  look : R pos st.veil (outcome, st') → outcome.isAborted = false →
    verdict = .matched pos ∨ verdict = .failed → R pos st (verdict, st.unveil st')
  look_aborted : R pos st.veil (.aborted why, st') → R pos st (.aborted why, st.unveil st')
  ref_matched {r : Rule V} : C r pos st (.matched (stop, m), st') →
    R pos st (.matched stop, if r.silent then st' else st'.push m)
  ref_failed {r : Rule V} : C r pos st (.failed, st') → R pos st (.failed, st')
  ref_aborted {r : Rule V} : C r pos st (.aborted why, st') → R pos st (.aborted why, st')
  call_runaway (r : Rule V) : C r pos st (.aborted (.fault .runaway), st)
  call_replay : s.grammar.find? name = some r → kept? r pos st = some entry →
    C r pos st (replay r pos entry st)
  call_conclude : s.grammar.find? name = some r → kept? r pos st = none →
    (∃ budget, s.evalExpr (s.invoke budget) r.body pos (enter r pos st) = result) →
    R pos (enter r pos st) result → C r pos st (s.conclude r pos st result.1 result.2)

def Yields (s : Session V) (C : CallCourse V) (call : Call V) : Prop :=
  ∀ name r pos st, s.grammar.find? name = some r → C r pos st (call r pos st)

namespace Hereditary

variable {pos : Position} {st : State V} {R : Course V} {C : CallCourse V}

theorem evalLiteral (h : s.Hereditary R C) (l : Literal) : R pos st (s.evalLiteral l pos st) := by
  simp only [Session.evalLiteral]
  cases here : s.source.rest? pos with
  | none => exact h.astray here
  | some rest =>
    cases size : l.matchSize? rest with
    | none =>
      simp only [size]
      exact h.miss _
    | some n =>
      obtain ⟨text, tail, rfl, rfl, -⟩ := Literal.matchSize?_eq_some size
      simp only [size, Session.leaf, Text.takeBytes?_append]
      exact h.leaf here

theorem evalClass (h : s.Hereditary R C) (k : CharClass) : R pos st (s.evalClass k pos st) := by
  simp only [Session.evalClass]
  cases here : s.source.rest? pos with
  | none => exact h.astray here
  | some rest =>
    cases rest with
    | nil => exact h.miss _
    | cons c rest =>
      dsimp only
      split
      · have size : Text.takeBytes? (c :: rest) c.utf8Size = some [c] := Text.takeBytes?_append [c] rest
        simp only [Session.leaf, size]
        exact h.leaf here
      · exact h.miss _

theorem evalEnd (h : s.Hereditary R C) : R pos st (s.evalEnd pos st) := by
  simp only [Session.evalEnd]
  split
  · exact h.stay
  · exact h.miss _

section Lookahead

variable {body : Eval V Position}

theorem evalAhead (h : s.Hereditary R C) (inside : R pos st.veil (body st.veil)) :
    R pos st (evalAhead body pos st) := by
  simp only [Session.evalAhead, lookahead]
  change R pos st.veil (body { st with failures := st.failures.suppress }) at inside
  generalize body { st with failures := st.failures.suppress } = result at inside ⊢
  rcases result with ⟨_ | _ | _, st'⟩
  · exact h.look inside rfl (.inl rfl)
  · exact h.look inside rfl (.inr rfl)
  · exact h.look_aborted inside

theorem evalNotAhead (h : s.Hereditary R C) (inside : R pos st.veil (body st.veil)) :
    R pos st (evalNotAhead body pos st) := by
  simp only [Session.evalNotAhead, lookahead]
  change R pos st.veil (body { st with failures := st.failures.suppress }) at inside
  generalize body { st with failures := st.failures.suppress } = result at inside ⊢
  rcases result with ⟨_ | _ | _, st'⟩
  · exact h.look inside rfl (.inr rfl)
  · exact h.look inside rfl (.inl rfl)
  · exact h.look_aborted inside

end Lookahead

section Repetition

variable {body : Position → Eval V Position}

theorem evalRounds (h : s.Hereditary R C) (rounds : ∀ pos st, R pos st (body pos st))
    (most : Option Nat) (gas count : Nat) (pos : Position) (st : State V) :
    R pos st ((evalRounds body most gas count pos st).1.map Prod.snd,
      (evalRounds body most gas count pos st).2) := by
  induction gas generalizing count pos st with
  | zero =>
    rw [Session.evalRounds]
    split
    · exact h.stay
    · exact h.runaway
  | succ gas ih =>
    rw [Session.evalRounds]
    split
    · exact h.stay
    · have first := rounds pos st
      generalize body pos st = result at first ⊢
      rcases result with ⟨next | _ | _, st'⟩
      · dsimp only
        split
        · rename_i still
          exact h.still first still
        · exact h.trans first (ih _ _ _)
      · exact h.enough first
      · exact first

theorem evalRepeated (h : s.Hereditary R C) (rounds : ∀ pos st, R pos st (body pos st)) (least : Nat)
    (most : Option Nat) : R pos st (s.evalRepeated body least most pos st) := by
  have all := h.evalRounds rounds most (s.source.size - pos.offset + 1) 0 pos st
  simp only [Session.evalRepeated]
  generalize Session.evalRounds body most (s.source.size - pos.offset + 1) 0 pos st = result at all ⊢
  rcases result with ⟨⟨count, stop⟩ | _ | _, st'⟩
  · dsimp only
    split
    · exact all
    · exact h.short all
  · exact h.undo all
  · exact all

end Repetition

section Expression

variable {call : Call V}

theorem evalRef (h : s.Hereditary R C) (calls : s.Yields C call) (name : String) :
    R pos st (s.evalRef call name pos st) := by
  simp only [Session.evalRef]
  cases found : s.grammar.find? name with
  | none => exact h.undefined found
  | some r =>
    have inner := calls name r pos st found
    dsimp only
    generalize call r pos st = result at inner ⊢
    rcases result with ⟨⟨stop, m⟩ | _ | _, st'⟩
    · exact h.ref_matched inner
    · exact h.ref_failed inner
    · exact h.ref_aborted inner

mutual

theorem evalExpr (h : s.Hereditary R C) (calls : s.Yields C call) :
    (e : Expr) → (pos : Position) → (st : State V) →
    R pos st (s.evalExpr call e pos st)
  | .literal l, _, _ => h.evalLiteral l
  | .charClass k, _, _ => h.evalClass k
  | .endOfInput, _, _ => h.evalEnd
  | .ref name, pos, st => by
    rw [Session.evalExpr]
    exact h.evalRef calls name
  | .ahead body, pos, st => by
    rw [Session.evalExpr]
    exact h.evalAhead (evalExpr h calls body pos st.veil)
  | .notAhead body, pos, st => by
    rw [Session.evalExpr]
    exact h.evalNotAhead (evalExpr h calls body pos st.veil)
  | .repeated body least most, pos, st => by
    rw [Session.evalExpr]
    exact h.evalRepeated (evalExpr h calls body) least most
  | .choice alternatives, pos, st => by
    rw [Session.evalExpr]
    exact evalChoice h calls alternatives pos st
  | .seq parts, pos, st => by
    rw [evalExpr_seq]
    exact evalSeq h calls parts pos st

theorem evalSeq (h : s.Hereditary R C) (calls : s.Yields C call) :
    (parts : List Expr) → (pos : Position) → (st : State V) →
    R pos st (restored st (s.evalSeq call parts pos st))
  | [], _, _ => by
    rw [Session.evalSeq]
    exact h.stay
  | e :: rest, pos, st => by
    have first := evalExpr h calls e pos st
    rw [Session.evalSeq]
    generalize s.evalExpr call e pos st = result at first ⊢
    rcases result with ⟨next | _ | _, st'⟩
    · have others := h.trans first (evalSeq h calls rest next st')
      dsimp only
      generalize s.evalSeq call rest next st' = result at others ⊢
      rcases result with ⟨_ | _ | _, st''⟩
      · exact others
      · have undone : R pos st (.failed, st''.backTo st') := others
        have twice := h.undo undone
        exact twice
      · exact others
    · exact h.undo first
    · exact first

theorem evalChoice (h : s.Hereditary R C) (calls : s.Yields C call) :
    (alternatives : List Expr) → (pos : Position) → (st : State V) →
    R pos st (s.evalChoice call alternatives pos st)
  | [], _, _ => by
    rw [Session.evalChoice]
    exact h.none_left
  | e :: rest, pos, st => by
    have first := evalExpr h calls e pos st
    rw [Session.evalChoice]
    generalize s.evalExpr call e pos st = result at first ⊢
    rcases result with ⟨_ | _ | _, st'⟩
    · exact first
    · exact h.retry first (evalChoice h calls rest pos _)
    · exact first

end

end Expression

theorem invoke (h : s.Hereditary R C) (budget : Nat) : s.Yields C (s.invoke budget) := by
  induction budget with
  | zero =>
    intro name r pos st found
    rw [Session.invoke]
    exact h.call_runaway r
  | succ budget ih =>
    intro name r pos st found
    rw [Session.invoke]
    cases kept : kept? r pos st with
    | some entry => exact h.call_replay found kept
    | none => exact h.call_conclude found kept ⟨budget, rfl⟩ (h.evalExpr ih r.body pos _)

end Hereditary

end Session

/-- An expression about to be evaluated: where, in what state, and how many invocations deep rules may
still go. -/
structure Evaluation (V : Type) where
  budget : Nat
  expr : Expr
  start : Position
  before : State V

namespace Evaluation

def result (s : Session V) (x : Evaluation V) : Outcome Position × State V :=
  s.evalExpr (s.invoke x.budget) x.expr x.start x.before

end Evaluation

namespace Session

inductive Rounds (s : Session V) (x : Evaluation V) (most : Option Nat) :
    Nat → Position → State V → Prop where
  | first : most.any (· ≤ 0) = false → Rounds s x most 0 x.start x.before
  | next : Rounds s x most count pos st →
      Evaluation.result s { x with start := pos, before := st } = (.matched next, st') →
      next.offset ≠ pos.offset → most.any (· ≤ count + 1) = false →
      Rounds s x most (count + 1) next st'

/-- The second evaluation is a direct part of the first. -/
inductive Part (s : Session V) : Evaluation V → Evaluation V → Prop where
  | seq : s.evalSeq (s.invoke n) earlier start before = (.matched next, st) →
      Part s ⟨n, .seq (earlier ++ e :: later), start, before⟩ ⟨n, e, next, st⟩
  | choice : s.evalChoice (s.invoke n) earlier start before = (.failed, st) →
      Part s ⟨n, .choice (earlier ++ e :: later), start, before⟩ ⟨n, e, start, st⟩
  | repeated : Rounds s ⟨n, body, start, before⟩ most count next st →
      Part s ⟨n, .repeated body least most, start, before⟩ ⟨n, body, next, st⟩
  | ahead : Part s ⟨n, .ahead body, start, before⟩ ⟨n, body, start, before.veil⟩
  | notAhead : Part s ⟨n, .notAhead body, start, before⟩ ⟨n, body, start, before.veil⟩
  | ref : s.grammar.find? name = some r → kept? r start before = none →
      Part s ⟨n + 1, .ref name, start, before⟩ ⟨n, r.body, start, enter r start before⟩

/-- The second evaluation is the first or takes place in the course of it. -/
def Within (s : Session V) : Evaluation V → Evaluation V → Prop := Relation.ReflTransGen (Part s)

def stepping (s : Session V) (e : Expr) (start : Position) (before : State V) : Evaluation V :=
  ⟨s.budget, e, start, { before with out := [], journal := [] }⟩

theorem result_stepping (e : Expr) (start : Position) (before : State V) :
    (s.stepping e start before).result s = s.step e start before := rfl

end Session

namespace Session.Hereditary

variable {R : Course V} {C : CallCourse V}

theorem result (h : s.Hereditary R C) (x : Evaluation V) : R x.start x.before (x.result s) :=
  h.evalExpr (h.invoke x.budget) x.expr x.start x.before

/-- What leads from the beginning of a repetition to the beginning of a round. -/
theorem rounds (h : s.Hereditary R C) {x : Evaluation V} {most : Option Nat} {count : Nat}
    {pos : Position} {st : State V} (rounds : Rounds s x most count pos st) :
    R x.start x.before (.matched pos, st) := by
  induction rounds with
  | first => exact h.stay
  | @next count pos st next st' _ matched _ _ ih =>
    have round := h.result { x with start := pos, before := st }
    rw [matched] at round
    exact h.trans ih round

end Session.Hereditary

end Packrat
