import Packrat.Proofs.Session.Recording
import Packrat.Proofs.Session.Steps

/-! A lookahead does not show. Matches and failures are afterwards what they were before it, whatever its
body comes to, and twice negated it is the lookahead itself. -/
namespace Packrat

variable {V : Type} {pos : Position} {body : Eval V Position}

namespace Session

open Eval (Records)

/-- What is matched and recorded in a lookahead, and around it on the way, is dropped. -/
theorem lookahead_unseen (records : Records body) (st : State V) :
    (lookahead body st).2.failures = st.failures ∧ (lookahead body st).2.out = st.out := by
  obtain ⟨outcome, st', framed⟩ := lookahead_framed records st
  have own : lookahead body st = (outcome, st'.recording st.failures) := framed st.failures
  exact ⟨by rw [own]; rfl, rfl⟩

/-- The verdict is all that an assertion makes of its lookahead. -/
theorem evalAhead_state (body : Eval V Position) (pos : Position) (st : State V) :
    (evalAhead body pos st).2 = (lookahead body st).2 := by
  simp only [evalAhead]
  generalize lookahead body st = result
  rcases result with ⟨_ | _ | _, _⟩ <;> rfl

theorem evalNotAhead_state (body : Eval V Position) (pos : Position) (st : State V) :
    (evalNotAhead body pos st).2 = (lookahead body st).2 := by
  simp only [evalNotAhead]
  generalize lookahead body st = result
  rcases result with ⟨_ | _ | _, _⟩ <;> rfl

theorem evalNotAhead_twice (records : Records body) (pos : Position) (st : State V) :
    evalNotAhead (evalNotAhead body pos) pos st = evalAhead body pos st := by
  obtain ⟨outcome, st', misses, from_any⟩ := records st
  have once : body { st with failures := st.failures.suppress } =
      (outcome, st'.recording (st.failures.suppress.marks misses)) := from_any st.failures.suppress
  have twice : body { st with failures := st.failures.suppress.suppress } =
      (outcome, st'.recording (st.failures.suppress.suppress.marks misses)) :=
    from_any st.failures.suppress.suppress
  cases outcome <;>
    simp [evalAhead, evalNotAhead, lookahead, once, twice, State.recording, State.backTo]

end Session

variable [Value V] {s : Session V} {x y z : Evaluation V}

/-- The second evaluation is the body of a rule that keeps its failures apart, or takes place in the body
of one, in the course of the first. -/
def Session.Secluded (s : Session V) (x y : Evaluation V) : Prop :=
  ∃ around inside name r, s.Within x around ∧ around.expr = .ref name ∧
    s.grammar.find? name = some r ∧ r.isolated ∧ s.Part around inside ∧ s.Within inside y

theorem Session.Secluded.part (secluded : s.Secluded x y) (part : s.Part y z) : s.Secluded x z := by
  obtain ⟨around, inside, name, r, within, ref, found, isolated, entered, deeper⟩ := secluded
  exact ⟨around, inside, name, r, within, ref, found, isolated, entered, deeper.tail part⟩

theorem Evaluation.suppressed_result (s : Session V) (x : Evaluation V) :
    (x.result s).2.failures.suppressed = x.before.failures.suppressed := by
  obtain ⟨misses, after⟩ := Evaluation.marks s x
  rw [after, Failures.suppressed_marks]

/-- Lookaheads that are open stay open, except while a rule keeps its failures apart. -/
theorem Session.Within.suppressed (within : s.Within x y) :
    x.before.failures.suppressed ≤ y.before.failures.suppressed ∨ s.Secluded x y := by
  induction within with
  | refl => exact .inl le_rfl
  | @tail y z before part ih =>
    rcases ih with open_there | secluded
    · rcases part.failures with ⟨misses, after⟩ | deeper | ⟨name, r, ref, found, isolated, -⟩
      · rw [after, Failures.suppressed_marks]
        exact .inl open_there
      · rw [deeper]
        exact .inl (open_there.trans (Nat.le_succ _))
      · exact .inr ⟨y, z, name, r, before, ref, found, isolated, part, .refl⟩
    · exact .inr (secluded.part part)

/-- An assertion leaves the record of failures and the matches as they were, however the evaluation of `e`
ends. In that evaluation no lookahead is closed that was open when it began, unless in a rule that keeps
its failures apart, and such a rule restores what was open. To assert that `e` is not absent is to assert
`e`. -/
theorem Session.lookahead_invisible (s : Session V) (n : Nat) (e : Expr) (pos : Position)
    (st : State V) :
    (∀ assertion ∈ [Expr.ahead e, Expr.notAhead e],
      (Evaluation.result s ⟨n, assertion, pos, st⟩).2.failures = st.failures ∧
        (Evaluation.result s ⟨n, assertion, pos, st⟩).2.out = st.out) ∧
    (∀ x, s.Within ⟨n, e, pos, st.veil⟩ x →
      (x.result s).2.failures.suppressed = x.before.failures.suppressed ∧
        (st.veil.failures.suppressed ≤ x.before.failures.suppressed ∨
          s.Secluded ⟨n, e, pos, st.veil⟩ x)) ∧
    Evaluation.result s ⟨n, .notAhead (.notAhead e), pos, st⟩ =
      Evaluation.result s ⟨n, .ahead e, pos, st⟩ := by
  have records : Eval.Records (s.evalExpr (s.invoke n) e pos) :=
    evalExpr_records (s.invoke_records n) e pos
  have unseen := lookahead_unseen records st
  refine ⟨?_, ?_, ?_⟩
  · simp only [Evaluation.result, List.forall_mem_cons, evalExpr, evalAhead_state, evalNotAhead_state]
    exact ⟨unseen, unseen, by simp⟩
  · intro x within
    exact ⟨x.suppressed_result s, within.suppressed⟩
  · simp only [Evaluation.result, evalExpr]
    exact evalNotAhead_twice records pos st

/-- The word in the lookahead keeps its failures apart and is refused. What an aborted step has recorded
before is still there. -/
example :
    let s := Session.ofText Session.shortWords "ab,xyz".toList
    let st := (s.step (.ref "words") Position.start .initial).2
    let ahead := Evaluation.result s ⟨s.budget, .ahead (.ref "word"), ⟨3, 1, 4⟩, st⟩
    st.failures = ⟨some ⟨2, 1, 3⟩, ["[a-z]"], 0⟩ ∧
      ahead.1 = .aborted (.rejected "too long" ⟨3, 1, 4⟩) ∧ ahead.2.failures = st.failures := by
  decide +kernel

end Packrat
