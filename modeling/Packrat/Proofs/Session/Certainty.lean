import Packrat.Proofs.Grammar.Certainty
import Packrat.Proofs.Session.Heredity
import Packrat.Proofs.Session.Soundness

/-! Expressions that are certain to match never fail. What the search for them says of the expressions of
a grammar is true of all their evaluations if and only if no repetition needs a match and may not have
any: such a repetition fails everywhere, and the search takes it for one that always matches. -/
namespace Packrat

variable {V : Type}

theorem Literal.matchSize?_of_isEmpty {l : Literal} (empty : l.text.isEmpty) (rest : List Char) :
    l.matchSize? rest = some 0 := by
  have nothing : l.text.toList = [] := by simpa using empty
  simp [matchSize?, nothing, foldedSize?]

namespace Verdict

@[simp] theorem isFailed_after (v : Verdict V) (made : List (Match V)) (misses : List Miss) :
    (v.after made misses).isFailed = v.isFailed := by
  cases v <;> rfl

@[simp] theorem isFailed_silence (v : Verdict V) (silent : Bool) :
    (v.silence silent).isFailed = v.isFailed := by
  cases v <;> rfl

@[simp] theorem isFailed_ahead (v : Verdict V) (pos : Position) :
    (v.ahead pos).isFailed = v.isFailed := by
  cases v <;> rfl

theorem isFailed_ofCount {least count : Nat} (enough : least ≤ count) (stop : Position)
    (made : List (Match V)) (misses : List Miss) :
    (ofCount least count stop made misses).isFailed = false := by
  rw [ofCount, if_pos enough]
  rfl

end Verdict

variable [Value V] {s : Session V} {pos : Position} {e body : Expr} {t : Task} {v : Verdict V}
  {parts : List Expr} {least count : Nat} {most : Option Nat}

/-- Rounds that have matched often enough do not fail any more. -/
theorem Derives.rounds_enough (d : Derives s (.rounds body least most count) pos v)
    (enough : least ≤ count) : v.isFailed = false := by
  generalize rounds : Task.rounds body least most count = t at d
  induction d generalizing count with
  | rounds_full | rounds_failed =>
    cases rounds
    exact Verdict.isFailed_ofCount enough _ _ _
  | rounds_still =>
    cases rounds
    exact Verdict.isFailed_ofCount (by omega) _ _ _
  | rounds_more _ _ _ _ _ ih =>
    cases rounds
    rw [Verdict.isFailed_after]
    exact ih (by omega) rfl
  | rounds_aborted => rfl
  | _ => cases rounds

/-- A sequence fails only if one of its parts does. -/
theorem Derives.seq_certain (never : ∀ e ∈ parts, ∀ pos v, Derives s (.expr e) pos v → v.isFailed = false)
    (d : Derives s (.expr (.seq parts)) pos v) : v.isFailed = false := by
  induction parts generalizing pos v with
  | nil => cases d with | seq_nil => rfl
  | cons e rest ih =>
    obtain ⟨first, others⟩ := List.forall_mem_cons.mp never
    cases d with
    | seq_cons _ d =>
      rw [Verdict.isFailed_after]
      exact ih others d
    | seq_stop d => exact first _ _ d

/-- A choice does not fail if one of its alternatives does not. -/
theorem Derives.choice_certain (member : e ∈ parts)
    (never : ∀ pos v, Derives s (.expr e) pos v → v.isFailed = false)
    (d : Derives s (.expr (.choice parts)) pos v) : v.isFailed = false := by
  induction parts generalizing v with
  | nil => cases member
  | cons first rest ih =>
    cases d with
    | choice_take _ took => exact took
    | choice_next d d' =>
      rw [Verdict.isFailed_after]
      rcases List.mem_cons.mp member with rfl | member
      · cases never _ _ d
      · exact ih member d'

/-- A minimum of one survives a body that never fails, unless no round may be begun. -/
theorem Derives.once_certain (room : most ≠ some 0)
    (never : ∀ pos v, Derives s (.expr body) pos v → v.isFailed = false)
    (d : Derives s (.expr (.repeated body 1 most)) pos v) : v.isFailed = false := by
  cases d with
  | repeated d =>
    cases d with
    | rounds_full full =>
      rw [Option.any_eq_true] at full
      obtain ⟨max, rfl, le⟩ := full
      simp at le
      exact absurd (congrArg some le) room
    | rounds_failed _ d => cases never _ _ d
    | rounds_still => exact Verdict.isFailed_ofCount le_rfl _ _ _
    | rounds_more _ _ _ d =>
      rw [Verdict.isFailed_after]
      exact d.rounds_enough le_rfl
    | rounds_aborted => rfl

theorem Derives.not_failed (feasible : s.grammar.Feasible) (own : e.Feasible)
    (certain : s.grammar.Certain e) (d : Derives s (.expr e) pos v) : v.isFailed = false := by
  induction certain generalizing pos v with
  | literal empty =>
    cases d with
    | literal => rfl
    | literal_failed _ apart => simp [Literal.matchSize?_of_isEmpty empty] at apart
  | optional => cases d with | repeated d => exact d.rounds_enough (Nat.zero_le _)
  | @once body max _ ih =>
    have room : max ≠ some 0 := by
      rintro rfl
      cases own.min_eq_zero
    exact d.once_certain room fun _ _ d => ih (own.of_mem_parts (by simp [Expr.parts])) d
  | seq _ ih => exact d.seq_certain fun part member _ _ d => ih part member (own.of_mem_parts member) d
  | choice member _ ih => exact d.choice_certain member fun _ _ d => ih (own.of_mem_parts member) d
  | ahead _ ih =>
    cases d with
    | ahead d =>
      rw [Verdict.isFailed_ahead]
      exact ih (own.of_mem_parts (by simp [Expr.parts])) d
  | ref found _ ih =>
    have rule {w : Verdict V} (d : Derives s (.expr _) pos w) : w.isFailed = false :=
      ih (feasible.body found) d
    cases d with
    | ref _ d =>
      rw [Verdict.isFailed_silence]
      cases d with
      | call_matched | call_refused | call_aborted => rfl
      | call_failed found' d =>
        cases found.symm.trans found'
        cases rule d
    | ref_undefined => rfl

/-- The outcomes that are kept after evaluations one after the other, whatever their budgets. -/
inductive Memo.Accrues (s : Session V) : Memo V → Prop where
  | empty : Accrues s .empty
  | evaluation {x : Evaluation V} :
      Accrues s x.before.memo → s.source.Reached x.start → Accrues s (x.result s).2.memo

theorem Memo.Accrues.coherent {memo : Memo V} (accrues : memo.Accrues s) : memo.Coherent s := by
  induction accrues with
  | empty => exact .empty
  | @evaluation x _ reached ih =>
    exact (Session.evalExpr_follows (s.invoke_follows x.budget) x.expr _ _ reached ih).memo

/-- Whatever the input and the place, and whatever has been evaluated before, an evaluation of the
expression that comes to an end has not failed. -/
def Grammar.NeverFails (g : Grammar V) (e : Expr) : Prop :=
  ∀ (input : List Char) (budget : Nat) (pos : Position) (st : State V),
    let s := Session.ofText g input
    s.source.Reached pos → st.memo.Accrues s → (Evaluation.result s ⟨budget, e, pos, st⟩).1 ≠ .failed

theorem Grammar.Certain.neverFails {g : Grammar V} (certain : g.Certain e) (feasible : g.Feasible)
    (own : e.Feasible) : g.NeverFails e := by
  intro input budget pos st s reached accrues
  have follows : Follows s (.expr e) pos st (Evaluation.result s ⟨budget, e, pos, st⟩) :=
    Session.evalExpr_follows (s.invoke_follows budget) e pos st reached accrues.coherent
  generalize Evaluation.result s ⟨budget, e, pos, st⟩ = result at follows ⊢
  intro failed
  rcases follows.verdict with runaway | ⟨v, d, shows⟩
  · simp [failed] at runaway
  · have certain : v.isFailed = false := d.not_failed feasible own certain
    cases shows with
    | failed => cases certain
    | matched | aborted => cases failed

namespace Grammar

/-- A starved repetition fails at once, everywhere. -/
theorem not_neverFails_starved (g : Grammar V) {min : Nat} (needed : min ≠ 0) (body : Expr) :
    ¬ g.NeverFails (.repeated body min (some 0)) := by
  intro never
  refine never [] 0 Position.start .initial (Source.reached_start _) .empty ?_
  simp [Evaluation.result, Session.evalExpr, Session.evalRepeated, Session.evalRounds, needed]

/-- What is found of the expressions of a grammar, they never fail, is true if and only if no repetition
in the grammar is starved. Then it is true of all of them, however the rules call each other and
whether or not the grammar passes the check. -/
theorem alwaysMatches_sound_iff (g : Grammar V) :
    (∀ r ∈ g.rules, ∀ e ∈ r.body.subexprs, g.alwaysMatches e → g.NeverFails e) ↔ g.Feasible := by
  constructor
  · intro sound r member part sub
    unfold Expr.starved
    split
    · rename_i body min
      by_contra needed
      have always : g.alwaysMatches (.repeated body min (some 0)) := by
        simp [alwaysMatches, Expr.alwaysMatches]
      exact g.not_neverFails_starved (by simpa using needed) body (sound r member _ sub always)
    · rfl
  · intro feasible r member e sub always
    have own : e.Feasible := (feasible r member).of_mem_subexprs sub
    exact (certain_of_alwaysMatches feasible own always).neverFails feasible own

/-- Three of no digits: they are said to match always, and they do not match. -/
theorem threeOfNone_fails :
    let digit : Expr := .charClass (CharClass.empty.addRange '0' '9')
    let code : Grammar String := .ofRules [{ name := "code", body := .repeated digit 3 (some 0) }]
    let s := Session.ofText code "123".toList
    code.alwaysMatches (.repeated digit 3 (some 0)) ∧
      (s.eval (.repeated digit 3 (some 0)) Position.start .initial).1 = .failed ∧
      ¬ code.NeverFails (.repeated digit 3 (some 0)) := by
  intro digit code s
  exact ⟨by decide +kernel, by decide +kernel, code.not_neverFails_starved (by decide) digit⟩

end Grammar

end Packrat
