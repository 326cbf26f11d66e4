import Packrat.Proofs.Session.Recurrence

/-! Two sequences that begin alike may be factored: to evaluate what they begin with once, or once more
for the second sequence, comes to the same, since all that the second evaluation fails at is known. -/
namespace Packrat.Session

variable {V : Type} {pos : Position} {st st' before : State V}

theorem restored_restored (st before : State V) (result : Outcome Position × State V) :
    restored st (restored before result) = restored st result := by
  rcases result with ⟨_ | _ | _, st'⟩ <;> rfl

variable [Value V] {s : Session V} {start : String}

theorem eval_seq_pair (s : Session V) (a b : Expr) (pos : Position) (st : State V) :
    s.eval (.seq [a, b]) pos st = restored st (andThen (s.eval b) (s.eval a pos st)) :=
  s.evalExpr_seq_pair _ a b pos st

theorem eval_choice_pair (s : Session V) (a b : Expr) (pos : Position) (st : State V) :
    s.eval (.choice [a, b]) pos st =
      orElse st (fun before => restored before (s.eval b pos before)) (s.eval a pos st) :=
  s.evalExpr_choice_pair _ a b pos st

/-- To evaluate an expression again, whatever has been recorded meanwhile, comes to the same and records
nothing. -/
theorem eval_again (accepted : s.grammar.check start = none) (reached : s.source.Reached pos)
    (coherent : st.memo.Coherent s) {e : Expr} {outcome : Outcome Position}
    (first : s.eval e pos st = (outcome, st')) (ended : outcome.isAborted = false) (before : State V)
    (coherent' : before.memo.Coherent s) (out : before.out = st.out) {others : List Miss}
    (later : before.failures = st'.failures.marks others) :
    ∃ again, s.eval e pos before = (outcome, again) ∧ again.memo.Coherent s ∧ again.out = st'.out ∧
      again.failures = before.failures := by
  obtain ⟨v, d, shows⟩ := evalExpr_shows_anyhow accepted le_rfl reached coherent e
  obtain ⟨v', d', shows'⟩ := evalExpr_shows_anyhow accepted le_rfl reached coherent' e
  obtain rfl := d.unique d'
  have known {misses : List Miss} (recorded : st'.failures = st.failures.marks misses) :
      before.failures.marks misses = before.failures := by
    rw [later, recorded, Failures.marks_again]
  change Shows st v (s.eval e pos st) at shows
  change Shows before v (s.eval e pos before) at shows'
  rw [first] at shows
  have memo := (s.eval_follows e pos before reached coherent').memo
  generalize s.eval e pos before = result at shows' memo ⊢
  cases shows with
  | aborted => cases ended
  | matched made recorded =>
    cases shows' with
    | matched made' recorded' =>
      exact ⟨_, rfl, memo, by rw [made', made, out], by rw [recorded', known recorded]⟩
  | failed made recorded =>
    cases shows' with
    | failed made' recorded' =>
      exact ⟨_, rfl, memo, by rw [made', made, out], by rw [recorded', known recorded]⟩

/-- Under a grammar that passes the check, two sequences that begin alike can be tried one after the
other, or what they begin with can be evaluated before the choice between the rest: the outcome and the
matches are the same, and unless the evaluation is aborted so are the failures. -/
theorem left_factoring (accepted : s.grammar.check start = none) (reached : s.source.Reached pos)
    (arises : st.memo.Arises s) (a b c : Expr) :
    Agree (s.eval (.choice [.seq [a, b], .seq [a, c]]) pos st)
      (s.eval (.seq [a, .choice [b, c]]) pos st) := by
  have coherent := arises.coherent
  simp only [eval_choice_pair, eval_seq_pair]
  have follows := s.eval_follows a pos st reached coherent
  rcases first : s.eval a pos st with ⟨next | _ | _, st₁⟩ <;> rw [first] at follows
  · obtain ⟨_, _, d⟩ := follows.derives_matched
    have follows' := s.eval_follows b next st₁ (d.reached reached) follows.memo
    simp only [andThen, eval_choice_pair]
    rcases second : s.eval b next st₁ with ⟨_ | _ | _, st₂⟩ <;> rw [second] at follows'
    · exact .refl _
    · obtain ⟨misses, _, _, recorded⟩ := follows'.derives_failed
      obtain ⟨again, same, memo, out, failures⟩ := eval_again accepted reached coherent first rfl
        ((st₂.backTo st).backTo st) follows'.memo rfl recorded
      have others := eval_recurs accepted c next again (st₂.backTo st₁) (d.reached reached) memo
        follows'.memo ⟨out.symm, failures.symm⟩
      change Agree
        (restored _ (restored _ (andThen (s.eval c) (s.eval a pos ((st₂.backTo st).backTo st)))))
        (restored st (restored _ (s.eval c next (st₂.backTo st₁))))
      rw [same, restored_restored, restored_restored]
      exact restored_agree rfl others
    · exact .refl _
  · obtain ⟨again, same, -, -, failures⟩ := eval_again accepted reached coherent first rfl
      ((st₁.backTo st).backTo st) follows.memo rfl (Failures.marks_nil _).symm
    simp only [restored, orElse, same, andThen]
    exact .of_like _ ⟨rfl, failures.symm⟩
  · exact .refl _

def bounds : Grammar String := .ofRules [
  { name := "bound"
    body := .plus (.charClass (CharClass.empty.addRange '0' '9'))
    label := some "bound"
    cached := true }]

/-- The bound is known from an earlier step, which has failed at the sign behind it. Neither sign of a
span is there, but a semicolon is. -/
theorem bounds_factor :
    let s := ofText bounds "12;".toList
    let st := (s.step (.seq [.ref "bound", .lit "="]) Position.start .initial).2
    let apart (sign : Expr) := s.eval
      (.choice [.seq [.ref "bound", .lit ".."], .seq [.ref "bound", sign]]) Position.start st
    let joined (sign : Expr) := s.eval
      (.seq [.ref "bound", .choice [.lit "..", sign]]) Position.start st
    s.grammar.check "bound" = none ∧ s.source.Reached Position.start ∧ st.memo.Arises s ∧
      (apart (.lit "-")).1 = .failed ∧
      (apart (.lit "-")).2.failures = ⟨some ⟨2, 1, 3⟩, ["[0-9]", "=", "..", "-"], 0⟩ ∧
      Agree (apart (.lit "-")) (joined (.lit "-")) ∧
      (apart (.lit ";")).1 = .matched ⟨3, 1, 4⟩ ∧ Agree (apart (.lit ";")) (joined (.lit ";")) := by
  intro s st apart joined
  have accepted : s.grammar.check "bound" = none := by decide +kernel
  have reached : s.source.Reached Position.start := Source.reached_start _
  have arises : st.memo.Arises s := (State.Arises.initial.step reached).memo
  have dash := left_factoring accepted reached arises (.ref "bound") (.lit "..") (.lit "-")
  have semicolon := left_factoring accepted reached arises (.ref "bound") (.lit "..") (.lit ";")
  exact ⟨accepted, reached, arises, by decide +kernel, by decide +kernel, dash, by decide +kernel,
    semicolon⟩

end Packrat.Session
