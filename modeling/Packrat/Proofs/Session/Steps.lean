import Packrat.Proofs.Session.Termination

/-! Evaluations one after the other on one session. What earlier steps leave behind, aborted ones too, does
not show in the steps that follow. -/
namespace Packrat

variable {V : Type} {st : State V}

def Verdict.shown : Verdict V → Outcome (Position × List (Match V))
  | matched stop made _ => .matched (stop, made)
  | failed _ => .failed
  | aborted why => .aborted why

namespace Session

structure Step where
  expr : Expr
  start : Position

/-- What the result of a step shows, with the matches in the order of the input. -/
def shown : Outcome Position × State V → Outcome (Position × List (Match V))
  | (.matched stop, st) => .matched (stop, st.out.reverse)
  | (.failed, _) => .failed
  | (.aborted why, _) => .aborted why

variable [Value V]

/-- What each step of a plan shows, when every step begins in the state in which the one before it has
ended. -/
def run (s : Session V) : List Step → State V → List (Outcome (Position × List (Match V)))
  | [], _ => []
  | step :: plan, st =>
    let result := s.step step.expr step.start st
    shown result :: run s plan result.2

omit [Value V] in
structure Step.Sound (s : Session V) (step : Step) : Prop where
  defined : ∀ name ∈ step.expr.refs, s.grammar.defines name
  reached : s.source.Reached step.start

end Session

variable [Value V] {s : Session V}

/-- The states between the steps of a session. -/
inductive State.Arises (s : Session V) : State V → Prop where
  | initial : Arises s .initial
  | step : Arises s before → s.source.Reached start → Arises s (s.step e start before).2

theorem State.Arises.memo (arises : st.Arises s) : st.memo.Arises s := by
  induction arises with
  | initial => exact .empty
  | @step before _ _ _ reached ih =>
    have opened : ({ before with out := [], journal := [] } : State V).memo.Arises s := ih
    exact opened.eval reached

omit [Value V] in
theorem Shows.shown {v : Verdict V} {result : Outcome Position × State V} (shows : Shows st v result)
    (empty : st.out = []) : Session.shown result = v.shown := by
  cases shows with
  | matched out => simp [Session.shown, Verdict.shown, out, empty]
  | failed | aborted => rfl

namespace Session

/-- A step shows what the semantics gives, whatever earlier steps have left behind. -/
theorem step_shown {start : String} (accepted : s.grammar.check start = none) {step : Step}
    (sound : step.Sound s) (arises : st.Arises s) :
    ∃ v, Derives s (.expr step.expr) step.start v ∧
      shown (s.step step.expr step.start st) = v.shown := by
  have coherent : ({ st with out := [], journal := [] } : State V).memo.Coherent s :=
    arises.memo.coherent
  obtain ⟨v, d, shows⟩ := evalExpr_shows accepted le_rfl sound.reached coherent sound.defined
  exact ⟨v, d, shows.shown rfl⟩

theorem run_eq_map {start : String} (accepted : s.grammar.check start = none) {plan : List Step}
    (sound : ∀ step ∈ plan, step.Sound s) (arises : st.Arises s) :
    s.run plan st = plan.map fun step => shown (s.step step.expr step.start .initial) := by
  induction plan generalizing st with
  | nil => rfl
  | cons step plan ih =>
    obtain ⟨here, later⟩ := List.forall_mem_cons.mp sound
    obtain ⟨v, d, after⟩ := step_shown accepted here arises
    obtain ⟨v', d', alone⟩ := step_shown accepted here .initial
    rw [run, List.map_cons, after, alone, d.unique d', ih later (arises.step here.reached)]

/-- Under a grammar that passes the check, every step of a session comes to what it would come to alone
in a new session, whether the steps before it matched, failed or were aborted. -/
theorem steps_independent {start : String} (accepted : s.grammar.check start = none)
    {plan : List Step} (sound : ∀ step ∈ plan, step.Sound s) :
    s.run plan .initial = plan.map fun step => shown (s.step step.expr step.start .initial) :=
  run_eq_map accepted sound .initial

def shortWords : Grammar String := .ofRules [
  { name := "words", body := .seq [.ref "word", .star (.seq [.lit ",", .ref "word"])] },
  { name := "word"
    body := .plus (.charClass (CharClass.empty.addRange 'a' 'z'))
    fold := some fun letters =>
      if letters.length ≤ 2 then .ok (String.ofList (letters.flatMap Match.text))
      else .error (.reject "too long")
    label := some "word"
    cached := true }]

/-- The last word ends two of the steps, once in a lookahead. The steps after them do not notice. -/
theorem shortWords_independent :
    let s := ofText shortWords "ab,xyz".toList
    let plan : List Step := [
      ⟨.ref "words", Position.start⟩,
      ⟨.seq [.ref "word", .lit ","], Position.start⟩,
      ⟨.notAhead (.ref "word"), ⟨3, 1, 4⟩⟩,
      ⟨.ref "word", ⟨2, 1, 3⟩⟩]
    s.grammar.check "words" = none ∧ (∀ step ∈ plan, step.Sound s) ∧
      s.run plan .initial = [
        .aborted (.rejected "too long" ⟨3, 1, 4⟩),
        .matched (⟨3, 1, 4⟩, [⟨['a', 'b'], "ab", Position.start⟩, ⟨[','], ",", ⟨2, 1, 3⟩⟩]),
        .aborted (.rejected "too long" ⟨3, 1, 4⟩),
        .failed] ∧
      s.run plan .initial = plan.map fun step => shown (s.step step.expr step.start .initial) := by
  intro s plan
  have accepted : s.grammar.check "words" = none := by decide +kernel
  have defined : ∀ step ∈ plan, ∀ name ∈ step.expr.refs, s.grammar.defines name := by decide +kernel
  have reached : ∀ step ∈ plan, ∃ n, step.start = Position.start.advanceOver (s.source.text.take n) := by
    simp only [plan, List.forall_mem_cons]
    exact ⟨⟨0, rfl⟩, ⟨0, rfl⟩, ⟨3, rfl⟩, ⟨2, rfl⟩, by simp⟩
  have sound : ∀ step ∈ plan, step.Sound s := by
    intro step member
    obtain ⟨n, place⟩ := reached step member
    exact ⟨defined step member, _, List.take_prefix n _, place⟩
  exact ⟨accepted, sound, by decide +kernel, steps_independent accepted sound⟩

end Session

end Packrat
