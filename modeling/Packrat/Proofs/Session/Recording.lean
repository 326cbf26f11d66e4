import Packrat.Proofs.Failures
import Packrat.Proofs.Session.Heredity

/-! Evaluation does not look at the failures it records. From whatever record it begins, it comes to the
same, leaves the same matches, kept outcomes and journal, and marks the same misses. -/
namespace Packrat

variable {V : Type}

def State.recording (st : State V) (f : Failures) : State V := { st with failures := f }

theorem State.recording_out (st : State V) (f : Failures) : (st.recording f).out = st.out := rfl

/-- The record of failures decides nothing and is only added to. -/
def Eval.Records {α : Type} (body : Eval V α) : Prop :=
  ∀ st : State V, ∃ (outcome : Outcome α) (st' : State V) (misses : List Miss), ∀ f : Failures,
    body (st.recording f) = (outcome, st'.recording (f.marks misses))

theorem Eval.Records.marks {α : Type} {body : Eval V α} (records : Eval.Records body) (st : State V) :
    ∃ misses, (body st).2.failures = st.failures.marks misses := by
  obtain ⟨outcome, st', misses, from_any⟩ := records st
  have from_own : body st = (outcome, st'.recording (st.failures.marks misses)) := from_any st.failures
  exact ⟨misses, by rw [from_own]; rfl⟩

namespace Rule

def opens (r : Rule V) (f : Failures) : Failures := if r.isolated then {} else f

/-- Those misses in the body of the rule that are recorded around it as they occur. -/
def passes (r : Rule V) (misses : List Miss) : List Miss := if r.isolated then [] else misses

end Rule

namespace Session

open Eval (Records)

variable {s : Session V} {r : Rule V} {pos : Position}

section Leaves

theorem stay_records {α : Type} (outcome : Outcome α) : Records fun st : State V => (outcome, st) :=
  fun st => ⟨_, st, [], fun _ => rfl⟩

theorem miss_records (pos : Position) (label : String) :
    Records fun st : State V => (.failed (α := Position), st.mark pos label) :=
  fun st => ⟨_, st, [⟨pos, label⟩], fun _ => rfl⟩

theorem evalEnd_records (s : Session V) (pos : Position) : Records (s.evalEnd pos) := by
  unfold evalEnd
  intro st
  dsimp only
  split
  · exact stay_records (.matched pos) st
  · exact miss_records pos "end of input" st

variable [Value V]

theorem leaf_records (rest : List Char) (size : Nat) (pos : Position) :
    Records (leaf (V := V) rest size pos) := by
  intro st
  unfold leaf
  cases Text.takeBytes? rest size with
  | none => exact stay_records _ st
  | some text => exact ⟨_, st.push _, [], fun _ => rfl⟩

theorem evalLiteral_records (s : Session V) (l : Literal) (pos : Position) :
    Records (s.evalLiteral l pos) := by
  unfold evalLiteral
  cases s.source.rest? pos with
  | none => exact stay_records _
  | some rest =>
    dsimp only
    cases l.matchSize? rest with
    | none => exact miss_records pos l.text
    | some size => exact leaf_records rest size pos

theorem evalClass_records (s : Session V) (k : CharClass) (pos : Position) :
    Records (s.evalClass k pos) := by
  unfold evalClass
  intro st
  rcases s.source.rest? pos with _ | _ | ⟨c, rest⟩
  · exact stay_records _ st
  · exact miss_records pos k.describe st
  · dsimp only
    split
    · exact leaf_records (c :: rest) c.utf8Size pos st
    · exact miss_records pos k.describe st

end Leaves

section Lookahead

variable {body : Eval V Position}

/-- Whatever is recorded in a lookahead, nothing is afterwards. -/
theorem lookahead_framed (records : Records body) (st : State V) :
    ∃ (outcome : Outcome Position) (st' : State V), ∀ f : Failures,
      lookahead body (st.recording f) = (outcome, st'.recording f) := by
  obtain ⟨outcome, st', misses, from_any⟩ := records st
  refine ⟨outcome, st'.backTo st, fun f => ?_⟩
  have inside := from_any f.suppress
  simp only [State.recording] at inside
  simp [lookahead, State.recording, State.backTo, inside]

theorem evalAhead_records (records : Records body) (pos : Position) : Records (evalAhead body pos) := by
  intro st
  obtain ⟨outcome, st', framed⟩ := lookahead_framed records st
  unfold evalAhead
  simp only [framed]
  cases outcome with
  | matched | failed | aborted => exact ⟨_, st', [], fun _ => rfl⟩

theorem evalNotAhead_records (records : Records body) (pos : Position) :
    Records (evalNotAhead body pos) := by
  intro st
  obtain ⟨outcome, st', framed⟩ := lookahead_framed records st
  unfold evalNotAhead
  simp only [framed]
  cases outcome with
  | matched | failed | aborted => exact ⟨_, st', [], fun _ => rfl⟩

end Lookahead

section Repetition

variable {body : Position → Eval V Position}

theorem evalRounds_records (records : ∀ pos, Records (body pos)) (most : Option Nat)
    (gas count : Nat) (pos : Position) : Records (evalRounds body most gas count pos) := by
  induction gas generalizing count pos with
  | zero =>
    intro st
    simp only [evalRounds]
    split
    · exact stay_records _ st
    · exact stay_records _ st
  | succ gas ih =>
    intro st
    obtain ⟨outcome, st', misses, round⟩ := records pos st
    simp only [evalRounds]
    split
    · exact stay_records _ st
    · simp only [round]
      cases outcome with
      | failed | aborted => exact ⟨_, st', misses, fun _ => rfl⟩
      | matched next =>
        dsimp only
        split
        · exact ⟨_, st', misses, fun _ => rfl⟩
        · obtain ⟨outcome', after, misses', others⟩ := ih (count + 1) next st'
          exact ⟨outcome', after, misses ++ misses', fun f => by rw [others, Failures.marks_append]⟩

theorem evalRepeated_records (s : Session V) (records : ∀ pos, Records (body pos)) (least : Nat)
    (most : Option Nat) (pos : Position) : Records (s.evalRepeated body least most pos) := by
  intro st
  obtain ⟨outcome, st', misses, rounds⟩ := evalRounds_records records most
    (s.source.size - pos.offset + 1) 0 pos st
  unfold evalRepeated
  simp only [rounds]
  cases outcome with
  | failed => exact ⟨_, st'.backTo st, misses, fun _ => rfl⟩
  | aborted => exact ⟨_, st', misses, fun _ => rfl⟩
  | matched result =>
    dsimp only
    split
    · exact ⟨_, st', misses, fun _ => rfl⟩
    · exact ⟨_, st'.backTo st, misses, fun _ => rfl⟩

end Repetition

theorem evalRef_records {call : Call V} (records : ∀ r pos, Records (call r pos)) (name : String)
    (pos : Position) : Records (s.evalRef call name pos) := by
  intro st
  unfold evalRef
  cases s.grammar.find? name with
  | none => exact stay_records _ st
  | some r =>
    obtain ⟨outcome, st', misses, called⟩ := records r pos st
    simp only [called]
    cases outcome with
    | failed | aborted => exact ⟨_, st', misses, fun _ => rfl⟩
    | matched result =>
      refine ⟨.matched result.1, if r.silent then st' else st'.push result.2, misses, fun f => ?_⟩
      cases r.silent <;> rfl

section Expression

variable [Value V] {call : Call V}

mutual

theorem evalExpr_records (records : ∀ r pos, Records (call r pos)) :
    (e : Expr) → (pos : Position) → Records (s.evalExpr call e pos)
  | .literal l, pos => evalLiteral_records s l pos
  | .charClass k, pos => evalClass_records s k pos
  | .endOfInput, pos => evalEnd_records s pos
  | .ref name, pos => by
    intro st
    simp only [evalExpr]
    exact evalRef_records records name pos st
  | .ahead body, pos => by
    intro st
    simp only [evalExpr]
    exact evalAhead_records (evalExpr_records records body pos) pos st
  | .notAhead body, pos => by
    intro st
    simp only [evalExpr]
    exact evalNotAhead_records (evalExpr_records records body pos) pos st
  | .repeated body least most, pos => by
    intro st
    simp only [evalExpr]
    exact evalRepeated_records s (evalExpr_records records body) least most pos st
  | .choice alternatives, pos => by
    intro st
    simp only [evalExpr]
    exact evalChoice_records records alternatives pos st
  | .seq parts, pos => by
    intro st
    obtain ⟨outcome, st', misses, from_any⟩ := evalSeq_records records parts pos st
    simp only [evalExpr, from_any]
    cases outcome with
    | failed => exact ⟨_, st'.backTo st, misses, fun _ => rfl⟩
    | matched | aborted => exact ⟨_, st', misses, fun _ => rfl⟩

theorem evalSeq_records (records : ∀ r pos, Records (call r pos)) :
    (parts : List Expr) → (pos : Position) → Records (s.evalSeq call parts pos)
  | [], pos => by
    intro st
    simp only [evalSeq]
    exact stay_records _ st
  | e :: rest, pos => by
    intro st
    obtain ⟨outcome, st', misses, first⟩ := evalExpr_records records e pos st
    simp only [evalSeq, first]
    cases outcome with
    | failed | aborted => exact ⟨_, st', misses, fun _ => rfl⟩
    | matched next =>
      obtain ⟨outcome', after, misses', others⟩ := evalSeq_records records rest next st'
      exact ⟨outcome', after, misses ++ misses', fun f => by simp only [others, Failures.marks_append]⟩

theorem evalChoice_records (records : ∀ r pos, Records (call r pos)) :
    (alternatives : List Expr) → (pos : Position) → Records (s.evalChoice call alternatives pos)
  | [], _ => by
    intro st
    simp only [evalChoice]
    exact stay_records _ st
  | e :: rest, pos => by
    intro st
    obtain ⟨outcome, st', misses, first⟩ := evalExpr_records records e pos st
    simp only [evalChoice, first]
    cases outcome with
    | matched | aborted => exact ⟨_, st', misses, fun _ => rfl⟩
    | failed =>
      obtain ⟨outcome', after, misses', others⟩ := evalChoice_records records rest pos (st'.backTo st)
      refine ⟨outcome', after, misses ++ misses', fun f => ?_⟩
      rw [Failures.marks_append, ← others]
      rfl

end

end Expression

section Invocation

theorem replay_records (entry : Memo.Entry V) : Records (replay r pos entry) := by
  intro st
  refine ⟨(replay r pos entry st).1, (replay r pos entry st).2, entry.failures.misses, fun f => ?_⟩
  rw [← Failures.absorb_eq_marks]
  rfl

theorem enter_recording (r : Rule V) (pos : Position) (st : State V) (f : Failures) :
    enter r pos (st.recording f) = (enter r pos st).recording (r.opens f) := rfl

theorem leave_recording (r : Rule V) (before st' : State V) (misses : List Miss) (f : Failures) :
    leave r (before.recording f) (st'.recording ((r.opens f).marks misses)) =
      (leave r before st').recording (f.marks (r.passes misses)) := by
  cases isolated : r.isolated <;>
    simp [leave, State.recording, Rule.opens, Rule.passes, isolated]

/-- What a rule hands on depends on the misses in it, and not on what was recorded before it. -/
theorem settle_records (r : Rule V) (pos : Position) (misses : List Miss) (result : Option (Position × Match V))
    (st : State V) : ∃ (st' : State V) (told : List Miss), ∀ f : Failures,
      settle r pos ((r.opens f).marks misses) result (st.recording (f.marks (r.passes misses))) =
        st'.recording (f.marks told) := by
  cases isolated : r.isolated with
  | false => exact ⟨st, misses, fun f => by simp [settle, Rule.passes, isolated]⟩
  | true =>
    let inner := Failures.empty.marks misses
    refine ⟨settle r pos inner result st, (reported r pos result inner).misses, fun f => ?_⟩
    rw [← Failures.absorb_eq_marks]
    simp only [settle, Rule.opens, Rule.passes, isolated, if_true]
    rfl

variable [Value V]

theorem complete_framed (s : Session V) (r : Rule V) (pos stop : Position) (children : List (Match V))
    (st : State V) : ∃ (outcome : Outcome (Match V)) (st' : State V), ∀ f : Failures,
      s.complete r pos stop children (st.recording f) = (outcome, st'.recording f) := by
  unfold complete foldValue
  cases s.source.slice? pos stop with
  | none => exact ⟨_, st, fun _ => rfl⟩
  | some text =>
    cases r.fold with
    | none => exact ⟨_, st, fun _ => rfl⟩
    | some fold =>
      dsimp only
      cases fold children with
      | ok value => exact ⟨_, st.record _, fun _ => rfl⟩
      | error e => exact ⟨_, st.record _, fun _ => rfl⟩

theorem conclude_records (s : Session V) (r : Rule V) (pos : Position) (before st' : State V)
    (outcome : Outcome Position) (misses : List Miss) :
    ∃ (outcome' : Outcome (Position × Match V)) (after : State V) (told : List Miss), ∀ f : Failures,
      s.conclude r pos (before.recording f) outcome (st'.recording ((r.opens f).marks misses)) =
        (outcome', after.recording (f.marks told)) := by
  cases outcome with
  | aborted why =>
    exact ⟨.aborted why, leave r before st', r.passes misses, fun f => by
      simp only [conclude, leave_recording]⟩
  | failed =>
    let noted := if r.trace.notesFailures then
        ((leave r before st').record (.failed r.name pos)).record (.failureNoted r.name pos)
      else (leave r before st').record (.failed r.name pos)
    obtain ⟨after, told, settled⟩ := settle_records r pos misses none noted
    refine ⟨.failed, after, told, fun f => ?_⟩
    rw [← settled f]
    simp only [conclude, leave_recording, noted]
    cases r.trace.notesFailures <;> rfl
  | matched stop =>
    let noted := if r.trace.notesMatches then
        ((leave r before st').record (.matched r.name pos stop)).record (.matchNoted r.name pos stop)
      else (leave r before st').record (.matched r.name pos stop)
    obtain ⟨outcome, st, completed⟩ := complete_framed s r pos stop st'.out.reverse noted
    have noted_recording (f : Failures) :
        (if r.trace.notesMatches then
          (((leave r before st').recording f).record (.matched r.name pos stop)).record
            (.matchNoted r.name pos stop)
        else ((leave r before st').recording f).record (.matched r.name pos stop)) = noted.recording f := by
      simp only [noted]
      cases r.trace.notesMatches <;> rfl
    simp only [conclude, leave_recording, noted_recording, State.recording_out, completed]
    cases outcome with
    | matched m =>
      obtain ⟨after, told, settled⟩ := settle_records r pos misses (some (stop, m)) st
      exact ⟨.matched (stop, m), after, told, fun f => congrArg _ (settled f)⟩
    | failed | aborted => exact ⟨_, st, r.passes misses, fun _ => rfl⟩

theorem invoke_records (s : Session V) (budget : Nat) (r : Rule V) (pos : Position) :
    Records (s.invoke budget r pos) := by
  induction budget generalizing r pos with
  | zero =>
    intro st
    simp only [invoke]
    exact stay_records _ st
  | succ budget ih =>
    intro st
    have same (f : Failures) : kept? r pos (st.recording f) = kept? r pos st := rfl
    simp only [invoke, same]
    cases kept? r pos st with
    | some entry => exact replay_records entry st
    | none =>
      obtain ⟨outcome, st', misses, body⟩ := evalExpr_records (s := s) ih r.body pos (enter r pos st)
      obtain ⟨outcome', after, told, concluded⟩ := conclude_records s r pos st st' outcome misses
      exact ⟨outcome', after, told, fun f => by simp only [enter_recording, body, concluded]⟩

end Invocation

end Session

section Parts

variable [Value V] {s : Session V} {x y : Evaluation V}

theorem Evaluation.marks (s : Session V) (x : Evaluation V) :
    ∃ misses, (x.result s).2.failures = x.before.failures.marks misses :=
  (Session.evalExpr_records (s.invoke_records x.budget) x.expr x.start).marks x.before

theorem Session.Rounds.marks {most : Option Nat} {count : Nat} {pos : Position} {st : State V}
    (rounds : s.Rounds x most count pos st) : ∃ misses, st.failures = x.before.failures.marks misses := by
  induction rounds with
  | first => exact ⟨[], rfl⟩
  | @next count pos st next st' _ matched _ _ ih =>
    obtain ⟨misses, before⟩ := ih
    obtain ⟨misses', round⟩ := Evaluation.marks s { x with start := pos, before := st }
    rw [matched] at round
    exact ⟨misses ++ misses', by rw [Failures.marks_append, ← before]; exact round⟩

/-- In what record a part begins: in that of the whole, with misses of the parts before it, with one more
lookahead open, or in an empty one. -/
theorem Session.Part.failures (part : s.Part x y) :
    (∃ misses, y.before.failures = x.before.failures.marks misses) ∨
    y.before.failures = x.before.failures.suppress ∨
    ∃ name r, x.expr = .ref name ∧ s.grammar.find? name = some r ∧ r.isolated ∧
      y.before.failures = .empty := by
  cases part with
  | @seq n earlier start before next st _ _ matched =>
    obtain ⟨misses, first⟩ := (evalSeq_records (s.invoke_records n) earlier start).marks before
    rw [matched] at first
    exact .inl ⟨misses, first⟩
  | @choice n earlier start before st _ _ failed =>
    obtain ⟨misses, first⟩ := (evalChoice_records (s.invoke_records n) earlier start).marks before
    rw [failed] at first
    exact .inl ⟨misses, first⟩
  | repeated round => exact .inl round.marks
  | ahead | notAhead => exact .inr (.inl rfl)
  | @ref name r start before n found missed =>
    cases isolated : r.isolated with
    | false => exact .inl ⟨[], by simp [enter, isolated]⟩
    | true => exact .inr (.inr ⟨name, r, rfl, found, isolated, by simp [enter, isolated]; rfl⟩)

end Parts

end Packrat
