import Packrat.Proofs.Session.Furthest
import Packrat.Proofs.Session.Sequencing

/-! An evaluation comes to the same again. What is kept of earlier evaluations decides neither its outcome
nor the matches and failures that it leaves, and where it is aborted, neither the matches until then. -/
namespace Packrat

variable {V : Type} {st st' : State V}

structure State.Like (st st' : State V) : Prop where
  out : st'.out = st.out
  failures : st'.failures = st.failures

/-- The results agree in the outcome, in the matches, and unless they are aborted in the failures. -/
structure Agree {α : Type} (result result' : Outcome α × State V) : Prop where
  outcome : result'.1 = result.1
  out : result'.2.out = result.2.out
  failures : result.1.isAborted = false → result'.2.failures = result.2.failures

namespace Agree

variable {α : Type}

theorem refl (result : Outcome α × State V) : Agree result result := ⟨rfl, rfl, fun _ => rfl⟩

theorem of_like (outcome : Outcome α) (like : st.Like st') : Agree (outcome, st) (outcome, st') :=
  ⟨rfl, like.out, fun _ => like.failures⟩

theorem of_aborted (why : Abort) (out : st'.out = st.out) :
    Agree ((.aborted why, st) : Outcome α × State V) (.aborted why, st') :=
  ⟨rfl, out, fun ended => by cases ended⟩

theorem like {outcome outcome' : Outcome α} (agree : Agree (outcome, st) (outcome', st'))
    (ended : outcome.isAborted = false) : st.Like st' := ⟨agree.out, agree.failures ended⟩

/-- Results that agree come to the same outcome, in states that hold the same unless it is an abort. -/
@[elab_as_elim]
theorem elim {P : Outcome α × State V → Outcome α × State V → Prop} {result result' : Outcome α × State V}
    (agree : Agree result result')
    (matched : ∀ x st st', st.Like st' → P (.matched x, st) (.matched x, st'))
    (failed : ∀ st st', st.Like st' → P (.failed, st) (.failed, st'))
    (aborted : ∀ why st st', st'.out = st.out → P (.aborted why, st) (.aborted why, st')) :
    P result result' := by
  obtain ⟨outcome, st⟩ := result
  obtain ⟨outcome', st'⟩ := result'
  obtain rfl : outcome' = outcome := agree.outcome
  cases outcome' with
  | matched x => exact matched x st st' (agree.like rfl)
  | failed => exact failed st st' (agree.like rfl)
  | aborted why => exact aborted why st st' agree.out

end Agree

theorem State.Like.backTo {before before' : State V} (like : st.Like st')
    (out : before'.out = before.out) : (st.backTo before).Like (st'.backTo before') :=
  ⟨out, like.failures⟩

namespace Session

variable {before before' : State V} {result result' : Outcome Position × State V}

theorem restored_agree (out : before'.out = before.out) (agree : Agree result result') :
    Agree (restored before result) (restored before' result') := by
  refine agree.elim ?matched ?failed ?aborted
  case matched => exact fun next _ _ like => .of_like (.matched next) like
  case failed => exact fun _ _ like => .of_like .failed (like.backTo out)
  case aborted => exact fun why _ _ same => .of_aborted why same

theorem andThen_agree {rest rest' : Position → Eval V Position} (agree : Agree result result')
    (others : ∀ next, result.1 = .matched next → result.2.Like result'.2 →
      Agree (rest next result.2) (rest' next result'.2)) :
    Agree (andThen rest result) (andThen rest' result') := by
  revert others
  refine agree.elim ?matched ?failed ?aborted
  case matched => exact fun next _ _ like others => others next rfl like
  case failed => exact fun _ _ like _ => .of_like .failed like
  case aborted => exact fun why _ _ same _ => .of_aborted why same

theorem orElse_agree {other other' : Eval V Position} (out : before'.out = before.out)
    (agree : Agree result result')
    (others : result.1 = .failed → (result.2.backTo before).Like (result'.2.backTo before') →
      Agree (other (result.2.backTo before)) (other' (result'.2.backTo before'))) :
    Agree (orElse before other result) (orElse before' other' result') := by
  revert others
  refine agree.elim ?matched ?failed ?aborted
  case matched => exact fun next _ _ like _ => .of_like (.matched next) like
  case failed => exact fun _ _ like others => others rfl (like.backTo out)
  case aborted => exact fun why _ _ same _ => .of_aborted why same

variable [Value V] {s : Session V} {pos : Position} {call : Call V}

/-- Wherever the evaluation begins, it agrees from states that hold the same, whatever is kept in them. -/
def Recurs {α : Type} (s : Session V) (body : Position → Eval V α) : Prop :=
  ∀ pos st st', s.source.Reached pos → st.memo.Coherent s → st'.memo.Coherent s → st.Like st' →
    Agree (body pos st) (body pos st')

structure Steady (s : Session V) (call : Call V) : Prop where
  faithful : FaithfulCall s call
  recurs {name : String} {r : Rule V} : s.grammar.find? name = some r → Recurs s (call r)

section Leaves

theorem leaf_agree (rest : List Char) (size : Nat) (pos : Position) (like : st.Like st') :
    Agree (leaf rest size pos st) (leaf rest size pos st') := by
  simp only [leaf]
  cases Text.takeBytes? rest size with
  | none => exact .of_like _ like
  | some text => exact .of_like _ ⟨congrArg (_ :: ·) like.out, like.failures⟩

omit [Value V] in
theorem mark_agree (pos : Position) (label : String) (like : st.Like st') :
    Agree (.failed (α := Position), st.mark pos label) (.failed, st'.mark pos label) :=
  .of_like _ ⟨like.out, congrArg (·.mark pos label) like.failures⟩

theorem evalLiteral_recurs (s : Session V) (l : Literal) : Recurs s (s.evalLiteral l) := by
  intro pos st st' _ _ _ like
  simp only [evalLiteral]
  cases s.source.rest? pos with
  | none => exact .of_like _ like
  | some rest =>
    cases size : l.matchSize? rest with
    | none =>
      simp only [size]
      exact mark_agree pos l.text like
    | some n =>
      simp only [size]
      exact leaf_agree rest n pos like

theorem evalClass_recurs (s : Session V) (k : CharClass) : Recurs s (s.evalClass k) := by
  intro pos st st' _ _ _ like
  simp only [evalClass]
  rcases s.source.rest? pos with _ | _ | ⟨c, rest⟩
  · exact .of_like _ like
  · exact mark_agree pos k.describe like
  · dsimp only
    split
    · exact leaf_agree (c :: rest) c.utf8Size pos like
    · exact mark_agree pos k.describe like

theorem evalEnd_recurs (s : Session V) : Recurs s s.evalEnd := by
  intro pos st st' _ _ _ like
  simp only [evalEnd]
  split
  · exact .of_like _ like
  · exact mark_agree pos "end of input" like

end Leaves

section Lookahead

variable {body : Eval V Position}

omit [Value V] in
theorem lookahead_agree (like : st.Like st') (inside : Agree (body st.veil) (body st'.veil)) :
    Agree (lookahead body st) (lookahead body st') where
  outcome := inside.outcome
  out := like.out
  failures ended := congrArg Failures.release (inside.failures ended)

omit [Value V] in
theorem evalAhead_agree (like : st.Like st') (inside : Agree (body st.veil) (body st'.veil))
    (pos : Position) : Agree (evalAhead body pos st) (evalAhead body pos st') := by
  have ahead := lookahead_agree like inside
  simp only [evalAhead]
  refine ahead.elim ?matched ?failed ?aborted
  case matched => exact fun _ _ _ after => .of_like (.matched pos) after
  case failed => exact fun _ _ after => .of_like .failed after
  case aborted => exact fun why _ _ same => .of_aborted why same

omit [Value V] in
theorem evalNotAhead_agree (like : st.Like st') (inside : Agree (body st.veil) (body st'.veil))
    (pos : Position) : Agree (evalNotAhead body pos st) (evalNotAhead body pos st') := by
  have ahead := lookahead_agree like inside
  simp only [evalNotAhead]
  refine ahead.elim ?matched ?failed ?aborted
  case matched => exact fun _ _ _ after => .of_like .failed after
  case failed => exact fun _ _ after => .of_like (.matched pos) after
  case aborted => exact fun why _ _ same => .of_aborted why same

end Lookahead

section Repetition

variable {e : Expr} {body : Position → Eval V Position}

theorem evalRounds_recurs (faithful : Faithful s e body) (recurs : Recurs s body) (most : Option Nat)
    (gas count : Nat) : Recurs s (evalRounds body most gas count) := by
  induction gas generalizing count with
  | zero =>
    intro pos st st' _ _ _ like
    simp only [evalRounds]
    split <;> exact .of_like _ like
  | succ gas ih =>
    intro pos st st' reached coherent coherent' like
    have round := recurs pos st st' reached coherent coherent' like
    have follows := faithful pos st reached coherent
    have follows' := faithful pos st' reached coherent'
    simp only [evalRounds]
    split
    · exact .of_like _ like
    · revert follows follows'
      refine round.elim ?matched ?failed ?aborted
      case matched =>
        intro next x x' after follows follows'
        obtain ⟨_, _, d⟩ := follows.derives_matched
        dsimp only
        split
        · exact .of_like _ after
        · exact ih (count + 1) next x x' (d.reached reached) follows.memo follows'.memo after
      case failed => exact fun _ _ after _ _ => .of_like (.matched (count, pos)) after
      case aborted => exact fun why _ _ same _ _ => .of_aborted why same

theorem evalRepeated_recurs (faithful : Faithful s e body) (recurs : Recurs s body) (least : Nat)
    (most : Option Nat) : Recurs s (s.evalRepeated body least most) := by
  intro pos st st' reached coherent coherent' like
  have rounds := evalRounds_recurs faithful recurs most (s.source.size - pos.offset + 1) 0
    pos st st' reached coherent coherent' like
  simp only [evalRepeated]
  refine rounds.elim ?matched ?failed ?aborted
  case matched =>
    intro found x x' after
    dsimp only
    split
    · exact .of_like _ after
    · exact .of_like _ (after.backTo like.out)
  case failed => exact fun _ _ after => .of_like .failed (after.backTo like.out)
  case aborted => exact fun why _ _ same => .of_aborted why same

end Repetition

section Expression

theorem evalRef_recurs (steady : s.Steady call) (name : String) : Recurs s (s.evalRef call name) := by
  intro pos st st' reached coherent coherent' like
  simp only [evalRef]
  cases found : s.grammar.find? name with
  | none => exact .of_like _ like
  | some r =>
    have called := steady.recurs found pos st st' reached coherent coherent' like
    dsimp only
    refine called.elim ?matched ?failed ?aborted
    case matched =>
      intro found x x' after
      cases r.silent with
      | true => exact .of_like _ after
      | false => exact .of_like _ ⟨congrArg (_ :: ·) after.out, after.failures⟩
    case failed => exact fun _ _ after => .of_like .failed after
    case aborted => exact fun why _ _ same => .of_aborted why same

mutual

theorem evalExpr_recurs (steady : s.Steady call) : (e : Expr) → Recurs s (s.evalExpr call e)
  | .literal l => evalLiteral_recurs s l
  | .charClass k => evalClass_recurs s k
  | .endOfInput => evalEnd_recurs s
  | .ref name => by
    intro pos st st' reached coherent coherent' like
    simp only [evalExpr]
    exact evalRef_recurs steady name pos st st' reached coherent coherent' like
  | .ahead body => by
    intro pos st st' reached coherent coherent' like
    simp only [evalExpr]
    exact evalAhead_agree like (evalExpr_recurs steady body pos st.veil st'.veil reached coherent
      coherent' ⟨like.out, congrArg Failures.suppress like.failures⟩) pos
  | .notAhead body => by
    intro pos st st' reached coherent coherent' like
    simp only [evalExpr]
    exact evalNotAhead_agree like (evalExpr_recurs steady body pos st.veil st'.veil reached coherent
      coherent' ⟨like.out, congrArg Failures.suppress like.failures⟩) pos
  | .repeated body least most => by
    intro pos st st' reached coherent coherent' like
    simp only [evalExpr]
    exact evalRepeated_recurs (evalExpr_follows steady.faithful body) (evalExpr_recurs steady body)
      least most pos st st' reached coherent coherent' like
  | .choice alternatives => by
    intro pos st st' reached coherent coherent' like
    simp only [evalExpr]
    exact evalChoice_recurs steady alternatives pos st st' reached coherent coherent' like
  | .seq parts => by
    intro pos st st' reached coherent coherent' like
    rw [evalExpr_seq, evalExpr_seq]
    exact restored_agree like.out
      (evalSeq_recurs steady parts pos st st' reached coherent coherent' like)

theorem evalSeq_recurs (steady : s.Steady call) :
    (parts : List Expr) → Recurs s (s.evalSeq call parts)
  | [] => by
    intro pos st st' _ _ _ like
    simp only [evalSeq]
    exact .of_like _ like
  | e :: rest => by
    intro pos st st' reached coherent coherent' like
    have follows := evalExpr_follows steady.faithful e pos st reached coherent
    have follows' := evalExpr_follows steady.faithful e pos st' reached coherent'
    rw [evalSeq_cons, evalSeq_cons]
    refine andThen_agree (evalExpr_recurs steady e pos st st' reached coherent coherent' like) ?_
    intro next matched after
    obtain ⟨_, _, d⟩ := follows.derives_of_matched matched
    exact evalSeq_recurs steady rest next _ _ (d.reached reached) follows.memo follows'.memo after

theorem evalChoice_recurs (steady : s.Steady call) :
    (alternatives : List Expr) → Recurs s (s.evalChoice call alternatives)
  | [] => by
    intro pos st st' _ _ _ like
    simp only [evalChoice]
    exact .of_like _ like
  | e :: rest => by
    intro pos st st' reached coherent coherent' like
    have follows := evalExpr_follows steady.faithful e pos st reached coherent
    have follows' := evalExpr_follows steady.faithful e pos st' reached coherent'
    rw [evalChoice_cons, evalChoice_cons]
    refine orElse_agree like.out (evalExpr_recurs steady e pos st st' reached coherent coherent' like) ?_
    exact fun _ after =>
      evalChoice_recurs steady rest pos _ _ reached follows.memo follows'.memo after

end

end Expression

section Invocation

theorem conclude_out (s : Session V) (r : Rule V) (pos : Position) (before st' : State V)
    (outcome : Outcome Position) : (s.conclude r pos before outcome st').2.out = before.out := by
  cases outcome with
  | aborted why => rfl
  | failed =>
    obtain ⟨journal, concluded⟩ := s.conclude_failed r pos before st'
    rw [concluded, settle_out]
    rfl
  | matched stop =>
    obtain ⟨journal, ⟨m, concluded⟩ | ⟨why, concluded⟩⟩ := s.conclude_matched r pos stop before st'
    · rw [concluded, settle_out]
      rfl
    · rw [concluded]
      rfl

/-- Whatever comes of it, the invocation of a rule leaves the matches around it as they were. -/
theorem invoke_out (s : Session V) (budget : Nat) (r : Rule V) (pos : Position) (st : State V) :
    (s.invoke budget r pos st).2.out = st.out := by
  cases budget with
  | zero => rfl
  | succ budget =>
    rw [invoke]
    split
    · rfl
    · exact s.conclude_out r pos st _ _

variable {start : String}

theorem invoke_steady (accepted : s.grammar.check start = none) {budget : Nat}
    (enough : s.budget ≤ budget) : s.Steady (s.invoke budget) where
  faithful := s.invoke_follows budget
  recurs {name r} found pos st st' reached coherent coherent' like := by
    obtain ⟨v, d, shows⟩ := invoke_shows accepted enough reached coherent found
    obtain ⟨v', d', shows'⟩ := invoke_shows accepted enough reached coherent' found
    obtain rfl := d.unique d'
    have out := s.invoke_out budget r pos st
    have out' := s.invoke_out budget r pos st'
    generalize s.invoke budget r pos st = result at shows out ⊢
    generalize s.invoke budget r pos st' = result' at shows' out' ⊢
    have same : result'.2.out = result.2.out := by rw [out, out', like.out]
    cases shows with
    | matched _ failures =>
      cases shows' with
      | matched _ failures' => exact ⟨rfl, same, fun _ => by rw [failures, failures', like.failures]⟩
    | failed _ failures =>
      cases shows' with
      | failed _ failures' => exact ⟨rfl, same, fun _ => by rw [failures, failures', like.failures]⟩
    | aborted =>
      cases shows' with
      | aborted => exact .of_aborted _ same

/-- Under a grammar that passes the check, evaluations from states that hold the same agree. -/
theorem eval_recurs (accepted : s.grammar.check start = none) (e : Expr) : Recurs s (s.eval e) :=
  evalExpr_recurs (invoke_steady accepted le_rfl) e

end Invocation

end Session

end Packrat
