import Packrat.Proofs.Session.Recording
import Packrat.Proofs.Session.Steps

/-! The record of failures over the steps of a session. Whatever a step comes to, it adds to the record
what it would record alone, and of that nothing lies before the place where the step began. -/
namespace Packrat

variable {V : Type} {pos next : Position} {st st' : State V}

namespace Failures

variable {f g h : Failures}

/-- The furthest place of `g` is that of `f`, or is not before `pos`. -/
def Onward (pos : Position) (f g : Failures) : Prop :=
  ∀ far, g.furthest = some far → f.furthest = some far ∨ pos.offset ≤ far.offset

theorem Onward.refl (pos : Position) (f : Failures) : Onward pos f f := fun _ => .inl

theorem Onward.trans (first : Onward pos f g) (others : Onward next g h)
    (le : pos.offset ≤ next.offset) : Onward pos f h := by
  intro far furthest
  rcases others far furthest with earlier | later
  · exact first far earlier
  · exact .inr (le.trans later)

theorem Onward.from_empty (onward : Onward pos empty f) (far : Position)
    (furthest : f.furthest = some far) : pos.offset ≤ far.offset :=
  (onward far furthest).resolve_left nofun

theorem onward_mark (f : Failures) (pos : Position) (label : String) :
    Onward pos f (f.mark pos label) := by
  intro far furthest
  rcases f.furthest_mark pos label with same | moved
  · exact .inl (same ▸ furthest)
  · obtain rfl : pos = far := Option.some.inj (moved.symm.trans furthest)
    exact .inr le_rfl

theorem onward_absorb {own : Failures}
    (onward : ∀ far, own.furthest = some far → pos.offset ≤ far.offset) :
    Onward pos f (f.absorb own) := by
  cases origin : own.furthest with
  | none =>
    simp only [absorb, origin]
    exact .refl pos f
  | some reach =>
    rw [absorb_of_furthest origin]
    intro far furthest
    rcases f.furthest_markAll reach own.expected with same | moved
    · exact .inl (same ▸ furthest)
    · obtain rfl : reach = far := Option.some.inj (moved.symm.trans furthest)
      exact .inr (onward reach origin)

end Failures

structure Memo.Entry.Onward (offset : Nat) (entry : Memo.Entry V) : Prop where
  ended : ∀ x, entry.result = some x → offset ≤ x.1.offset
  failures : ∀ far, entry.failures.furthest = some far → offset ≤ far.offset

/-- What is kept tells of nothing before the offset for which it is kept. -/
def Memo.Onward (memo : Memo V) : Prop :=
  ∀ name offset entry, memo.find? name offset = some entry → entry.Onward offset

theorem Memo.onward_empty : (empty : Memo V).Onward := by simp [Onward]

theorem Memo.Onward.insert {memo : Memo V} {offset : Nat} {entry : Memo.Entry V}
    (onward : memo.Onward) (fits : entry.Onward offset) (name : String) :
    (memo.insert name offset entry).Onward := by
  intro name' offset' entry' found
  rw [find?_insert] at found
  split at found
  · rename_i same
    obtain rfl := Option.some.inj found
    exact same.2 ▸ fits
  · exact onward _ _ _ found

/-- How an evaluation from `pos` has ended: not before `pos`, and with nothing new recorded or kept that
would lie before it. -/
structure Forward {α : Type} (place : α → Position) (pos : Position) (before : State V)
    (result : Outcome α × State V) : Prop where
  memo : result.2.memo.Onward
  ended : ∀ x, result.1 = .matched x → pos.offset ≤ (place x).offset
  failures : Failures.Onward pos before.failures result.2.failures

def MovesForward : Course V := fun pos st result => st.memo.Onward → Forward id pos st result

def CallMovesForward : CallCourse V := fun _ pos st result =>
  st.memo.Onward → Forward Prod.fst pos st result

namespace Session

section Invocation

variable {r : Rule V} {inner : Failures} {result : Option (Position × Match V)}

theorem leave_onward (inside : Failures.Onward pos (enter r pos st).failures st'.failures) :
    Failures.Onward pos st.failures (leave r st st').failures := by
  cases isolated : r.isolated with
  | true => simp [leave, isolated, Failures.Onward.refl]
  | false => simpa [leave, enter, isolated] using inside

theorem reported_onward (r : Rule V) (result : Option (Position × Match V))
    (onward : ∀ far, inner.furthest = some far → pos.offset ≤ far.offset) (far : Position)
    (furthest : (reported r pos result inner).furthest = some far) :
    pos.offset ≤ far.offset := by
  simp only [reported] at furthest
  split at furthest
  · have there : inner.furthest.getD pos = far := by
      simpa [Failures.mark, Failures.empty] using furthest
    cases reached : inner.furthest with
    | none => simp [← there, reached]
    | some reach =>
      rw [← there, reached]
      exact onward reach reached
  · exact onward far furthest

theorem settle_onward (memo : st.memo.Onward)
    (onward : r.isolated → ∀ far, inner.furthest = some far → pos.offset ≤ far.offset)
    (ended : ∀ x, result = some x → pos.offset ≤ x.1.offset) :
    (settle r pos inner result st).memo.Onward ∧
      Failures.Onward pos st.failures (settle r pos inner result st).failures := by
  cases isolated : r.isolated with
  | false => simpa [settle, isolated, Failures.Onward.refl] using memo
  | true =>
    have own := reported_onward r result (onward isolated)
    simp only [settle, isolated, if_true]
    refine ⟨?_, Failures.onward_absorb own⟩
    split
    · exact memo.insert ⟨ended, own⟩ r.name
    · exact memo

theorem replay_forward {entry : Memo.Entry V} (memo : st.memo.Onward) (kept : kept? r pos st = some entry) :
    Forward Prod.fst pos st (replay r pos entry st) := by
  have fits : entry.Onward pos.offset := by
    simp only [kept?] at kept
    split at kept
    · exact memo _ _ _ kept
    · cases kept
  refine ⟨memo, fun x matched => ?_, Failures.onward_absorb fits.failures⟩
  cases result : entry.result with
  | none => simp [replay, result] at matched
  | some found =>
    simp only [replay, result, Outcome.matched.injEq] at matched
    exact matched ▸ fits.ended found result

variable [Value V] {s : Session V}

theorem conclude_forward {outcome : Outcome Position}
    (body : Forward id pos (enter r pos st) (outcome, st')) :
    Forward Prod.fst pos st (s.conclude r pos st outcome st') := by
  have left : Failures.Onward pos st.failures (leave r st st').failures := leave_onward body.failures
  have inside : r.isolated → ∀ far, st'.failures.furthest = some far → pos.offset ≤ far.offset := by
    intro isolated
    have apart : (enter r pos st).failures = .empty := if_pos isolated
    exact Failures.Onward.from_empty (apart ▸ body.failures)
  have settled (result : Option (Position × Match V)) (journal : Journal)
      (ended : ∀ x, result = some x → pos.offset ≤ x.1.offset) :
      let after := settle r pos st'.failures result { leave r st st' with journal }
      after.memo.Onward ∧ Failures.Onward pos st.failures after.failures := by
    have memo : ({ leave r st st' with journal } : State V).memo.Onward := body.memo
    obtain ⟨memo, failures⟩ := settle_onward memo inside ended
    exact ⟨memo, left.trans failures le_rfl⟩
  cases outcome with
  | aborted why => exact ⟨body.memo, by simp [conclude], left⟩
  | failed =>
    obtain ⟨journal, concluded⟩ := s.conclude_failed r pos st st'
    obtain ⟨memo, failures⟩ := settled none journal (by simp)
    rw [concluded]
    exact ⟨memo, by simp, failures⟩
  | matched stop =>
    obtain ⟨journal, ⟨m, concluded⟩ | ⟨why, concluded⟩⟩ := s.conclude_matched r pos stop st st'
    · have le : pos.offset ≤ stop.offset := body.ended stop rfl
      obtain ⟨memo, failures⟩ := settled (some (stop, m)) journal (by simpa using le)
      rw [concluded]
      exact ⟨memo, by simpa using le, failures⟩
    · rw [concluded]
      exact ⟨body.memo, by simp, left⟩

/-- Evaluations move forward, since those they consist of do. -/
theorem hereditary_movesForward (s : Session V) : s.Hereditary MovesForward CallMovesForward where
  leaf _ memo := ⟨memo, by simp, .refl _ _⟩
  miss label memo := ⟨memo, by simp, Failures.onward_mark _ _ label⟩
  stay memo := ⟨memo, by simp, .refl _ _⟩
  none_left memo := ⟨memo, by simp, .refl _ _⟩
  astray _ memo := ⟨memo, by simp, .refl _ _⟩
  undefined _ memo := ⟨memo, by simp, .refl _ _⟩
  runaway memo := ⟨memo, by simp, .refl _ _⟩
  trans first others memo := by
    have before := first memo
    have after := others before.memo
    have le := before.ended _ rfl
    exact ⟨after.memo, fun stop matched => le.trans (after.ended stop matched),
      before.failures.trans after.failures le⟩
  retry first others memo := by
    have before := first memo
    have after := others before.memo
    exact ⟨after.memo, after.ended, before.failures.trans after.failures le_rfl⟩
  undo failed memo := ⟨(failed memo).memo, by simp, (failed memo).failures⟩
  short matched memo := ⟨(matched memo).memo, by simp, (matched memo).failures⟩
  enough failed memo := ⟨(failed memo).memo, by simp, (failed memo).failures⟩
  still matched _ memo := ⟨(matched memo).memo, by simp, (matched memo).failures⟩
  look inside _ verdict memo := by
    have after := inside memo
    refine ⟨after.memo, ?_, after.failures⟩
    rcases verdict with rfl | rfl <;> simp
  look_aborted inside memo := ⟨(inside memo).memo, by simp, (inside memo).failures⟩
  ref_matched {_ _ _ _ _ r} called memo := by
    have after := called memo
    have le := after.ended _ rfl
    cases r.silent <;> exact ⟨after.memo, by simpa using le, after.failures⟩
  ref_failed called memo := ⟨(called memo).memo, by simp, (called memo).failures⟩
  ref_aborted called memo := ⟨(called memo).memo, by simp, (called memo).failures⟩
  call_runaway _ memo := ⟨memo, by simp, .refl _ _⟩
  call_replay _ kept memo := replay_forward memo kept
  call_conclude _ _ _ body memo := conclude_forward (body memo)

end Invocation

end Session

section Steps

variable [Value V] {s : Session V} {before : State V} {start : Position} {x y : Evaluation V}

theorem State.Arises.onward (arises : st.Arises s) : st.memo.Onward := by
  induction arises with
  | initial => exact Memo.onward_empty
  | @step before start e _ _ ih =>
    rw [← Session.result_stepping]
    exact ((Session.hereditary_movesForward s).result (s.stepping e start before) ih).memo

theorem State.Arises.sound (arises : st.Arises s) : st.failures.Sound := by
  induction arises with
  | initial => exact Failures.sound_empty
  | @step before start e _ _ ih =>
    obtain ⟨misses, after⟩ := Evaluation.marks s (s.stepping e start before)
    rw [← Session.result_stepping, after]
    exact ih.marks misses

theorem Session.Part.sound (part : s.Part x y) (sound : x.before.failures.Sound) :
    y.before.failures.Sound := by
  rcases part.failures with ⟨misses, after⟩ | deeper | ⟨-, -, -, -, -, apart⟩
  · exact after ▸ sound.marks misses
  · exact deeper ▸ sound.suppress
  · exact apart ▸ Failures.sound_empty

theorem Session.Within.sound (within : s.Within x y) (sound : x.before.failures.Sound) :
    y.before.failures.Sound := by
  induction within with
  | refl => exact sound
  | tail _ part ih => exact part.sound ih

/-- A step adds to the record of failures just what it records alone, none of it before its start. So the
furthest failure only moves forward, however the step ends. The record is sound at the beginning and at
the end of each evaluation in the step. -/
theorem Session.furthest_advances (arises : before.Arises s) (e : Expr) (start : Position) :
    before.failures.Advances start (s.step e start (before.recording .empty)).2.failures
      (s.step e start before).2.failures ∧
    ∀ x, s.Within (s.stepping e start before) x →
      x.before.failures.Sound ∧ (x.result s).2.failures.Sound := by
  constructor
  · let opened : State V := { before with out := [], journal := [] }
    obtain ⟨outcome, st', misses, from_any⟩ :=
      evalExpr_records (s := s) (s.invoke_records s.budget) e start opened
    have stepped : s.step e start before = (outcome, st'.recording (before.failures.marks misses)) :=
      from_any before.failures
    have alone : s.step e start (before.recording .empty) =
        (outcome, st'.recording (Failures.empty.marks misses)) := from_any .empty
    have forward := (hereditary_movesForward s).result (s.stepping e start (before.recording .empty))
      arises.onward
    rw [result_stepping, alone] at forward
    have onward : ∀ far, (Failures.empty.marks misses).furthest = some far → start.offset ≤ far.offset :=
      forward.failures.from_empty
    have sound : (Failures.empty.marks misses).Sound := Failures.sound_empty.marks misses
    rw [stepped, alone]
    change before.failures.Advances start (Failures.empty.marks misses) (before.failures.marks misses)
    rw [← Failures.absorb_marks_empty before.failures]
    exact Failures.advances_absorb before.failures sound onward
  · intro x within
    have begins : x.before.failures.Sound := within.sound arises.sound
    obtain ⟨misses, after⟩ := Evaluation.marks s x
    exact ⟨begins, after ▸ begins.marks misses⟩

def assignments : Grammar String := .ofRules [
  { name := "assignment", body := .seq [.ref "key", .choice [.lit ":", .lit "="], .ref "number"] },
  { name := "key"
    body := .plus (.charClass (CharClass.empty.addRange 'a' 'z'))
    label := some "key"
    cached := true },
  { name := "number"
    body := .plus (.charClass (CharClass.empty.addRange '0' '9'))
    fold := some fun digits =>
      if digits.length ≤ 2 then .ok (String.ofList (digits.flatMap Match.text))
      else .error (.reject "too large")
    label := some "number" }]

/-- The first step is aborted, the second adds a label where the first has failed, and the third fails
beyond. -/
theorem assignments_advance :
    let s := Session.ofText assignments "ab=123".toList
    let first := s.step (.ref "assignment") Position.start .initial
    let second := s.step (.seq [.ref "key", .lit ";"]) Position.start first.2
    let third := s.step (.ref "key") ⟨3, 1, 4⟩ second.2
    first.1 = .aborted (.rejected "too large" ⟨3, 1, 4⟩) ∧
    first.2.failures = ⟨some ⟨2, 1, 3⟩, ["[a-z]", ":"], 0⟩ ∧
    second.2.failures = ⟨some ⟨2, 1, 3⟩, ["[a-z]", ":", ";"], 0⟩ ∧
    third.2.failures = ⟨some ⟨3, 1, 4⟩, ["key"], 0⟩ ∧
    first.2.failures.Advances Position.start
      (s.step (.seq [.ref "key", .lit ";"]) Position.start (first.2.recording .empty)).2.failures
      second.2.failures ∧
    second.2.failures.Advances ⟨3, 1, 4⟩
      (s.step (.ref "key") ⟨3, 1, 4⟩ (second.2.recording .empty)).2.failures third.2.failures := by
  intro s first second third
  have reached : s.source.Reached Position.start := Source.reached_start _
  have once : first.2.Arises s := State.Arises.initial.step reached
  have twice : second.2.Arises s := once.step reached
  -- the states are compared as terms, not by what the steps come to
  subst first second third
  have again := Session.furthest_advances once (.seq [.ref "key", .lit ";"]) Position.start
  have later := Session.furthest_advances twice (.ref "key") ⟨3, 1, 4⟩
  exact ⟨by decide +kernel, by decide +kernel, by decide +kernel, by decide +kernel, again.1, later.1⟩

end Steps

end Packrat
