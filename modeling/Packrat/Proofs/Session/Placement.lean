import Packrat.Proofs.Places
import Packrat.Proofs.Session.Heredity
import Packrat.Proofs.Session.Steps

/-! Evaluation keeps to the places of the input: from a place, in a state that holds no other
positions, it comes to a place that is not before, leaves such a state, and never cuts the input
elsewhere. So do all the evaluations that it consists of. -/
namespace Packrat

variable {V : Type} {source : Source} {pos stop : Position} {st st' : State V}

/-- A fold has rejected what begins at a place, or evaluation has ended for another reason than a
position outside the input. -/
def Abort.Placed (source : Source) : Abort → Prop
  | rejected _ start => source.Reached start
  | fault .offBoundary => False
  | _ => True

def Outcome.Lands {α : Type} (source : Source) (fit : α → Prop) : Outcome α → Prop
  | matched value => fit value
  | failed => True
  | aborted why => why.Placed source

theorem Outcome.Lands.imp {α : Type} {fit fit' : α → Prop} {outcome : Outcome α}
    (lands : outcome.Lands source fit) (weaker : ∀ value, fit value → fit' value) :
    outcome.Lands source fit' := by
  cases outcome with
  | matched value => exact weaker value lands
  | failed => trivial
  | aborted => exact lands

/-- The end of an evaluation in which all positions are places, and what was matched is fit. -/
structure Settled {α : Type} (source : Source) (fit : α → Prop) (result : Outcome α × State V) :
    Prop where
  state : result.2.Placed source
  lands : result.1.Lands source fit

def KeepsPlaces (source : Source) : Course V := fun pos st result =>
  source.Reached pos → st.Placed source → Settled source (source.Onward pos.offset) result

def CallKeepsPlaces (source : Source) : CallCourse V := fun _ pos st result =>
  source.Reached pos → st.Placed source → Settled source (source.Concludes pos.offset) result

namespace State

theorem Placed.veil (placed : st.Placed source) : st.veil.Placed source :=
  { placed with failures := placed.failures }

theorem Placed.unveil (placed : st'.Placed source) (before : st.Placed source) :
    (st.unveil st').Placed source :=
  { placed with out := before.out, failures := placed.failures }

theorem Placed.enter {r : Rule V} (placed : st.Placed source) (reached : source.Reached pos) :
    (Session.enter r pos st).Placed source := by
  have recorded := placed.record (r := .attempted r.name pos) (reached.record rfl)
  refine { recorded with out := by simp [Session.enter], failures := ?_ }
  simp only [Session.enter]
  split
  · exact Failures.placed_empty
  · exact placed.failures

theorem Placed.leave {r : Rule V} (placed : st'.Placed source) (before : st.Placed source) :
    (Session.leave r st st').Placed source := by
  refine { placed with out := before.out, failures := ?_ }
  simp only [Session.leave]
  split
  · exact before.failures
  · exact placed.failures

end State

namespace Session

variable {r : Rule V} {inner : Failures} {result : Option (Position × Match V)}

theorem reported_placed (reached : source.Reached pos) (placed : inner.Placed source) :
    (reported r pos result inner).Placed source := by
  unfold reported
  split
  · refine Failures.placed_empty.mark ?_ _
    cases furthest : inner.furthest with
    | none => exact reached
    | some far => exact placed far furthest
  · exact placed

theorem settle_placed (placed : st.Placed source) (reached : source.Reached pos)
    (failures : inner.Placed source)
    (ended : ∀ x, result = some x → source.Concludes pos.offset x) :
    (settle r pos inner result st).Placed source := by
  simp only [settle]
  split
  · have own : (reported r pos result inner).Placed source := reported_placed reached failures
    refine { placed with failures := placed.failures.absorb own, memo := ?_ }
    dsimp only
    split
    · exact placed.memo.insert ⟨ended, own⟩ r.name
    · exact placed.memo
  · exact placed

theorem replay_placed {entry : Memo.Entry V} (reached : source.Reached pos)
    (placed : st.Placed source) (kept : kept? r pos st = some entry) :
    Settled source (source.Concludes pos.offset) (replay r pos entry st) := by
  have fits : entry.Placed source pos.offset := by
    simp only [kept?] at kept
    split at kept
    · exact placed.memo _ _ _ kept
    · cases kept
  have recorded := placed.record (r := .recalled r.name pos entry.result.isSome) (reached.record rfl)
  refine ⟨{ recorded with failures := placed.failures.absorb fits.failures }, ?_⟩
  simp only [replay]
  cases result : entry.result with
  | none => trivial
  | some result => exact fits.ended _ result

variable [Value V] {s : Session V}

/-- A fold is given matches that begin at places, and rejects them where the rule began. -/
theorem foldValue_placed (r : Rule V) (text : List Char) {children : List (Match V)}
    (reached : source.Reached pos) (placed : st.Placed source)
    (made : ∀ m ∈ children, m.Placed source) :
    Settled source (fun _ => True) (foldValue r pos text children st) := by
  have folded (error : Option FoldError) :
      (Record.folded r.name pos (children.map Match.start) error).Placed source :=
    List.forall_mem_cons.mpr ⟨reached, List.forall_mem_map.mpr made⟩
  unfold foldValue
  split
  · exact ⟨placed, trivial⟩
  · dsimp only
    split
    · exact ⟨placed.record (folded _), trivial⟩
    · rename_i e _
      refine ⟨placed.record (folded _), ?_⟩
      cases e with
      | reject => exact reached
      | inconsistent => trivial

theorem complete_placed (r : Rule V) {children : List (Match V)} (here : s.source.Reached pos)
    (there : s.source.Onward pos.offset stop) (placed : st.Placed s.source)
    (made : ∀ m ∈ children, m.Placed s.source) :
    Settled s.source (Match.Placed s.source) (s.complete r pos stop children st) := by
  obtain ⟨text, between⟩ := here.between there
  have value := foldValue_placed r text here placed made
  simp only [complete, between.slice]
  generalize foldValue r pos text children st = result at value ⊢
  rcases result with ⟨_ | _ | _, st'⟩
  · exact ⟨value.state, here⟩
  · exact ⟨value.state, trivial⟩
  · exact ⟨value.state, value.lands⟩

theorem conclude_placed {outcome : Outcome Position} (reached : s.source.Reached pos)
    (before : st.Placed s.source) (placed : st'.Placed s.source)
    (lands : outcome.Lands s.source (s.source.Onward pos.offset)) :
    Settled s.source (s.source.Concludes pos.offset) (s.conclude r pos st outcome st') := by
  have left : (leave r st st').Placed s.source := placed.leave before
  cases outcome with
  | aborted why => exact ⟨left, lands⟩
  | failed =>
    simp only [conclude]
    refine ⟨settle_placed ?_ reached placed.failures (by simp), trivial⟩
    have failed := left.record (r := .failed r.name pos) (reached.record rfl)
    split
    · exact failed.record (reached.record rfl)
    · exact failed
  | matched stop =>
    have both : ∀ place ∈ [pos, stop], s.source.Reached place := by
      simpa using ⟨reached, lands.1⟩
    have matched := left.record (r := .matched r.name pos stop) both
    have noted : (if r.trace.notesMatches then
        ((leave r st st').record (.matched r.name pos stop)).record (.matchNoted r.name pos stop)
        else (leave r st st').record (.matched r.name pos stop)).Placed s.source := by
      split
      · exact matched.record both
      · exact matched
    have made : ∀ m ∈ st'.out.reverse, m.Placed s.source := by simpa using placed.out
    have completed := complete_placed r reached lands noted made
    simp only [conclude]
    generalize s.complete r pos stop st'.out.reverse _ = result at completed ⊢
    rcases result with ⟨m | _ | _, after⟩
    · have concludes : s.source.Concludes pos.offset (stop, m) := ⟨lands, completed.lands⟩
      exact ⟨settle_placed completed.state reached placed.failures (by simpa), concludes⟩
    · exact ⟨completed.state, trivial⟩
    · exact ⟨completed.state, completed.lands⟩

/-- Evaluations keep to the places of the input, since those they consist of do. -/
theorem hereditary_keepsPlaces (s : Session V) :
    s.Hereditary (KeepsPlaces s.source) (CallKeepsPlaces s.source) where
  leaf here reached placed := ⟨placed.push reached, reached.advance here, by simp⟩
  miss label reached placed := ⟨placed.mark reached label, trivial⟩
  stay reached placed := ⟨placed, reached, le_rfl⟩
  none_left _ placed := ⟨placed, trivial⟩
  astray nowhere reached _ := by
    obtain ⟨rest, here⟩ := reached.exists_rest
    simp [nowhere] at here
  undefined _ _ placed := ⟨placed, trivial⟩
  runaway _ placed := ⟨placed, trivial⟩
  trans first second reached placed := by
    obtain ⟨between, there, le⟩ := first reached placed
    obtain ⟨after, lands⟩ := second there between
    exact ⟨after, lands.imp fun stop onward => ⟨onward.1, le.trans onward.2⟩⟩
  retry first second reached placed :=
    second reached ((first reached placed).state.backTo placed)
  undo failed reached placed := ⟨(failed reached placed).state.backTo placed, trivial⟩
  short matched reached placed := ⟨(matched reached placed).state.backTo placed, trivial⟩
  enough failed reached placed := ⟨(failed reached placed).state, reached, le_rfl⟩
  still matched _ reached placed := ⟨(matched reached placed).state, reached, le_rfl⟩
  look inside _ outcome reached placed := by
    refine ⟨(inside reached placed.veil).state.unveil placed, ?_⟩
    rcases outcome with rfl | rfl
    · exact ⟨reached, le_rfl⟩
    · trivial
  look_aborted inside reached placed :=
    have ⟨after, lands⟩ := inside reached placed.veil
    ⟨after.unveil placed, lands⟩
  ref_matched {_ _ _ _ _ r} called reached placed := by
    obtain ⟨after, onward, made⟩ := called reached placed
    refine ⟨?_, onward⟩
    split
    · exact after
    · exact after.push made
  ref_failed called reached placed := ⟨(called reached placed).state, trivial⟩
  ref_aborted called reached placed :=
    have ⟨after, lands⟩ := called reached placed
    ⟨after, lands⟩
  call_runaway _ _ placed := ⟨placed, trivial⟩
  call_replay _ kept reached placed := replay_placed reached placed kept
  call_conclude _ _ _ body reached placed := by
    obtain ⟨after, lands⟩ := body reached (placed.enter reached)
    exact conclude_placed reached placed after lands

end Session

section Evaluations

variable [Value V] {s : Session V} {x y : Evaluation V}

structure Evaluation.Begins (source : Source) (x : Evaluation V) : Prop where
  start : source.Reached x.start
  before : x.before.Placed source

/-- The evaluation keeps to the places of the input, and cuts it only there. -/
structure Evaluation.Placed (s : Session V) (x : Evaluation V) : Prop extends x.Begins s.source where
  after : (x.result s).2.Placed s.source
  stop : ∀ stop, (x.result s).1 = .matched stop → s.source.Reached stop
  forward : ∀ stop, (x.result s).1 = .matched stop → x.start.offset ≤ stop.offset
  rejected : ∀ reason place,
    (x.result s).1 = .aborted (.rejected reason place) → s.source.Reached place
  rest : (s.source.rest? x.start).isSome
  slice : ∀ stop, (x.result s).1 = .matched stop → (s.source.slice? x.start stop).isSome
  inside : (x.result s).1 ≠ .aborted (.fault .offBoundary)

theorem Evaluation.Begins.placed (begins : x.Begins s.source) : x.Placed s := by
  obtain ⟨after, lands⟩ := (Session.hereditary_keepsPlaces s).result x begins.start begins.before
  have onward : ∀ stop, (x.result s).1 = .matched stop → s.source.Onward x.start.offset stop := by
    intro stop matched
    simpa [matched, Outcome.Lands] using lands
  have aborted : ∀ why, (x.result s).1 = .aborted why → why.Placed s.source := by
    intro why aborted
    simpa [aborted, Outcome.Lands] using lands
  obtain ⟨rest, here⟩ := begins.start.exists_rest
  refine {
    toBegins := begins
    after
    stop := fun stop matched => (onward stop matched).1
    forward := fun stop matched => (onward stop matched).2
    rejected := fun reason place ended => aborted _ ended
    rest := by simp [here]
    slice := fun stop matched => ?_
    inside := fun ended => aborted _ ended }
  obtain ⟨text, between⟩ := begins.start.between (onward stop matched)
  simp [between.slice]

/-- The direct parts of an evaluation begin where and in what state the parts before them have ended. -/
theorem Session.Part.begins (part : s.Part x y) (begins : x.Begins s.source) : y.Begins s.source := by
  have heredity := Session.hereditary_keepsPlaces s
  obtain ⟨reached, placed⟩ := begins
  cases part with
  | @seq n earlier start before next st _ _ matched =>
    have first := heredity.evalSeq (heredity.invoke n) earlier start before
    rw [matched] at first
    obtain ⟨after, there, -⟩ := first reached placed
    exact ⟨there, after⟩
  | @choice n earlier start before st _ _ failed =>
    have first := heredity.evalChoice (heredity.invoke n) earlier start before
    rw [failed] at first
    exact ⟨reached, (first reached placed).state⟩
  | repeated round =>
    obtain ⟨after, there, -⟩ := heredity.rounds round reached placed
    exact ⟨there, after⟩
  | ahead | notAhead => exact ⟨reached, placed.veil⟩
  | ref => exact ⟨reached, placed.enter reached⟩

theorem Session.Within.begins (within : s.Within x y) (begins : x.Begins s.source) :
    y.Begins s.source := by
  induction within with
  | refl => exact begins
  | tail _ part ih => exact part.begins ih

omit [Value V] in
theorem State.Placed.begins_stepping (placed : st.Placed s.source) (e : Expr)
    (reached : s.source.Reached pos) : (s.stepping e pos st).Begins s.source :=
  ⟨reached, { placed with out := by simp [Session.stepping], journal := by simp [Session.stepping] }⟩

/-- Between the steps of a session too there are no positions but places. -/
theorem State.Arises.placed (arises : st.Arises s) : st.Placed s.source := by
  induction arises with
  | initial => exact placed_initial
  | @step before start e _ reached ih =>
    rw [← Session.result_stepping]
    exact (ih.begins_stepping e reached).placed.after

end Evaluations

end Packrat
