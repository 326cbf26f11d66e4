import Packrat.Proofs.Journal
import Packrat.Proofs.Session.Heredity
import Packrat.Proofs.Session.Refusal
import Packrat.Proofs.Session.Reuse
import Packrat.Proofs.Session.Steps

/-! What evaluations record. The records that follow them form brackets that tell the outcomes of the
rules, unless a fold gives an error: then the records break off after the body of its rule. -/
namespace Packrat

open Journal (details visible Bracketed Begins)

variable {V : Type} [Value V] {s : Session V}

/-- What the record tells of a rule at a place is what the rule comes to there. -/
def Record.Truthful (s : Session V) : Record → Prop
  | recalled rule start hit =>
    s.grammar.Keeps rule ∧ ∃ misses result,
      Derives s (.call rule) start (.ofResult misses result) ∧ result.isSome = hit
  | matched rule start stop => ∃ made misses, Derives s (.call rule) start (.matched stop made misses)
  | failed rule start => ∃ misses, Derives s (.call rule) start (.failed misses)
  | _ => True

inductive Journal.Tells (s : Session V) : Option Abort → List Record → Prop where
  | complete {log : List Record} : Bracketed log → (∀ r ∈ log, r.Truthful s) → Tells s none log
  /-- The fold of `r` has given an error. No bracket around its own has been closed. -/
  | refused {r : Rule V} {fold : Fold V} {made : List (Match V)} {e : FoldError}
      {start stop : Position} {earlier : List Record} :
      s.grammar.find? r.name = some r → r.fold = some fold → fold made = .error e →
      Begins (earlier ++ [.matched r.name start stop]) → (∀ x ∈ earlier, x.Truthful s) →
      Tells s (some (r.refusal start e)) (earlier ++ [.matched r.name start stop])
  | other {why : Abort} {log : List Record} : why.isRefusal = false → Tells s (some why) log

namespace Journal.Tells

variable {first others log : List Record} {ending : Option Abort}

theorem nil : Tells s none [] := .complete .nil (by simp)

theorem append (before : Tells s none first) (after : Tells s ending others) :
    Tells s ending (first ++ others) := by
  cases before with
  | complete brackets truth =>
    cases after with
    | complete brackets' truth' =>
      exact .complete (brackets.append brackets') fun r member =>
        (List.mem_append.mp member).elim (truth r) (truth' r)
    | refused found folds error begins truth' =>
      rw [← List.append_assoc]
      refine .refused found folds error ?_ fun r member =>
        (List.mem_append.mp member).elim (truth r) (truth' r)
      rw [List.append_assoc]
      exact brackets.begins_append begins
    | other otherwise => exact .other otherwise

/-- The body of a rule has ended the evaluation. -/
theorem attempted {why : Abort} (body : Tells s (some why) log) (rule : String) (start : Position) :
    Tells s (some why) (.attempted rule start :: log) := by
  cases body with
  | @refused r fold made e start' stop earlier found folds error begins truth =>
    have cut : Tells s (some (r.refusal start' e))
        ((.attempted rule start :: earlier) ++ [.matched r.name start' stop]) :=
      .refused found folds error (begins.attempted rule start)
        (List.forall_mem_cons.mpr ⟨trivial, truth⟩)
    exact cut
  | other otherwise => exact .other otherwise

/-- The body of a rule has ended, and the record `c` closes its bracket. -/
theorem closed {rule : String} {start : Position} {c : Record} (body : Tells s none log)
    (closes : ∀ {inner}, Bracketed inner → Bracketed (.attempted rule start :: (inner ++ [c])))
    (truth : c.Truthful s) : Tells s none (.attempted rule start :: (log ++ [c])) := by
  cases body with
  | complete brackets inside =>
    refine .complete (closes brackets) (List.forall_mem_cons.mpr ⟨trivial, ?_⟩)
    exact List.forall_mem_append.mpr ⟨inside, by simpa using truth⟩

/-- The body of a rule has matched, and the fold of the rule refuses what it has matched. -/
theorem refuse {r : Rule V} {fold : Fold V} {made : List (Match V)} {e : FoldError}
    {start stop : Position} (body : Tells s none log) (found : s.grammar.find? r.name = some r)
    (folds : r.fold = some fold) (error : fold made = .error e) :
    Tells s (some (r.refusal start e)) (.attempted r.name start :: (log ++ [.matched r.name start stop])) := by
  cases body with
  | complete brackets inside =>
    have begins : Begins ((.attempted r.name start :: log) ++ [.matched r.name start stop]) :=
      ⟨[], by simpa using brackets.matched⟩
    have cut : Tells s (some (r.refusal start e))
        ((.attempted r.name start :: log) ++ [.matched r.name start stop]) :=
      .refused found folds error begins (List.forall_mem_cons.mpr ⟨trivial, inside⟩)
    exact cut

end Journal.Tells

/-- An evaluation with this ending has added to the journal. What is shown are the records that follow it,
with what rules ask for. -/
def Journal.Grows (s : Session V) (before : Journal) (ending : Option Abort) (after : Journal) : Prop :=
  ∃ log, after = log.reverse ++ before ∧ visible log = (details log).flatMap s.grammar.noted ∧
    Tells s ending (details log)

namespace Journal.Grows

variable {before between after : Journal} {ending : Option Abort}

theorem refl (s : Session V) (before : Journal) : before.Grows s none before :=
  ⟨[], rfl, rfl, .nil⟩

theorem astray {why : Abort} (other : why.isRefusal = false) : before.Grows s (some why) before :=
  ⟨[], rfl, rfl, .other other⟩

theorem trans (first : before.Grows s none between) (others : between.Grows s ending after) :
    before.Grows s ending after := by
  obtain ⟨log, rfl, own, tells⟩ := first
  obtain ⟨log', rfl, own', tells'⟩ := others
  refine ⟨log ++ log', by simp, ?_, ?_⟩
  · rw [visible_append, details_append, List.flatMap_append, own, own']
  · rw [details_append]
    exact tells.append tells'

/-- Between the beginning of a rule and the record `c` of its end stands what its body has recorded. -/
theorem close {inner closing : List Record} {c : Record} (rule : String) (start : Position)
    (own : visible inner = (details inner).flatMap s.grammar.noted) (only : details closing = [c])
    (noted : visible closing = s.grammar.noted c)
    (tells : Tells s ending (.attempted rule start :: (details inner ++ [c]))) :
    before.Grows s ending (closing.reverse ++ (inner.reverse ++ .attempted rule start :: before)) := by
  have following : details (.attempted rule start :: (inner ++ closing)) =
      .attempted rule start :: (details inner ++ [c]) := by
    rw [← only, ← details_append]
    rfl
  have shown : visible (.attempted rule start :: (inner ++ closing)) =
      .attempted rule start :: (visible inner ++ visible closing) := by
    rw [← visible_append]
    rfl
  refine ⟨.attempted rule start :: (inner ++ closing), by simp, ?_, following ▸ tells⟩
  rw [following, shown, own, noted]
  simp [Grammar.noted]

end Journal.Grows

section Semantics

variable {name : String} {pos stop : Position} {m : Match V} {st st' : State V}

theorem FollowsCall.derives_matched (follows : FollowsCall s name pos st (.matched (stop, m), st')) :
    ∃ made misses, Derives s (.call name) pos (.matched stop made misses) := by
  rcases follows.verdict with runaway | ⟨v, d, shows⟩
  · cases runaway
  · cases shows
    exact ⟨_, _, d⟩

theorem FollowsCall.ended {result : Outcome (Position × Match V) × State V}
    (follows : FollowsCall s name pos st result) (reached : s.source.Reached pos)
    (x : Position × Match V) (matched : result.1 = .matched x) : s.source.Reached x.1 := by
  obtain ⟨outcome, st'⟩ := result
  obtain rfl : outcome = .matched x := matched
  obtain ⟨made, misses, d⟩ := follows.derives_matched
  exact d.reached reached

theorem FollowsCall.derives_failed (follows : FollowsCall s name pos st (.failed, st')) :
    ∃ misses, Derives s (.call name) pos (.failed misses) := by
  rcases follows.verdict with runaway | ⟨v, d, shows⟩
  · cases runaway
  · cases shows
    exact ⟨_, d⟩

end Semantics

namespace Session

variable {r : Rule V} {pos stop : Position} {st st' : State V}

omit [Value V] in
/-- Of the end of a body one record tells, with the note behind it that the rule asks for. -/
theorem noted_log (st : State V) (wanted : Bool) (closing note : Record)
    (detail : closing.level? = some .detail) (asked : note.level? = some .note) :
    ∃ log, (if wanted then (st.record closing).record note else st.record closing).journal =
        log.reverse ++ st.journal ∧
      details log = [closing] ∧ visible log = if wanted then [closing, note] else [closing] := by
  cases wanted with
  | false =>
    exact ⟨[closing], rfl, by simp [details, Record.isDetail, detail],
      by simp [visible, Record.isVisible, detail]⟩
  | true =>
    exact ⟨[closing, note], rfl, by simp [details, Record.isDetail, detail, asked],
      by simp [visible, Record.isVisible, detail, asked]⟩

/-- The call of a fold is not shown. If it ends the evaluation, it does so with the error of the fold. -/
theorem complete_unseen (s : Session V) (r : Rule V) (pos stop : Position) (children : List (Match V))
    (st : State V) :
    (∃ log, (s.complete r pos stop children st).2.journal = log.reverse ++ st.journal ∧
      details log = [] ∧ visible log = []) ∧
    (s.complete r pos stop children st).1 ≠ .failed ∧
    ∀ why, (s.complete r pos stop children st).1 = .aborted why → why.isRefusal = false ∨
      ∃ fold made e, r.fold = some fold ∧ fold made = .error e ∧ why = r.refusal pos e := by
  have unfolded : ∃ log, st.journal = log.reverse ++ st.journal ∧ details log = [] ∧ visible log = [] :=
    ⟨[], rfl, rfl, rfl⟩
  simp only [complete, foldValue]
  cases s.source.slice? pos stop with
  | none => exact ⟨unfolded, by simp, by simp [Abort.isRefusal]⟩
  | some text =>
    cases folds : r.fold with
    | none => exact ⟨unfolded, by simp, by simp⟩
    | some fold =>
      dsimp only
      cases value : fold children with
      | ok => exact ⟨⟨[_], rfl, rfl, rfl⟩, by simp, by simp⟩
      | error e =>
        refine ⟨⟨[_], rfl, rfl, rfl⟩, by simp, ?_⟩
        rintro why ⟨⟩
        exact .inr ⟨fold, children, e, rfl, value, by cases e <;> rfl⟩

theorem replay_grows {entry : Memo.Entry V} (found : s.grammar.find? r.name = some r)
    (reached : s.source.Reached pos) (coherent : st.memo.Coherent s) (kept : kept? r pos st = some entry) :
    st.journal.Grows s (replay r pos entry st).1.abort? (replay r pos entry st).2.journal := by
  have cached : r.cached ∧ st.memo.find? r.name pos.offset = some entry := by
    simpa [kept?] using kept
  obtain ⟨misses, -, d⟩ := coherent r.name r pos entry found cached.1 reached cached.2
  have ending : (replay r pos entry st).1.abort? = none := by
    unfold replay
    cases entry.result <;> rfl
  rw [ending]
  refine ⟨[.recalled r.name pos entry.result.isSome], rfl, rfl, .complete .recalled ?_⟩
  rintro x member
  obtain rfl := List.mem_singleton.mp member
  exact ⟨⟨r, found, cached.1⟩, misses, entry.result, d, rfl⟩

/-- The record of a rule's end closes the bracket that its beginning has opened. -/
theorem conclude_grows {outcome : Outcome Position} (found : s.grammar.find? r.name = some r)
    (follows : FollowsCall s r.name pos st (s.conclude r pos st outcome st'))
    (body : (enter r pos st).journal.Grows s outcome.abort? st'.journal) :
    st.journal.Grows s (s.conclude r pos st outcome st').1.abort?
      (s.conclude r pos st outcome st').2.journal := by
  obtain ⟨inner, grown, own, tells⟩ := body
  have inside : st'.journal = inner.reverse ++ .attempted r.name pos :: st.journal := grown
  cases outcome with
  | aborted why =>
    refine ⟨.attempted r.name pos :: inner, by simp [conclude, inside], ?_, tells.attempted r.name pos⟩
    have begun : visible (.attempted r.name pos :: inner) = .attempted r.name pos :: visible inner := rfl
    rw [begun, own]
    rfl
  | failed =>
    obtain ⟨closing, journal, only, noted⟩ := noted_log (leave r st st') r.trace.notesFailures
      (.failed r.name pos) (.failureNoted r.name pos) rfl rfl
    have noted : visible closing = s.grammar.noted (.failed r.name pos) := by
      simp [noted, Grammar.noted, found]
    have truth : (Record.failed r.name pos).Truthful s := follows.derives_failed
    have whole : (s.conclude r pos st .failed st').2.journal =
        closing.reverse ++ (inner.reverse ++ .attempted r.name pos :: st.journal) := by
      simp [conclude, journal, inside]
    rw [whole]
    exact .close r.name pos own only noted (tells.closed .failed truth)
  | matched stop =>
    obtain ⟨closing, journal, only, noted⟩ := noted_log (leave r st st') r.trace.notesMatches
      (.matched r.name pos stop) (.matchNoted r.name pos stop) rfl rfl
    simp only [conclude] at follows ⊢
    generalize (if r.trace.notesMatches then
      ((leave r st st').record (.matched r.name pos stop)).record (.matchNoted r.name pos stop)
      else (leave r st st').record (.matched r.name pos stop)) = ended at journal follows ⊢
    obtain ⟨⟨calls, recorded, unseen, unshown⟩, passes, refusals⟩ :=
      s.complete_unseen r pos stop st'.out.reverse ended
    have only : details (closing ++ calls) = [.matched r.name pos stop] := by
      rw [Journal.details_append, only, unseen, List.append_nil]
    have noted : visible (closing ++ calls) = s.grammar.noted (.matched r.name pos stop) := by
      simp [Journal.visible_append, noted, unshown, Grammar.noted, found]
    have whole : (s.complete r pos stop st'.out.reverse ended).2.journal =
        (closing ++ calls).reverse ++ (inner.reverse ++ .attempted r.name pos :: st.journal) := by
      simp [recorded, journal, inside]
    generalize s.complete r pos stop st'.out.reverse ended = result at follows passes refusals whole ⊢
    rcases result with ⟨m | _ | why, after⟩
    · have truth : (Record.matched r.name pos stop).Truthful s := follows.derives_matched
      have closed : st.journal.Grows s none after.journal :=
        whole ▸ .close r.name pos own only noted (tells.closed .matched truth)
      simpa [Outcome.abort?] using closed
    · exact absurd rfl passes
    · have cut : Journal.Tells s (some why)
          (.attempted r.name pos :: (details inner ++ [.matched r.name pos stop])) := by
        rcases refusals why rfl with otherwise | ⟨fold, made, e, folds, error, rfl⟩
        · exact .other otherwise
        · exact tells.refuse found folds error
      exact whole ▸ .close r.name pos own only noted cut

end Session

/-- The evaluation has come to a place of the input, keeps what is true of the rules, and has told of them
in the journal. -/
structure Told {α : Type} (s : Session V) (place : α → Position) (before : State V)
    (result : Outcome α × State V) : Prop where
  memo : result.2.memo.Coherent s
  ended : ∀ x, result.1 = .matched x → s.source.Reached (place x)
  journal : before.journal.Grows s result.1.abort? result.2.journal

def TellsTruly (s : Session V) : Course V := fun pos st result =>
  s.source.Reached pos → st.memo.Coherent s → Told s id st result

def CallTellsTruly (s : Session V) : CallCourse V := fun _ pos st result =>
  s.source.Reached pos → st.memo.Coherent s → Told s Prod.fst st result

namespace Session

/-- Evaluations tell truly of the rules, since those they consist of do. -/
theorem hereditary_tellsTruly (s : Session V) : s.Hereditary (TellsTruly s) (CallTellsTruly s) where
  leaf here reached coherent := by
    refine ⟨coherent, ?_, .refl s _⟩
    rintro stop ⟨⟩
    exact reached.advance here
  miss label _ coherent := ⟨coherent, by simp, .refl s _⟩
  stay reached coherent := ⟨coherent, by simpa using reached, .refl s _⟩
  none_left _ coherent := ⟨coherent, by simp, .refl s _⟩
  astray _ _ coherent := ⟨coherent, by simp, .astray rfl⟩
  undefined _ _ coherent := ⟨coherent, by simp, .astray rfl⟩
  runaway _ coherent := ⟨coherent, by simp, .astray rfl⟩
  trans first others reached coherent := by
    have before := first reached coherent
    have after := others (before.ended _ rfl) before.memo
    exact ⟨after.memo, after.ended, before.journal.trans after.journal⟩
  retry first others reached coherent := by
    have before := first reached coherent
    have after := others reached before.memo
    exact ⟨after.memo, after.ended, before.journal.trans after.journal⟩
  undo failed reached coherent :=
    have after := failed reached coherent
    ⟨after.memo, by simp, after.journal⟩
  short matched reached coherent :=
    have after := matched reached coherent
    ⟨after.memo, by simp, after.journal⟩
  enough failed reached coherent :=
    have after := failed reached coherent
    ⟨after.memo, by simpa using reached, after.journal⟩
  still matched _ reached coherent :=
    have after := matched reached coherent
    ⟨after.memo, by simpa using reached, after.journal⟩
  look inside going verdict reached coherent := by
    have after := inside reached coherent
    have grown := after.journal
    rw [Outcome.abort?_of_isAborted going] at grown
    rcases verdict with rfl | rfl
    · exact ⟨after.memo, by simpa using reached, grown⟩
    · exact ⟨after.memo, by simp, grown⟩
  look_aborted inside reached coherent :=
    have after := inside reached coherent
    ⟨after.memo, by simp, after.journal⟩
  ref_matched {_ _ _ _ _ r} called reached coherent := by
    have after := called reached coherent
    have there := after.ended _ rfl
    cases r.silent <;> exact ⟨after.memo, by simpa using there, after.journal⟩
  ref_failed called reached coherent :=
    have after := called reached coherent
    ⟨after.memo, by simp, after.journal⟩
  ref_aborted called reached coherent :=
    have after := called reached coherent
    ⟨after.memo, by simp, after.journal⟩
  call_runaway _ _ coherent := ⟨coherent, by simp, .astray rfl⟩
  call_replay {_ r pos st entry} found kept reached coherent := by
    obtain rfl := Grammar.name_of_find? found
    have follows := replay_follows found reached coherent kept
    exact ⟨follows.memo, follows.ended reached, replay_grows found reached coherent kept⟩
  call_conclude {_ r pos st result} found _ origin body reached coherent := by
    obtain rfl := Grammar.name_of_find? found
    obtain ⟨budget, rfl⟩ := origin
    have evaluated := evalExpr_follows (s.invoke_follows budget) r.body pos (enter r pos st) reached coherent
    have follows := conclude_follows found reached evaluated
    exact ⟨follows.memo, follows.ended reached,
      conclude_grows found follows (body reached coherent).journal⟩

/-- Whatever a step comes to, the rules have been told of as they ask for it, right behind the records of
their ends. If the step is not aborted, the records that follow it form brackets, and each tells what the
rule comes to at its place. If a fold ends it, they are the beginning of such a word, and the last of them
tells that the body of the fold's rule has matched. -/
theorem journal_bracketed {before : State V} {start : Position} (arises : before.Arises s)
    (reached : s.source.Reached start) (e : Expr) :
    let result := s.step e start before
    let log := result.2.journal.reverse
    visible log = (details log).flatMap s.grammar.noted ∧
    (result.1.isAborted = false → Bracketed (details log) ∧ ∀ x ∈ details log, x.Truthful s) ∧
    ∀ why, result.1 = .aborted why → why.isRefusal →
      ∃ r fold made error earlier place stop, s.grammar.find? r.name = some r ∧ r.fold = some fold ∧
        fold made = .error error ∧ why = r.refusal place error ∧
        details log = earlier ++ [.matched r.name place stop] ∧ Begins (details log) ∧
        ∀ x ∈ earlier, x.Truthful s := by
  intro result log
  have coherent : ({ before with out := [], journal := [] } : State V).memo.Coherent s :=
    arises.memo.coherent
  have told : Told s id { before with out := [], journal := [] } result :=
    (hereditary_tellsTruly s).result (s.stepping e start before) reached coherent
  obtain ⟨events, grown, shown, tells⟩ := told.journal
  have same : log = events := by simp [log, grown]
  rw [same]
  generalize result.1 = outcome at tells ⊢
  refine ⟨shown, fun going => ?_, fun why aborted refusal => ?_⟩
  · rw [Outcome.abort?_of_isAborted going] at tells
    generalize details events = recorded at tells ⊢
    cases tells with
    | complete brackets truth => exact ⟨brackets, truth⟩
  · rw [aborted, Outcome.abort?] at tells
    generalize details events = recorded at tells ⊢
    cases tells with
    | refused found folds error begins truth =>
      exact ⟨_, _, _, _, _, _, _, found, folds, error, rfl, rfl, begins, truth⟩
    | other otherwise => simp [otherwise] at refusal

def shouts : Grammar String := .ofRules [
  { name := "shouts", body := .seq [.ref "shout", .star (.seq [.lit ",", .ref "shout"])] },
  { name := "shout", body := .choice [.seq [.ref "word", .lit "!"], .ref "word"], trace := .failures },
  { name := "word"
    body := .plus (.charClass (CharClass.empty.addRange 'a' 'z'))
    fold := some fun letters =>
      if letters.length ≤ 2 then .ok (String.ofList (letters.flatMap Match.text))
      else .error (.reject "too long")
    cached := true
    trace := .all }]

/-- The second step recalls a word of the first, and ends with one that is too long. -/
theorem shouts_bracketed :
    let s := ofText shouts "ab,xyz".toList
    let first := s.step (.ref "shout") Position.start .initial
    let second := s.step (.ref "shouts") Position.start first.2
    (first.1 = .matched ⟨2, 1, 3⟩ ∧ visible first.2.journal.reverse = [
      .attempted "shout" ⟨0, 1, 1⟩, .attempted "word" ⟨0, 1, 1⟩,
      .matched "word" ⟨0, 1, 1⟩ ⟨2, 1, 3⟩, .matchNoted "word" ⟨0, 1, 1⟩ ⟨2, 1, 3⟩,
      .recalled "word" ⟨0, 1, 1⟩ true, .matched "shout" ⟨0, 1, 1⟩ ⟨2, 1, 3⟩] ∧
      Bracketed (details first.2.journal.reverse)) ∧
    second.1 = .aborted (.rejected "too long" ⟨3, 1, 4⟩) ∧ details second.2.journal.reverse = [
      .attempted "shouts" ⟨0, 1, 1⟩, .attempted "shout" ⟨0, 1, 1⟩, .recalled "word" ⟨0, 1, 1⟩ true,
      .recalled "word" ⟨0, 1, 1⟩ true, .matched "shout" ⟨0, 1, 1⟩ ⟨2, 1, 3⟩,
      .attempted "shout" ⟨3, 1, 4⟩, .attempted "word" ⟨3, 1, 4⟩,
      .matched "word" ⟨3, 1, 4⟩ ⟨6, 1, 7⟩] ∧
      Begins (details second.2.journal.reverse) := by
  intro s first second
  have reached : s.source.Reached Position.start := Source.reached_start _
  have once : first.2.Arises s := State.Arises.initial.step reached
  -- the states are compared as terms, not by what the steps come to
  subst first second
  obtain ⟨-, complete, -⟩ := journal_bracketed .initial reached (.ref "shout")
  obtain ⟨-, -, cut⟩ := journal_bracketed once reached (.ref "shouts")
  have going : (s.step (.ref "shout") Position.start .initial).1 = .matched ⟨2, 1, 3⟩ := by
    decide +kernel
  have aborted : (s.step (.ref "shouts") Position.start
      (s.step (.ref "shout") Position.start .initial).2).1 =
        .aborted (.rejected "too long" ⟨3, 1, 4⟩) := by decide +kernel
  obtain ⟨_, _, _, _, _, _, _, -, -, -, -, -, begins, -⟩ := cut _ aborted rfl
  exact ⟨⟨going, by decide +kernel, (complete (by rw [going]; rfl)).1⟩, aborted, by decide +kernel, begins⟩

end Session

end Packrat
