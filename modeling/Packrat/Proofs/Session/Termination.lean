import Packrat.Calculator
import Packrat.Proofs.Semantics.Uniqueness
import Packrat.Proofs.Session.Ending
import Packrat.Proofs.Session.Soundness

/-! Evaluation ends under a grammar that passes the check. Each invocation lies beyond those around it, so a stack
of them is never higher than the budget, and the budget never runs out. So evaluation is adequate: it matches,
fails or is aborted if and only if the semantics does, in whatever state it begins. -/
namespace Packrat

section Termination

variable {V : Type} [Value V] {s : Session V} {pos : Position} {st : State V}
  {base : Journal} {stack : List (String × Nat)}

namespace Session

section Invocation

variable {r : Rule V} {before : State V}

omit [Value V] in
@[simp] theorem settle_journal (inner : Failures) (result : Option (Position × Match V)) :
    (settle r pos inner result st).journal = st.journal := by
  simp only [settle]
  split <;> rfl

omit [Value V] in
@[simp] theorem leave_journal (before st' : State V) :
    (leave r before st').journal = st'.journal := rfl

theorem complete_ends (stop : Position) (children : List (Match V))
    (tracks : s.Tracks base stack st.journal) (stacked : s.Stacked ((r.name, pos.offset) :: stack)) :
    s.Ends base stack (s.complete r pos stop children st) := by
  have folded (places : List Position) (e : Option FoldError) :
      s.Tracks base stack (st.record (.folded r.name pos places e)).journal :=
    tracks.note stacked (fun _ => rfl) (fun _ => rfl) rfl
  simp only [complete]
  split
  · exact .aborted tracks (by simp)
  · simp only [foldValue]
    cases r.fold with
    | none => exact .matched tracks
    | some fold =>
      dsimp only
      rcases fold children with (_ | _) | value
      · exact .aborted (folded ..) (by simp)
      · exact .aborted (folded ..) (by simp)
      · exact .matched (folded ..)

theorem conclude_ends {result : Outcome Position × State V}
    (stacked : s.Stacked ((r.name, pos.offset) :: stack))
    (body : s.Ends base ((r.name, pos.offset) :: stack) result) :
    s.Ends base stack (s.conclude r pos before result.1 result.2) := by
  cases body with
  | aborted tracks bounded => exact .aborted tracks bounded
  | @failed st' tracks =>
    have closed : s.Tracks base stack (.failed r.name pos :: st'.journal) := tracks.close stacked rfl
    have noted : s.Tracks base stack (.failureNoted r.name pos :: .failed r.name pos :: st'.journal) :=
      closed.note stacked (fun _ => rfl) (fun _ => rfl) rfl
    simp only [conclude]
    cases r.trace.notesFailures
    · exact .failed (by simpa using closed)
    · exact .failed (by simpa using noted)
  | @matched stop st' tracks =>
    have closed : s.Tracks base stack (.matched r.name pos stop :: st'.journal) :=
      tracks.close stacked rfl
    have noted : s.Tracks base stack
        (.matchNoted r.name pos stop :: .matched r.name pos stop :: st'.journal) :=
      closed.note stacked (fun _ => rfl) (fun _ => rfl) rfl
    simp only [conclude]
    generalize after : (if r.trace.notesMatches then
      ((leave r before st').record (.matched r.name pos stop)).record (.matchNoted r.name pos stop)
      else (leave r before st').record (.matched r.name pos stop)) = st
    have tracks : s.Tracks base stack st.journal := by
      subst after
      split
      · simpa using noted
      · simpa using closed
    have completed := complete_ends stop st'.out.reverse tracks stacked
    generalize s.complete r pos stop st'.out.reverse st = result at completed ⊢
    cases completed with
    | matched tracks => exact .matched (by simpa using tracks)
    | failed tracks => exact .failed tracks
    | aborted tracks bounded => exact .aborted tracks bounded

omit [Value V] in
theorem replay_ends (entry : Memo.Entry V) (tracks : s.Tracks base stack st.journal)
    (stacked : s.Stacked ((r.name, pos.offset) :: stack)) :
    s.Ends base stack (replay r pos entry st) := by
  have recalled (hit : Bool) :
      s.Tracks base stack (st.record (.recalled r.name pos hit)).journal :=
    tracks.note stacked (fun _ => rfl) (fun _ => rfl) rfl
  simp only [replay]
  cases entry.result with
  | none => exact .failed (recalled false)
  | some result => exact .matched (recalled true)

end Invocation

omit [Value V] in
/-- The body of a rule leads to rules beyond it. -/
theorem leads_body {name : String} {r : Rule V} (found : s.grammar.find? name = some r)
    (fits : s.Fits stack name pos.offset) : s.Leads ((name, pos.offset) :: stack) r.body pos := by
  intro used _ defined offset le edge
  refine fits.over defined ?_
  rcases le.lt_or_eq with lt | still
  · exact .inl lt
  · exact .inr ⟨still, .single ⟨r, found, edge still.symm⟩⟩

theorem invoke_ends {start : String} (accepted : s.grammar.check start = none) (budget : Nat)
    (stacked : s.Stacked stack) (enough : s.budget ≤ budget + stack.length) :
    s.FinishesCall base stack (s.invoke budget) := by
  induction budget generalizing stack with
  | zero =>
    -- With nothing left of the budget, the stack with this invocation on it would be too high.
    intro name r pos st found reached fits standing
    have height := (stacked.push fits reached.offset_le).length_le (Grammar.acyclic_of_check accepted)
    simp only [List.length_cons] at height
    omega
  | succ budget ih =>
    intro name r pos st found reached fits standing
    have stacked' := stacked.push fits reached.offset_le
    have leads := leads_body found fits
    obtain rfl := Grammar.name_of_find? found
    rw [invoke]
    split
    · rename_i entry kept
      exact replay_ends entry standing.tracks stacked'
    · have entered : s.Standing base ((r.name, pos.offset) :: stack) (enter r pos st) :=
        ⟨standing.memo, standing.tracks.attempted stacked'⟩
      have finishes := ih stacked' (by simp only [List.length_cons]; omega)
      exact conclude_ends stacked'
        (evalExpr_ends (s.invoke_follows budget) finishes r.body pos _ reached leads entered)

omit [Value V] in
theorem Ends.ne_runaway {α : Type} {result : Outcome α × State V} (ends : s.Ends base stack result) :
    result.1 ≠ .aborted (.fault .runaway) := by
  cases ends with
  | matched | failed => nofun
  | aborted _ bounded => simpa using bounded

omit [Value V] in
theorem Ends.exists_tracks {α : Type} {result : Outcome α × State V}
    (ends : s.Ends base stack result) : ∃ inner, s.Tracks base inner result.2.journal := by
  cases ends with
  | matched tracks | failed tracks | aborted tracks => exact ⟨_, tracks⟩

section Budget

variable {start : String} (accepted : s.grammar.check start = none) {budget : Nat}
  (enough : s.budget ≤ budget) (reached : s.source.Reached pos) (coherent : st.memo.Coherent s)

include accepted enough reached coherent

theorem invoke_ends_alone {name : String} {r : Rule V} (found : s.grammar.find? name = some r) :
    s.Ends st.journal [] (s.invoke budget r pos st) := by
  have defined : s.grammar.defines name := by rw [← Grammar.isSome_find?, found]; rfl
  exact invoke_ends accepted budget .nil (by simpa using enough) name r pos st found reached
    ⟨defined, by simp⟩ ⟨coherent, .refl s st.journal⟩

theorem evalExpr_ends_alone {e : Expr} (defined : ∀ name ∈ e.refs, s.grammar.defines name) :
    s.Ends st.journal [] (s.evalExpr (s.invoke budget) e pos st) :=
  evalExpr_ends (s.invoke_follows budget) (invoke_ends accepted budget .nil (by simpa using enough)) e
    pos st reached (fun name used _ _ _ _ => ⟨defined name used, by simp⟩) ⟨coherent, .refl s st.journal⟩

/-- With its budget, the invocation of a rule comes to what the semantics gives. -/
theorem invoke_shows {name : String} {r : Rule V} (found : s.grammar.find? name = some r) :
    ∃ v, Derives s (.call name) pos v ∧ ShowsCall st v (s.invoke budget r pos st) :=
  (s.invoke_follows budget name r pos st found reached coherent).verdict.resolve_left
    (invoke_ends_alone accepted enough reached coherent found).ne_runaway

theorem evalExpr_shows {e : Expr} (defined : ∀ name ∈ e.refs, s.grammar.defines name) :
    ∃ v, Derives s (.expr e) pos v ∧ Shows st v (s.evalExpr (s.invoke budget) e pos st) :=
  (evalExpr_follows (s.invoke_follows budget) e pos st reached coherent).verdict.resolve_left
    (evalExpr_ends_alone accepted enough reached coherent defined).ne_runaway

/-- A reference to a name without a rule does not keep an evaluation from ending. -/
theorem evalExpr_ends_anyhow (e : Expr) :
    s.Ends st.journal [] (s.evalExpr (s.invoke budget) e pos st) :=
  evalExpr_ends (s.invoke_follows budget) (invoke_ends accepted budget .nil (by simpa using enough)) e
    pos st reached (fun _ _ defined _ _ _ => ⟨defined, by simp⟩) ⟨coherent, .refl s st.journal⟩

theorem evalExpr_shows_anyhow (e : Expr) :
    ∃ v, Derives s (.expr e) pos v ∧ Shows st v (s.evalExpr (s.invoke budget) e pos st) :=
  (evalExpr_follows (s.invoke_follows budget) e pos st reached coherent).verdict.resolve_left
    (evalExpr_ends_anyhow accepted enough reached coherent e).ne_runaway

end Budget

end Session

/-- The outcomes that are kept after any evaluations under the session, one after the other. -/
inductive Memo.Arises (s : Session V) : Memo V → Prop where
  | empty : Arises s .empty
  | eval : Arises s before.memo → s.source.Reached start → Arises s (s.eval e start before).2.memo
  | invoke : Arises s before.memo → s.grammar.find? name = some r → s.source.Reached start →
      Arises s (s.invoke s.budget r start before).2.memo

theorem Memo.Arises.coherent {memo : Memo V} (arises : memo.Arises s) : memo.Coherent s := by
  induction arises with
  | empty => exact .empty
  | eval _ reached ih => exact (s.eval_follows _ _ _ reached ih).memo
  | invoke _ found reached ih => exact (s.invoke_follows _ _ _ _ _ found reached ih).memo

namespace Session

/-- An evaluation ended without a fault, and at every moment of it no rule was active twice at an
offset, so that the active invocations were no more than rules and places. -/
structure Contained {α : Type} (s : Session V) (before : Journal) (result : Outcome α × State V) :
    Prop where
  ended : ∀ why, result.1 ≠ .aborted (.fault why)
  moments : ∃ recent : Journal, result.2.journal = recent ++ before ∧
    recent.Orderly fun active =>
      active.Nodup ∧ active.length ≤ s.grammar.rules.length * (s.source.size + 1)

omit [Value V] in
theorem Ends.contained {α : Type} {start : String} {result : Outcome α × State V}
    (accepted : s.grammar.check start = none) (ends : s.Ends base [] result)
    (ended : ∀ why, result.1 ≠ .aborted (.fault why)) : s.Contained base result where
  ended := ended
  moments := by
    obtain ⟨_, recent, journal, orderly, -⟩ := ends.exists_tracks
    have acyclic := Grammar.acyclic_of_check accepted
    exact ⟨recent, journal, orderly.imp fun _ stacked => ⟨stacked.nodup acyclic, stacked.length_le acyclic⟩⟩

/-- Under a grammar that passes the check, every invocation and every evaluation ends. It comes to the
same for every sufficient budget, and none of its invocations is active twice at an offset. -/
theorem evaluation_terminates {start : String} (accepted : s.grammar.check start = none)
    (reached : s.source.Reached pos) (arises : st.memo.Arises s) :
    (∀ r ∈ s.grammar.rules, ∃ v, Derives s (.call r.name) pos v ∧ ∀ budget, s.budget ≤ budget →
      ShowsCall st v (s.invoke budget r pos st) ∧
        s.Contained st.journal (s.invoke budget r pos st)) ∧
    ∀ e : Expr, (∀ name ∈ e.refs, s.grammar.defines name) → ∃ v, Derives s (.expr e) pos v ∧
      ∀ budget, s.budget ≤ budget → Shows st v (s.evalExpr (s.invoke budget) e pos st) ∧
        s.Contained st.journal (s.evalExpr (s.invoke budget) e pos st) := by
  have coherent := arises.coherent
  constructor
  · intro r member
    have found := Grammar.find?_of_mem member
    rcases invoke_shows accepted le_rfl reached coherent found with ⟨v, d, -⟩
    refine ⟨v, d, ?_⟩
    intro budget enough
    rcases invoke_shows accepted enough reached coherent found with ⟨v', d', shows⟩
    obtain rfl := d.unique d'
    have ends := invoke_ends_alone accepted enough reached coherent found
    exact ⟨shows, ends.contained accepted fun why fault => d.ne_fault why (shows.aborted_iff.mp fault)⟩
  · intro e defined
    rcases evalExpr_shows accepted le_rfl reached coherent defined with ⟨v, d, -⟩
    refine ⟨v, d, ?_⟩
    intro budget enough
    rcases evalExpr_shows accepted enough reached coherent defined with ⟨v', d', shows⟩
    obtain rfl := d.unique d'
    have ends := evalExpr_ends_alone accepted enough reached coherent defined
    exact ⟨shows, ends.contained accepted fun why fault => d.ne_fault why (shows.aborted_iff.mp fault)⟩

theorem calculator_terminates :
    let s := Session.ofText Calculator.grammar "2*(3+4)".toList
    let sum : Expr := .ref "sum"
    s.grammar.check "start" = none ∧ s.source.Reached Position.start ∧
      (State.initial : State Float).memo.Arises s ∧ (∀ name ∈ sum.refs, s.grammar.defines name) ∧
      (∀ r ∈ s.grammar.rules, ∃ v, Derives s (.call r.name) Position.start v ∧
        ShowsCall .initial v (s.invoke s.budget r Position.start .initial) ∧
        s.Contained [] (s.invoke s.budget r Position.start .initial)) ∧
      ∃ v, Derives s (.expr sum) Position.start v ∧ Shows .initial v (s.eval sum Position.start .initial) ∧
        s.Contained [] (s.eval sum Position.start .initial) := by
  have reached : (Source.ofText "2*(3+4)".toList).Reached Position.start := Source.reached_start _
  have fresh : (State.initial : State Float).memo.Arises
      (ofText Calculator.grammar "2*(3+4)".toList) := .empty
  obtain ⟨rules, exprs⟩ := evaluation_terminates Calculator.grammar_accepted reached fresh
  have defined : ∀ name ∈ (Expr.ref "sum").refs, Calculator.grammar.defines name := by decide +kernel
  refine ⟨Calculator.grammar_accepted, reached, fresh, defined, ?_, ?_⟩
  · intro r member
    obtain ⟨v, d, ends⟩ := rules r member
    exact ⟨v, d, ends _ le_rfl⟩
  · obtain ⟨v, d, ends⟩ := exprs (.ref "sum") defined
    exact ⟨v, d, ends _ le_rfl⟩

end Session

end Termination

section Adequacy

variable {V : Type} {st : State V} {v w : Verdict V} {result : Outcome Position × State V}

namespace Shows

theorem matched_iff (shows : Shows st v result) {stop : Position} {made : List (Match V)} :
    result.1 = .matched stop ∧ result.2.out = made.reverse ++ st.out ↔
      ∃ misses, v = .matched stop made misses := by
  cases shows with
  | matched out => simp [out]
  | failed | aborted => simp

theorem failed_iff (shows : Shows st v result) :
    result.1 = .failed ∧ result.2.out = st.out ↔ ∃ misses, v = .failed misses := by
  cases shows with
  | failed out => simp [out]
  | matched | aborted => simp

end Shows

variable [Value V] {s : Session V} {t : Task} {pos : Position}

theorem Derives.iff_eq (d : Derives s t pos v) : Derives s t pos w ↔ v = w :=
  ⟨d.unique, fun same => same ▸ d⟩

namespace Session

/-- Without cached rules the semantics is all there is to an evaluation, whatever matches and failures
were there before it. -/
theorem eval_adequate {start : String} (accepted : s.grammar.check start = none)
    (uncached : ∀ r ∈ s.grammar.rules, r.cached = false) {e : Expr}
    (defined : ∀ name ∈ e.refs, s.grammar.defines name) (reached : s.source.Reached pos)
    (st : State V) :
    (∃ v, Derives s (.expr e) pos v) ∧
    (∀ stop made, (s.eval e pos st).1 = .matched stop ∧
        (s.eval e pos st).2.out = made.reverse ++ st.out ↔
      ∃ misses, Derives s (.expr e) pos (.matched stop made misses)) ∧
    ((s.eval e pos st).1 = .failed ∧ (s.eval e pos st).2.out = st.out ↔
      ∃ misses, Derives s (.expr e) pos (.failed misses)) ∧
    ∀ why, (s.eval e pos st).1 = .aborted why ↔ Derives s (.expr e) pos (.aborted why) := by
  obtain ⟨v, d, shows⟩ := evalExpr_shows accepted le_rfl reached
    (.of_uncached uncached st.memo) defined
  refine ⟨⟨v, d⟩, ?_, ?_, ?_⟩
  · intro stop made
    simp only [d.iff_eq]
    exact shows.matched_iff
  · simp only [d.iff_eq]
    exact shows.failed_iff
  · intro why
    rw [d.iff_eq]
    exact shows.aborted_iff

def pairs : Grammar String := .ofRules [
  { name := "pair", body := .seq [.ref "letter", .opt (.lit ","), .ref "letter"] },
  { name := "letter", body := .charClass (CharClass.empty.addRange 'a' 'z') }]

theorem pairs_derived :
    let s := ofText pairs "a,b".toList
    pairs.check "pair" = none ∧ (∀ r ∈ pairs.rules, r.cached = false) ∧
      (∀ name ∈ (Expr.ref "pair").refs, pairs.defines name) ∧ s.source.Reached Position.start ∧
      ∃ misses, Derives s (.expr (.ref "pair")) Position.start
        (.matched ⟨3, 1, 4⟩ [⟨['a', ',', 'b'], "a,b", Position.start⟩] misses) := by
  have accepted : pairs.check "pair" = none := by decide +kernel
  have uncached : ∀ r ∈ pairs.rules, r.cached = false := by decide +kernel
  have defined : ∀ name ∈ (Expr.ref "pair").refs, pairs.defines name := by decide +kernel
  have reached : (ofText pairs "a,b".toList).source.Reached Position.start := Source.reached_start _
  obtain ⟨-, matched, -⟩ := eval_adequate accepted uncached defined reached State.initial
  exact ⟨accepted, uncached, defined, reached, (matched ⟨3, 1, 4⟩ _).mp (by decide +kernel)⟩

end Session

end Adequacy

end Packrat
