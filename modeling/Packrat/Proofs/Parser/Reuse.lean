import Packrat.Proofs.Parser.Refusal
import Packrat.Proofs.Session.Reuse
import Packrat.Proofs.Session.Steps

/-! Cached rules are evaluated and folded at most once at an offset, in a parse and in the steps of a
session. -/
namespace Packrat

variable {V : Type} {s : Session V} {memo : Memo V} {past : Journal}

namespace Session

/-- No cached rule is evaluated or folded more than once at an offset, and every invocation of it there
but the first uses the kept outcome. The events are in their order. -/
structure EvaluatesOnce (s : Session V) (events : List Record) : Prop where
  attempted : ∀ r ∈ s.grammar.rules, r.cached → ∀ offset,
    (Journal.attempts events).count (r.name, offset) ≤ 1
  folded : ∀ r ∈ s.grammar.rules, r.cached → ∀ offset,
    (Journal.folds events).count (r.name, offset) ≤ 1
  recalled : ∀ r ∈ s.grammar.rules, r.cached → ∀ offset,
    ∀ hit ∈ (Journal.invocations (r.name, offset) events).tail, hit = true
  bounded : (∀ r ∈ s.grammar.rules, r.cached) →
    (Journal.attempts events).length ≤ s.grammar.rules.length * (s.source.size + 1)

/-- Between evaluations the memo accounts for what has been recorded, and no rule is under way. -/
structure Reckons (s : Session V) (memo : Memo V) (events : Journal) : Prop
    extends memo.Accounts s.grammar events where
  orderly : events.Orderly s.Stacked
  idle : events.opened = []

theorem Reckons.empty (s : Session V) : s.Reckons .empty [] where
  known := by simp
  frugal := .nil
  folded := by simp [Journal.folds]
  orderly := .nil .nil
  idle := rfl

/-- A record of the parse tells of no rule. -/
theorem Reckons.parse {r : Record} (reckons : s.Reckons memo past) (outer : r.isParse) :
    s.Reckons memo (r :: past) := by
  obtain ⟨⟨known, frugal, folded⟩, orderly, idle⟩ := reckons
  cases r <;> cases outer
  all_goals exact {
    known := List.forall_mem_cons.mpr ⟨by simp [Record.closes?, Record.reuse?], known⟩
    frugal := List.pairwise_cons.mpr ⟨by simp [Record.attempt?], frugal⟩
    folded := folded
    orderly := orderly.record (by simpa [Journal.active, Journal.opened, idle] using .nil)
      (by simp [Record.closes?])
    idle := idle }

theorem Ends.reckons {α : Type} {st : State V} {result : Outcome α × State V}
    (ends : s.Ends st.journal [] result) (before : s.Reckons st.memo (st.journal ++ past))
    (going : result.1.isAborted = false)
    (accounts : result.2.memo.Accounts s.grammar (result.2.journal ++ past)) :
    s.Reckons result.2.memo (result.2.journal ++ past) := by
  cases ends with
  | aborted => cases going
  | matched tracks | failed tracks =>
    obtain ⟨recent, journal, orderly, idle⟩ := tracks
    simp only [journal, List.append_assoc] at accounts ⊢
    exact ⟨accounts, orderly.append before.orderly before.idle,
      (Journal.opened_append before.idle).trans idle⟩

theorem Reckons.evaluatesOnce {start : String} (accepted : s.grammar.check start = none)
    (reckons : s.Reckons memo past) : s.EvaluatesOnce past.reverse := by
  have distinct : past.Orderly List.Nodup :=
    reckons.orderly.imp fun _ stacked => stacked.nodup (Grammar.acyclic_of_check accepted)
  have keeps : ∀ r ∈ s.grammar.rules, r.cached → s.grammar.Keeps r.name :=
    fun r member cached => ⟨r, Grammar.find?_of_mem member, cached⟩
  have attempts : Journal.attempts past.reverse = past.attempts.reverse := List.filterMap_reverse
  refine ⟨fun r member cached offset => ?_, fun r member cached offset => ?_,
    fun r member cached offset => ?_, fun cached => ?_⟩
  · rw [attempts, List.count_reverse]
    exact reckons.frugal.count_attempts_le distinct (keeps r member cached)
  · let x := (r.name, offset)
    calc (Journal.folds past.reverse).count x
        = past.folds.count x := by simp [Journal.folds, List.filterMap_reverse]
      _ ≤ past.closings.count x := reckons.folded x
      _ ≤ (past.closings ++ past.opened).count x := by simp [List.count_append]
      _ = past.attempts.count x := (distinct.attempts_perm.count_eq x).symm
      _ ≤ 1 := reckons.frugal.count_attempts_le distinct (keeps r member cached)
  · have invocations : Journal.invocations (r.name, offset) past.reverse =
        (past.invocations (r.name, offset)).reverse := List.filterMap_reverse
    intro hit later
    rw [invocations, List.tail_reverse, List.mem_reverse] at later
    exact reckons.frugal.recalled distinct (keeps r member cached) hit later
  · have places : past.attempts ⊆
        s.grammar.rules.map Rule.name ×ˢ List.range (s.source.size + 1) := by
      intro x begun
      obtain ⟨under, stacked⟩ := reckons.orderly.fits_attempt begun
      have placed := stacked.placed x (List.mem_cons_self ..)
      exact List.mem_product.mpr ⟨placed.1, List.mem_range.mpr (Nat.lt_succ_of_le placed.2)⟩
    have kept : ∀ x ∈ past.attempts, s.grammar.Keeps x.1 := by
      intro x begun
      obtain ⟨r, member, name⟩ := List.mem_map.mp (List.mem_product.mp (places begun)).1
      exact name ▸ keeps r member (cached r member)
    have once := reckons.frugal.nodup_attempts distinct kept
    calc (Journal.attempts past.reverse).length
        = past.attempts.length := by rw [attempts, List.length_reverse]
      _ ≤ (s.grammar.rules.map Rule.name ×ˢ List.range (s.source.size + 1)).length :=
        (List.subperm_of_subset once places).length_le
      _ = s.grammar.rules.length * (s.source.size + 1) := by simp [List.length_product]

variable [Value V]

def events (s : Session V) : List Step → State V → List Record
  | [], _ => []
  | step :: plan, st =>
    let result := s.step step.expr step.start st
    result.2.journal.reverse ++ events s plan result.2

omit [Value V] in
theorem isAborted_shown (result : Outcome Position × State V) :
    (shown result).isAborted = result.1.isAborted := by
  rcases result with ⟨_ | _ | _, _⟩ <;> rfl

/-- One step after others. -/
theorem Reckons.step {start : String} (accepted : s.grammar.check start = none) {step : Step}
    (reached : s.source.Reached step.start) {st : State V} (arises : st.Arises s) (before : s.Reckons st.memo past)
    (going : (s.step step.expr step.start st).1.isAborted = false) :
    s.Reckons (s.step step.expr step.start st).2.memo
      ((s.step step.expr step.start st).2.journal ++ past) := by
  let opened : State V := { st with out := [], journal := [] }
  have coherent : opened.memo.Coherent s := arises.memo.coherent
  have ends := evalExpr_ends_anyhow accepted le_rfl reached coherent step.expr
  have accounts := (hereditary_accounts s past).evalExpr
    ((hereditary_accounts s past).invoke s.budget) step.expr step.start opened
  exact ends.reckons before going (accounts before.toAccounts going)

theorem events_evaluatesOnce {start : String} (accepted : s.grammar.check start = none)
    {plan : List Step} (reached : ∀ step ∈ plan, s.source.Reached step.start) {st : State V} (arises : st.Arises s)
    (going : ∀ outcome ∈ s.run plan st, outcome.isAborted = false)
    (before : s.Reckons st.memo past) : s.EvaluatesOnce (past.reverse ++ s.events plan st) := by
  induction plan generalizing st past with
  | nil => simpa [events] using before.evaluatesOnce accepted
  | cons step plan ih =>
    obtain ⟨here, later⟩ := List.forall_mem_cons.mp reached
    rw [run] at going
    obtain ⟨first, others⟩ := List.forall_mem_cons.mp going
    rw [isAborted_shown] at first
    have after := ih later (arises.step here) others (before.step accepted here arises first)
    simpa [events] using after

end Session

namespace Parser

variable [Value V]

/-- A parse that does not end for a fold's error evaluates each cached rule once at an offset. -/
theorem run_evaluatesOnce (p : Parser V) (input : String) {file : Option String} {allowPartial : Bool}
    (unbroken : ∀ error, (p.run input file allowPartial).result = .error error →
      error.isRefusal = false) :
    (Session.ofText p.grammar input.toList).EvaluatesOnce (p.run input file allowPartial).journal := by
  let s := Session.ofText p.grammar input.toList
  let opened : State V := (p.opening input).before
  have coherent : opened.memo.Coherent s := .empty
  have before : s.Reckons opened.memo (opened.journal ++ []) := (Session.Reckons.empty s).parse rfl
  have reached : s.source.Reached Position.start := Source.reached_start _
  have ends := Session.invoke_ends_alone p.accepted le_rfl reached coherent p.find?_startRule
  obtain ⟨v, d, shows⟩ := Session.invoke_shows p.accepted le_rfl reached coherent p.find?_startRule
  have accounts := (Session.hereditary_accounts s []).invoke s.budget p.start p.startRule
    Position.start opened p.find?_startRule before.toAccounts
  rw [run_eq] at unbroken ⊢
  change ∀ error, (close s.source file allowPartial
    (s.invoke s.budget p.startRule Position.start opened).2.failures
    (s.invoke s.budget p.startRule Position.start opened).1).1 = .error error → _ at unbroken
  have going : (s.invoke s.budget p.startRule Position.start opened).1.isAborted = false := by
    cases outcome : (s.invoke s.budget p.startRule Position.start opened).1 with
    | matched | failed => rfl
    | aborted why =>
      rw [outcome] at unbroken
      have refusal := unbroken _ rfl
      cases why with
      | rejected | inconsistent | undefinedRule => cases refusal
      | fault why => exact (d.ne_fault why (shows.aborted_iff.mp outcome)).elim
  have after := ends.reckons before going (accounts going)
  rw [List.append_nil] at after
  exact (after.parse close_isParse).evaluatesOnce p.accepted

/-- Whatever a session of the parser evaluates, step after step without an abort, and whatever a parse
evaluates that does not end for a fold's error: the body of a cached rule is evaluated at most once at an
offset and its fold called at most once, and all further invocations there use the kept outcome. If all
rules are cached, no more bodies are evaluated than there are rules and places. -/
theorem cached_evaluatesOnce (p : Parser V) (input : String) :
    let s := Session.ofText p.grammar input.toList
    (∀ plan : List Session.Step, (∀ step ∈ plan, s.source.Reached step.start) →
      (∀ outcome ∈ s.run plan .initial, outcome.isAborted = false) →
      s.EvaluatesOnce (s.events plan .initial)) ∧
    ∀ file allowPartial, (∀ error, (p.run input file allowPartial).result = .error error →
      error.isRefusal = false) → s.EvaluatesOnce (p.run input file allowPartial).journal := by
  intro s
  constructor
  · intro plan reached going
    exact Session.events_evaluatesOnce p.accepted reached .initial going (Session.Reckons.empty s)
  · intro file allowPartial unbroken
    exact p.run_evaluatesOnce input unbroken

def items : Parser String where
  grammar := .ofRules [
    { name := "item"
      body := .choice [.seq [.ref "word", .lit "="], .seq [.ahead (.ref "word"), .ref "word"]]
      cached := true },
    { name := "word"
      body := .plus (.charClass (CharClass.empty.addRange 'a' 'z'))
      fold := some fun letters => .ok (String.ofList (letters.flatMap Match.text))
      label := some "word"
      cached := true }]
  start := "item"
  accepted := by decide +kernel

/-- The word is tried by two alternatives, once in a lookahead, and by another step. -/
theorem items_evaluatesOnce :
    let s := Session.ofText items.grammar "ab".toList
    let plan : List Session.Step := [⟨.ref "item", Position.start⟩, ⟨.ref "word", Position.start⟩]
    (∀ step ∈ plan, s.source.Reached step.start) ∧
      (∀ outcome ∈ s.run plan .initial, outcome.isAborted = false) ∧
      Journal.invocations ("word", 0) (s.events plan .initial) = [false, true, true, true] ∧
      Journal.folds (s.events plan .initial) = [("word", 0)] ∧
      s.EvaluatesOnce (s.events plan .initial) ∧
      (items.run "ab" none false).result = .ok ⟨"ab", ""⟩ ∧
      s.EvaluatesOnce (items.run "ab" none false).journal := by
  intro s plan
  have reached : ∀ step ∈ plan, s.source.Reached step.start := by
    simpa [plan] using Source.reached_start _
  have going : ∀ outcome ∈ s.run plan .initial, outcome.isAborted = false := by decide +kernel
  have ended : (items.run "ab" none false).result = .ok ⟨"ab", ""⟩ := by decide +kernel
  obtain ⟨steps, runs⟩ := items.cached_evaluatesOnce "ab"
  exact ⟨reached, going, by decide +kernel, by decide +kernel, steps plan reached going, ended,
    runs none false (by simp [ended])⟩

end Parser

end Packrat
