import Packrat.Proofs.Journal
import Packrat.Proofs.Session.Heredity
import Packrat.Proofs.Session.Termination

/-! An evaluation that is not aborted keeps the outcome of every cached rule that it evaluates, and before
it evaluates one it looks for the kept outcome. -/
namespace Packrat

variable {V : Type}

def Grammar.Keeps (g : Grammar V) (name : String) : Prop := ∃ r, g.find? name = some r ∧ r.cached

/-- The memo holds the outcome of every cached rule that has been evaluated or recalled. None has been
evaluated after that, and no fold was called more often than the body before it has ended. -/
structure Memo.Accounts (g : Grammar V) (memo : Memo V) (events : Journal) : Prop where
  known : ∀ r ∈ events, ∀ x, g.Keeps x.1 → r.closes? = some x ∨ r.reuse? = some x →
    (memo.find? x.1 x.2).isSome
  frugal : events.Frugal g.Keeps
  folded : ∀ x, events.folds.count x ≤ events.closings.count x

structure Journal.Concludes (x : String × Nat) (calls : List (String × Nat)) (notes : Journal) :
    Prop where
  attempts : notes.attempts = []
  recalls : ∀ r ∈ notes, r.reuse? = none
  closings : notes.closings = [x]
  folds : notes.folds = calls

namespace Journal.Concludes

variable {notes : Journal} {rule : String} {start stop : Position} {calls : List (String × Nat)}

theorem failed : Concludes (rule, start.offset) [] [.failed rule start] :=
  ⟨rfl, by simp [Record.reuse?], rfl, rfl⟩

theorem failureNoted (concludes : Concludes (rule, start.offset) calls notes) :
    Concludes (rule, start.offset) calls (.failureNoted rule start :: notes) :=
  ⟨concludes.attempts, List.forall_mem_cons.mpr ⟨rfl, concludes.recalls⟩, concludes.closings,
    concludes.folds⟩

theorem matched : Concludes (rule, start.offset) [] [.matched rule start stop] :=
  ⟨rfl, by simp [Record.reuse?], rfl, rfl⟩

theorem matchNoted (concludes : Concludes (rule, start.offset) calls notes) :
    Concludes (rule, start.offset) calls (.matchNoted rule start stop :: notes) :=
  ⟨concludes.attempts, List.forall_mem_cons.mpr ⟨rfl, concludes.recalls⟩, concludes.closings,
    concludes.folds⟩

theorem folded {places : List Position} {error : Option FoldError}
    (concludes : Concludes (rule, start.offset) [] notes) :
    Concludes (rule, start.offset) [(rule, start.offset)] (.folded rule start places error :: notes) :=
  ⟨concludes.attempts, List.forall_mem_cons.mpr ⟨rfl, concludes.recalls⟩, concludes.closings,
    congrArg (List.cons _) concludes.folds⟩

end Journal.Concludes

namespace Memo.Accounts

variable {g : Grammar V} {memo memo' : Memo V} {events notes : Journal} {rule : String}
  {start : Position} {x : String × Nat} {calls : List (String × Nat)}

theorem grow (accounts : memo.Accounts g events)
    (more : ∀ name offset, (memo.find? name offset).isSome → (memo'.find? name offset).isSome) :
    memo'.Accounts g events where
  known r member x keeps settled := more _ _ (accounts.known r member x keeps settled)
  frugal := accounts.frugal
  folded := accounts.folded

/-- A rule of which the memo holds nothing is evaluated. -/
theorem attempt (accounts : memo.Accounts g events)
    (missed : g.Keeps rule → memo.find? rule start.offset = none) :
    memo.Accounts g (.attempted rule start :: events) where
  known := by
    refine List.forall_mem_cons.mpr ⟨?_, accounts.known⟩
    rintro x - (closes | recalls)
    · cases closes
    · cases recalls
  frugal := by
    refine List.pairwise_cons.mpr ⟨?_, accounts.frugal⟩
    rintro r member x ⟨⟩ keeps
    have unknown : ¬ (memo.find? rule start.offset).isSome := by simp [missed keeps]
    exact ⟨fun closes => unknown (accounts.known r member _ keeps (.inl closes)),
      fun recalls => unknown (accounts.known r member _ keeps (.inr recalls))⟩
  folded := accounts.folded

/-- A kept outcome is used. -/
theorem reuse {hit : Bool} (accounts : memo.Accounts g events)
    (found : (memo.find? rule start.offset).isSome) :
    memo.Accounts g (.recalled rule start hit :: events) where
  known := by
    refine List.forall_mem_cons.mpr ⟨?_, accounts.known⟩
    rintro x - (closes | recalls)
    · cases closes
    · cases recalls
      exact found
  frugal := List.pairwise_cons.mpr ⟨by rintro r member x ⟨⟩, accounts.frugal⟩
  folded := accounts.folded

/-- A rule whose outcome is kept from now on has ended. -/
theorem conclude (accounts : memo.Accounts g events) (concludes : notes.Concludes x calls)
    (once : calls.Sublist [x]) (kept : g.Keeps x.1 → (memo.find? x.1 x.2).isSome) : memo.Accounts g (notes ++ events) where
  known r member y keeps settled := by
    rcases List.mem_append.mp member with member | member
    · rcases settled with closes | recalls
      · have closed : y ∈ notes.closings := List.mem_filterMap.mpr ⟨r, member, closes⟩
        rw [concludes.closings, List.mem_singleton] at closed
        subst closed
        exact kept keeps
      · simp [concludes.recalls r member] at recalls
    · exact accounts.known r member y keeps settled
  frugal := by
    have none : ∀ r ∈ notes, r.attempt? = none := List.filterMap_eq_nil_iff.mp concludes.attempts
    refine List.pairwise_append.mpr ⟨?_, accounts.frugal, ?_⟩
    · exact List.pairwise_of_forall_mem_list fun r member _ _ x begins => by simp [none r member] at begins
    · exact fun r member _ _ x begins => by simp [none r member] at begins
  folded y := by
    have before := accounts.folded y
    have more := once.count_le y
    rw [← concludes.folds, ← concludes.closings] at more
    simp only [Journal.folds, Journal.closings, List.filterMap_append, List.count_append] at *
    omega

end Memo.Accounts

namespace Session

variable [Value V] {s : Session V} {r : Rule V} {pos : Position} {st st' : State V}

omit [Value V] in
theorem memo_settle (inner : Failures) (result : Option (Position × Match V)) (st : State V) :
    ∃ entry, (settle r pos inner result st).memo =
      if r.cached then st.memo.insert r.name pos.offset entry else st.memo := by
  refine ⟨⟨result, reported r pos result inner⟩, ?_⟩
  cases cached : r.cached <;> cases label : r.label <;> simp [settle, Rule.isolated, cached, label]

/-- If the evaluation goes on after a rule, the rule has recorded its end, has called its fold at most
once, and has handed over its outcome to be kept. -/
structure Concluded (r : Rule V) (pos : Position) (before : State V)
    (result : Outcome (Position × Match V) × State V) : Prop where
  journal : ∃ calls notes, notes.Concludes (r.name, pos.offset) calls ∧
    calls.Sublist [(r.name, pos.offset)] ∧ result.2.journal = notes ++ before.journal
  memo : ∃ entry, result.2.memo =
    if r.cached then before.memo.insert r.name pos.offset entry else before.memo

/-- A rule that has matched calls its fold, unless it has none. -/
theorem complete_going {stop : Position} {children : List (Match V)}
    (going : (s.complete r pos stop children st).1.isAborted = false) :
    ∃ m, s.complete r pos stop children st = (.matched m, st) ∨
      ∃ places, s.complete r pos stop children st =
        (.matched m, st.record (.folded r.name pos places none)) := by
  simp only [complete, foldValue] at going ⊢
  split at going
  · cases going
  · cases folds : r.fold with
    | none => exact ⟨_, .inl rfl⟩
    | some fold =>
      simp only [folds] at going ⊢
      cases value : fold children with
      | ok => exact ⟨_, .inr ⟨_, rfl⟩⟩
      | error => simp [value, Outcome.isAborted] at going

theorem conclude_going {outcome : Outcome Position}
    (going : (s.conclude r pos st outcome st').1.isAborted = false) :
    outcome.isAborted = false ∧ Concluded r pos st' (s.conclude r pos st outcome st') := by
  cases outcome with
  | aborted => cases going
  | failed =>
    refine ⟨rfl, ?_⟩
    simp only [conclude]
    cases r.trace.notesFailures
    · exact ⟨⟨_, _, .failed, List.nil_sublist _, settle_journal _ _⟩, memo_settle _ _ _⟩
    · exact ⟨⟨_, _, .failureNoted .failed, List.nil_sublist _, settle_journal _ _⟩, memo_settle _ _ _⟩
  | matched stop =>
    refine ⟨rfl, ?_⟩
    simp only [conclude] at going ⊢
    generalize noting : (if r.trace.notesMatches then
      ((leave r st st').record (.matched r.name pos stop)).record (.matchNoted r.name pos stop)
      else (leave r st st').record (.matched r.name pos stop)) = before at going ⊢
    have noted : ∃ notes, Journal.Concludes (r.name, pos.offset) [] notes ∧
        before.journal = notes ++ st'.journal ∧ before.memo = st'.memo := by
      subst noting
      cases r.trace.notesMatches
      · exact ⟨_, .matched, rfl, rfl⟩
      · exact ⟨_, .matchNoted .matched, rfl, rfl⟩
    obtain ⟨notes, concludes, journal, memo⟩ := noted
    have completed : (s.complete r pos stop st'.out.reverse before).1.isAborted = false := by
      generalize s.complete r pos stop st'.out.reverse before = result at going
      rcases result with ⟨_ | _ | _, _⟩ <;> first | rfl | cases going
    obtain ⟨m, unfolded | ⟨places, folded⟩⟩ := complete_going completed
    · simp only [unfolded]
      refine ⟨⟨_, notes, concludes, List.nil_sublist _, ?_⟩, memo ▸ memo_settle _ _ _⟩
      exact (settle_journal _ _).trans journal
    · simp only [folded]
      refine ⟨⟨_, .folded r.name pos places none :: notes, concludes.folded, List.Sublist.refl _, ?_⟩,
        memo ▸ memo_settle _ _ _⟩
      exact (settle_journal _ _).trans (congrArg (List.cons _) journal)

omit [Value V] in
theorem kept?_eq_some {entry : Memo.Entry V} (kept : kept? r pos st = some entry) :
    (st.memo.find? r.name pos.offset).isSome := by
  simp only [kept?] at kept
  split at kept
  · simp [kept]
  · cases kept

omit [Value V] in
theorem kept?_eq_none (found : s.grammar.find? r.name = some r) (kept : kept? r pos st = none)
    (keeps : s.grammar.Keeps r.name) : st.memo.find? r.name pos.offset = none := by
  obtain ⟨r', found', cached⟩ := keeps
  obtain rfl : r = r' := Option.some.inj (found.symm.trans found')
  simpa [kept?, cached] using kept

omit [Value V] in
theorem Concluded.accounts {result : Outcome (Position × Match V) × State V} {past : Journal}
    (concluded : Concluded r pos st result) (found : s.grammar.find? r.name = some r)
    (accounts : st.memo.Accounts s.grammar (st.journal ++ past)) :
    result.2.memo.Accounts s.grammar (result.2.journal ++ past) := by
  obtain ⟨⟨calls, notes, concludes, once, journal⟩, entry, memo⟩ := concluded
  rw [journal, List.append_assoc]
  refine (accounts.grow ?_).conclude concludes once ?_
  · intro name offset known
    rw [memo]
    split
    · rw [Memo.find?_insert]
      split
      · rfl
      · exact known
    · exact known
  · rintro ⟨r', found', cached⟩
    obtain rfl : r = r' := Option.some.inj (found.symm.trans found')
    simp [memo, cached, Memo.find?_insert]

/-- While no evaluation is aborted, the memo goes on accounting for what is recorded. -/
theorem hereditary_accounts (s : Session V) (past : Journal) :
    s.Hereditary
      (fun _ st result => st.memo.Accounts s.grammar (st.journal ++ past) →
        result.1.isAborted = false → result.2.memo.Accounts s.grammar (result.2.journal ++ past))
      fun _ _ st result => st.memo.Accounts s.grammar (st.journal ++ past) →
        result.1.isAborted = false → result.2.memo.Accounts s.grammar (result.2.journal ++ past) where
  leaf _ accounts _ := accounts
  miss _ accounts _ := accounts
  stay accounts _ := accounts
  none_left accounts _ := accounts
  astray _ _ going := by cases going
  undefined _ _ going := by cases going
  runaway _ going := by cases going
  trans first others accounts going := others (first accounts rfl) going
  retry first others accounts going := others (first accounts rfl) going
  undo failed accounts _ := failed accounts rfl
  short matched accounts _ := matched accounts rfl
  enough failed accounts _ := failed accounts rfl
  still matched _ accounts _ := matched accounts rfl
  look inside going _ accounts _ := inside accounts going
  look_aborted _ _ going := by cases going
  ref_matched {_ _ _ _ _ r} called accounts _ := by
    have after := called accounts rfl
    cases r.silent <;> exact after
  ref_failed called accounts _ := called accounts rfl
  ref_aborted _ _ going := by cases going
  call_runaway _ _ going := by cases going
  call_replay found kept accounts _ := by
    obtain rfl := Grammar.name_of_find? found
    exact accounts.reuse (kept?_eq_some kept)
  call_conclude found missed _ body accounts going := by
    obtain rfl := Grammar.name_of_find? found
    obtain ⟨going', concluded⟩ := conclude_going going
    exact concluded.accounts found (body (accounts.attempt (kept?_eq_none found missed)) going')

end Session

end Packrat
