import Packrat.Proofs.Failures
import Packrat.Proofs.Session.Following

/-! Invocations follow the semantics for every budget, whichever rules are cached: what is kept of a
rule is what the rule comes to, and its failures are the same in every context. -/
namespace Packrat

variable {V : Type} [Value V] {s : Session V} {pos : Position} {st : State V}

namespace Memo

theorem Coherent.empty : (Memo.empty : Memo V).Coherent s := by
  intro name r pos entry _ _ _ kept
  simp at kept

/-- If no rule is cached, nothing that is kept is ever used. -/
theorem Coherent.of_uncached (uncached : ∀ r ∈ s.grammar.rules, r.cached = false) (memo : Memo V) :
    memo.Coherent s := by
  intro name r pos entry found cached
  simp [uncached r (List.mem_of_find?_eq_some found)] at cached

theorem Coherent.insert {memo : Memo V} {name : String} {entry : Entry V} {misses : List Miss}
    (coherent : memo.Coherent s) (reached : s.source.Reached pos)
    (failures : entry.failures = Failures.empty.marks misses)
    (d : Derives s (.call name) pos (.ofResult misses entry.result)) :
    (memo.insert name pos.offset entry).Coherent s := by
  intro name' r pos' entry' found cached reached' kept
  rw [find?_insert] at kept
  split at kept
  · rename_i same
    obtain ⟨rfl, offset⟩ := same
    cases kept
    exact reached.eq_of_offset reached' offset ▸ ⟨misses, failures, d⟩
  · exact coherent name' r pos' entry' found cached reached' kept

end Memo

def Rule.told (r : Rule V) (start : Position) (result : Option (Position × Match V))
    (misses : List Miss) : List Miss :=
  result.elim (r.tells start misses) fun _ => misses

namespace Session

omit [Value V] in
theorem reported_marks (r : Rule V) (start : Position) (result : Option (Position × Match V))
    (misses : List Miss) : reported r start result (Failures.empty.marks misses) =
      Failures.empty.marks (r.told start result misses) := by
  unfold reported Rule.told Rule.tells
  cases r.label <;> cases result <;> simp [Failures.marks_empty misses]

section Settle

variable {r : Rule V} {before st' : State V} {misses : List Miss}

omit [Value V] in
theorem enter_isolated (isolated : r.isolated) : (enter r pos before).failures = Failures.empty :=
  if_pos isolated

omit [Value V] in
/-- Whether they were collected apart or not, the failures of a rule come to those told by it. -/
theorem settle_failures (inside : st'.failures = (enter r pos before).failures.marks misses)
    (journal : Journal) (result : Option (Position × Match V)) :
    (settle r pos st'.failures result { leave r before st' with journal }).failures =
      before.failures.marks (r.told pos result misses) := by
  simp only [settle]
  by_cases isolated : r.isolated
  · rw [enter_isolated isolated] at inside
    simp [inside, leave, isolated, reported_marks, Failures.absorb_marks_empty]
  · have unlabelled : r.label = none := by
      simp only [Rule.isolated, Bool.or_eq_true, not_or] at isolated
      simpa using isolated.2
    have told : r.told pos result misses = misses := by
      cases result <;> simp [Rule.told, Rule.tells, unlabelled]
    simpa [leave, enter, isolated, told] using inside

theorem settle_memo (inside : st'.failures = (enter r pos before).failures.marks misses)
    (memo : st'.memo.Coherent s) (reached : s.source.Reached pos) (journal : Journal)
    (result : Option (Position × Match V))
    (d : Derives s (.call r.name) pos (.ofResult (r.told pos result misses) result)) :
    (settle r pos st'.failures result { leave r before st' with journal }).memo.Coherent s := by
  simp only [settle]
  by_cases isolated : r.isolated
  · rw [enter_isolated isolated] at inside
    simp only [isolated, if_true]
    split
    · exact memo.insert reached (by simp [inside, reported_marks]) d
    · exact memo
  · simpa [isolated, leave] using memo

end Settle

omit [Value V] in
@[simp] theorem settle_out (r : Rule V) (inner : Failures) (result : Option (Position × Match V))
    (st : State V) : (settle r pos inner result st).out = st.out := by
  simp only [settle]
  split <;> rfl

/-- A rule completes with its value or is refused; nothing but the journal changes. -/
theorem complete_eq (r : Rule V) {stop : Position} {text : List Char} (children : List (Match V))
    (slice : s.source.slice? pos stop = some text) (st : State V) :
    ∃ journal, s.complete r pos stop children st =
      ((match r.value text children with
        | .ok value => .matched ⟨text, value, pos⟩
        | .error e => .aborted (r.refusal pos e)), { st with journal }) := by
  simp only [complete, slice, foldValue, Rule.value]
  cases r.fold with
  | none => exact ⟨_, rfl⟩
  | some fold =>
    dsimp only [Option.elim]
    rcases fold children with (_ | _) | value <;> exact ⟨_, rfl⟩

omit [Value V] in
theorem noted_eq (st : State V) (wanted : Bool) (first second : Record) :
    ∃ journal, (if wanted then (st.record first).record second else st.record first) =
      { st with journal } := by
  cases wanted <;> exact ⟨_, rfl⟩

/-- The fold of a rule leaves its mark on the journal only. -/
theorem complete_cases (s : Session V) (r : Rule V) (pos stop : Position) (children : List (Match V))
    (st : State V) : ∃ journal,
      (∃ m, s.complete r pos stop children st = (.matched m, { st with journal })) ∨
      ∃ why, s.complete r pos stop children st = (.aborted why, { st with journal }) := by
  unfold complete
  cases s.source.slice? pos stop with
  | none => exact ⟨_, .inr ⟨_, rfl⟩⟩
  | some text =>
    unfold foldValue
    cases r.fold with
    | none => exact ⟨_, .inl ⟨_, rfl⟩⟩
    | some fold =>
      dsimp only
      cases fold children with
      | ok value => exact ⟨_, .inl ⟨_, rfl⟩⟩
      | error e => exact ⟨_, .inr ⟨_, rfl⟩⟩

theorem conclude_failed (s : Session V) (r : Rule V) (pos : Position) (before st' : State V) :
    ∃ journal, s.conclude r pos before .failed st' =
      (.failed, settle r pos st'.failures none { leave r before st' with journal }) := by
  obtain ⟨journal, noted⟩ := noted_eq (leave r before st') r.trace.notesFailures
    (.failed r.name pos) (.failureNoted r.name pos)
  exact ⟨journal, by simp only [conclude, noted]⟩

/-- A rule whose body has matched comes to a match of its own, unless its fold ends the evaluation. -/
theorem conclude_matched (s : Session V) (r : Rule V) (pos stop : Position) (before st' : State V) :
    ∃ journal,
      (∃ m, s.conclude r pos before (.matched stop) st' = (.matched (stop, m),
        settle r pos st'.failures (some (stop, m)) { leave r before st' with journal })) ∨
      ∃ why, s.conclude r pos before (.matched stop) st' =
        (.aborted why, { leave r before st' with journal }) := by
  obtain ⟨journal, noted⟩ := noted_eq (leave r before st') r.trace.notesMatches
    (.matched r.name pos stop) (.matchNoted r.name pos stop)
  obtain ⟨journal', ⟨m, completed⟩ | ⟨why, completed⟩⟩ :=
    s.complete_cases r pos stop st'.out.reverse { leave r before st' with journal }
  · exact ⟨journal', .inl ⟨m, by simp only [conclude, noted, completed]⟩⟩
  · exact ⟨journal', .inr ⟨why, by simp only [conclude, noted, completed]⟩⟩

theorem conclude_follows {r : Rule V} {before : State V} {result : Outcome Position × State V}
    (found : s.grammar.find? name = some r) (reached : s.source.Reached pos)
    (body : Follows s (.expr r.body) pos (enter r pos before) result) :
    FollowsCall s name pos before (s.conclude r pos before result.1 result.2) := by
  obtain rfl := Grammar.name_of_find? found
  obtain ⟨outcome, st'⟩ := result
  rcases body with ⟨memo, rfl | ⟨v, d, shows⟩⟩
  · exact ⟨memo, .inl rfl⟩
  · cases shows with
    | aborted => exact ⟨memo, .inr ⟨_, .call_aborted found d, .aborted⟩⟩
    | failed _ failures =>
      have d := Derives.call_failed found d
      obtain ⟨journal, concluded⟩ := s.conclude_failed r pos before st'
      rw [concluded]
      exact ⟨settle_memo failures memo reached journal none d,
        .inr ⟨_, d, .failed (settle_out ..) (settle_failures failures journal none)⟩⟩
    | @matched _ stop made _ out failures =>
      obtain ⟨text, between⟩ := d.between reached
      have children : st'.out.reverse = made := by simp [out, enter]
      simp only [conclude, children]
      obtain ⟨journal, noted⟩ := noted_eq (leave r before st') r.trace.notesMatches
        (.matched r.name pos stop) (.matchNoted r.name pos stop)
      rw [noted]
      obtain ⟨journal', completed⟩ := complete_eq r made between.slice
        { leave r before st' with journal }
      dsimp only at completed ⊢
      rw [completed]
      cases value : r.value text made with
      | error e =>
        exact ⟨memo, .inr ⟨_, .call_refused found d between.slice value, .aborted⟩⟩
      | ok value' =>
        have d := Derives.call_matched found d between.slice value
        exact ⟨settle_memo failures memo reached journal' (some _) d,
          .inr ⟨_, d, .matched (settle_out ..) (settle_failures failures journal' (some _))⟩⟩

/-- A kept outcome is what evaluation would come to. -/
theorem replay_follows {r : Rule V} {entry : Memo.Entry V}
    (found : s.grammar.find? name = some r) (reached : s.source.Reached pos)
    (coherent : st.memo.Coherent s) (kept : kept? r pos st = some entry) :
    FollowsCall s name pos st (replay r pos entry st) := by
  obtain rfl := Grammar.name_of_find? found
  simp only [kept?] at kept
  split at kept
  · rename_i cached
    obtain ⟨misses, failures, d⟩ := coherent _ r pos entry found cached reached kept
    obtain ⟨result, _⟩ := entry
    obtain rfl := failures
    have absorbed := Failures.absorb_marks_empty st.failures misses
    cases result with
    | none => exact ⟨coherent, .inr ⟨_, d, .failed rfl absorbed⟩⟩
    | some result => exact ⟨coherent, .inr ⟨_, d, .matched rfl absorbed⟩⟩
  · cases kept

theorem invoke_follows (s : Session V) (budget : Nat) : FaithfulCall s (s.invoke budget) := by
  induction budget with
  | zero => exact fun _ _ _ _ _ _ coherent => ⟨coherent, .inl rfl⟩
  | succ budget ih =>
    intro name r pos st found reached coherent
    rw [invoke]
    split
    · rename_i entry kept
      exact replay_follows found reached coherent kept
    · exact conclude_follows found reached (evalExpr_follows ih r.body pos _ reached coherent)

theorem eval_follows (s : Session V) (e : Expr) : Faithful s e (s.eval e) :=
  evalExpr_follows (s.invoke_follows s.budget) e

end Session

end Packrat
