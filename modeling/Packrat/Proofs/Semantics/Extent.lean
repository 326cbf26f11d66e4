import Packrat.Proofs.Grammar.LeftEdges
import Packrat.Proofs.Semantics

/-! What a match covers: the input from its place to its end. One that covers nothing is a match of a
nullable expression. -/
namespace Packrat

variable {V : Type} {pos stop : Position} {t : Task} {v : Verdict V} {rest : List Char}
  {made made' : List (Match V)} {misses misses' : List Miss}

namespace Verdict

theorem after_eq_matched (h : v.after made' misses' = matched stop made misses) :
    ∃ made'' misses'', v = matched stop made'' misses'' := by
  cases v <;> cases h
  exact ⟨_, _, rfl⟩

theorem silence_eq_matched {silent : Bool} (h : v.silence silent = matched stop made misses) :
    ∃ made', v = matched stop made' misses := by
  cases v <;> cases h
  exact ⟨_, rfl⟩

theorem ofCount_eq_matched {least count : Nat}
    (h : ofCount least count pos made' misses' = matched stop made misses) : least ≤ count := by
  simp only [ofCount] at h
  split at h
  · assumption
  · cases h

def EndsAfter (source : Source) (pos : Position) : Verdict V → Prop
  | matched stop _ _ => ∃ text, source.Between pos text stop
  | _ => True

theorem EndsAfter.after {source : Source} {next : Position} {text : List Char}
    (first : source.Between pos text next) (others : v.EndsAfter source next)
    (made : List (Match V)) (misses : List Miss) : (v.after made misses).EndsAfter source pos := by
  cases v with
  | matched stop =>
    obtain ⟨text', second⟩ := others
    exact ⟨text ++ text', first.trans second⟩
  | failed | aborted => trivial

theorem endsAfter_ofCount {source : Source} {least count : Nat}
    (here : source.rest? pos = some rest) (made : List (Match V)) (misses : List Miss) :
    (ofCount least count pos made misses).EndsAfter source pos := by
  simp only [ofCount]
  split
  · exact ⟨[], .refl here⟩
  · trivial

end Verdict

variable [Value V] {s : Session V}

/-- A match covers the input between its place and its end. -/
theorem Derives.endsAfter (d : Derives s t pos v) (here : s.source.rest? pos = some rest) :
    v.EndsAfter s.source pos := by
  induction d generalizing rest with
  | literal here' => exact ⟨_, _, here', rfl⟩
  | charClass here' => exact ⟨_, _, here', rfl⟩
  | endOfInput | seq_nil => exact ⟨[], .refl here⟩
  | literal_failed | charClass_failed | endOfInput_failed | choice_nil | rounds_aborted
  | ref_undefined | call_refused | call_failed | call_aborted => trivial
  | seq_cons _ _ ih ih' | rounds_more _ _ _ _ ih ih' =>
    obtain ⟨text, tail, there, rfl⟩ := ih here
    exact (ih' (Source.rest?_advanceOver there)).after ⟨tail, there, rfl⟩ _ _
  | seq_stop _ _ ih | choice_take _ _ ih | repeated _ ih => exact ih here
  | choice_next _ _ _ ih => exact (ih here).after (.refl here) _ _
  | rounds_full | rounds_failed | rounds_still => exact Verdict.endsAfter_ofCount here _ _
  | @ahead _ _ v _ ih | @notAhead _ _ v _ ih =>
    cases v
    all_goals first
      | exact ⟨[], .refl here⟩
      | trivial
  | @ref _ _ v _ _ _ ih => cases v <;> exact ih here
  | call_matched _ _ _ _ ih => exact ih here

theorem Derives.between (d : Derives s t pos (.matched stop made misses))
    (reached : s.source.Reached pos) : ∃ text, s.source.Between pos text stop :=
  have ⟨_, here⟩ := reached.exists_rest
  d.endsAfter here

theorem Derives.reached (d : Derives s t pos (.matched stop made misses))
    (reached : s.source.Reached pos) : s.source.Reached stop :=
  have ⟨_, between⟩ := d.between reached
  between.reached reached

theorem Derives.le (d : Derives s t pos (.matched stop made misses))
    (reached : s.source.Reached pos) : pos.offset ≤ stop.offset :=
  have ⟨_, between⟩ := d.between reached
  between.le

/-- What it takes for a task to match without moving. -/
def Task.MayStand (g : Grammar V) : Task → Prop
  | expr e => g.Nullable e
  | rounds body least _ count => g.Nullable body ∨ least ≤ count
  | call name => g.Nullable (.ref name)

theorem Derives.mayStand (d : Derives s t pos v) (reached : s.source.Reached pos)
    (matched : v = .matched stop made misses) (still : stop.offset = pos.offset) :
    t.MayStand s.grammar := by
  induction d generalizing stop made misses with
  | @literal _ _ text _ here size =>
    cases matched
    have nothing : Text.byteSize text = 0 := by simpa using still
    exact .literal (Literal.isEmpty_of_matchSize? (nothing ▸ size))
  | @charClass _ c =>
    cases matched
    have := c.utf8Size_pos
    simp at still
    omega
  | endOfInput => exact .endOfInput
  | seq_nil => exact .seq (by simp)
  | literal_failed | charClass_failed | endOfInput_failed | choice_nil | rounds_aborted
  | ref_undefined | call_refused | call_failed | call_aborted => cases matched
  | seq_cons first others ih ih' =>
    obtain ⟨_, _, rfl⟩ := Verdict.after_eq_matched matched
    have le := first.le reached
    have le' := others.le (first.reached reached)
    have parts := Grammar.nullable_seq_iff.mp (ih' (first.reached reached) rfl (by omega))
    exact .seq (List.forall_mem_cons.mpr ⟨ih reached rfl (by omega), parts⟩)
  | seq_stop _ stop => subst matched; cases stop
  | choice_take _ _ ih => exact .choice (List.mem_cons_self ..) (ih reached matched still)
  | choice_next _ _ _ ih =>
    obtain ⟨_, _, rfl⟩ := Verdict.after_eq_matched matched
    obtain ⟨e, member, nullable⟩ := Grammar.nullable_choice_iff.mp (ih reached rfl still)
    exact .choice (List.mem_cons_of_mem _ member) nullable
  | repeated _ ih =>
    rcases ih reached matched still with nullable | least
    · exact .repeated nullable
    · exact Nat.le_zero.mp least ▸ .optional
  | rounds_full | rounds_failed => exact .inr (Verdict.ofCount_eq_matched matched)
  | rounds_still _ _ still' ih => exact .inl (ih reached rfl still')
  | rounds_more _ first moved others =>
    obtain ⟨_, _, rfl⟩ := Verdict.after_eq_matched matched
    have le := first.le reached
    have le' := others.le (first.reached reached)
    omega
  | ahead => exact .ahead
  | notAhead => exact .notAhead
  | ref _ _ ih =>
    obtain ⟨_, rfl⟩ := Verdict.silence_eq_matched matched
    exact ih reached rfl still
  | call_matched found _ _ _ ih =>
    cases matched
    exact .ref found (ih reached rfl still)

/-- Only nullable expressions match without moving. -/
theorem Derives.nullable {e : Expr} (d : Derives s (.expr e) pos (.matched stop made misses))
    (reached : s.source.Reached pos) (still : stop.offset = pos.offset) : s.grammar.Nullable e :=
  d.mayStand reached rfl still

end Packrat
