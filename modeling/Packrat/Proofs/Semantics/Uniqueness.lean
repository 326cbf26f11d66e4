import Packrat.Proofs.Semantics

/-! The meaning of a task at a place is unique. -/
namespace Packrat

variable {V : Type} [Value V] {s : Session V} {pos : Position} {t : Task} {v w : Verdict V}

theorem Derives.unique (d : Derives s t pos v) (d' : Derives s t pos w) : v = w := by
  induction d generalizing w with
  | literal here size =>
    cases d' with
    | literal here' size' =>
      have same := Option.some.inj (here.symm.trans here')
      rw [← same, size, Option.some.injEq] at size'
      have spelled := Source.prefix_unique (List.prefix_append ..) (same ▸ List.prefix_append ..)
        size'.symm
      rw [spelled]
    | literal_failed here' none =>
      rw [← Option.some.inj (here.symm.trans here'), size] at none
      cases none
  | literal_failed here none =>
    cases d' with
    | literal here' size' =>
      rw [← Option.some.inj (here.symm.trans here'), none] at size'
      cases size'
    | literal_failed => rfl
  | charClass here member =>
    cases d' with
    | charClass here' member' => cases here.symm.trans here'; rfl
    | charClass_failed here' apart =>
      cases here.symm.trans here'
      simp [member] at apart
  | charClass_failed here apart =>
    cases d' with
    | charClass here' member =>
      cases here.symm.trans here'
      simp [member] at apart
    | charClass_failed => rfl
  | endOfInput here =>
    cases d' with
    | endOfInput => rfl
    | endOfInput_failed here' => simp [here] at here'
  | endOfInput_failed here =>
    cases d' with
    | endOfInput here' => simp [here] at here'
    | endOfInput_failed => rfl
  | seq_nil => cases d'; rfl
  | seq_cons first others ih ih' =>
    cases d' with
    | seq_cons first' others' => cases ih first'; rw [ih' others']
    | seq_stop first' stop => cases ih first'; cases stop
  | seq_stop first stop ih =>
    cases d' with
    | seq_cons first' others' => cases ih first'; cases stop
    | seq_stop first' stop => exact ih first'
  | choice_nil => cases d'; rfl
  | choice_take first took ih =>
    cases d' with
    | choice_take first' took' => exact ih first'
    | choice_next first' others' => cases ih first'; cases took
  | choice_next first others ih ih' =>
    cases d' with
    | choice_take first' took' => cases ih first'; cases took'
    | choice_next first' others' => cases ih first'; rw [ih' others']
  | repeated rounds ih => cases d' with | repeated rounds' => exact ih rounds'
  | rounds_full full =>
    cases d' with
    | rounds_full => rfl
    | rounds_failed room | rounds_still room | rounds_more room | rounds_aborted room =>
      simp [full] at room
  | rounds_failed room body ih =>
    cases d' with
    | rounds_full full => simp [full] at room
    | rounds_failed _ body' => cases ih body'; rfl
    | rounds_still _ body' | rounds_more _ body' | rounds_aborted _ body' => cases ih body'
  | rounds_still room body still ih =>
    cases d' with
    | rounds_full full => simp [full] at room
    | rounds_still _ body' => cases ih body'; rfl
    | rounds_more _ body' moved => cases ih body'; exact absurd still moved
    | rounds_failed _ body' | rounds_aborted _ body' => cases ih body'
  | rounds_more room body moved rounds ih ih' =>
    cases d' with
    | rounds_full full => simp [full] at room
    | rounds_still _ body' still => cases ih body'; exact absurd still moved
    | rounds_more _ body' _ rounds' => cases ih body'; rw [ih' rounds']
    | rounds_failed _ body' | rounds_aborted _ body' => cases ih body'
  | rounds_aborted room body ih =>
    cases d' with
    | rounds_full full => simp [full] at room
    | rounds_aborted _ body' => exact ih body'
    | rounds_failed _ body' | rounds_still _ body' | rounds_more _ body' => cases ih body'
  | ahead body ih => cases d' with | ahead body' => rw [ih body']
  | notAhead body ih => cases d' with | notAhead body' => rw [ih body']
  | ref found call ih =>
    cases d' with
    | ref found' call' => cases found.symm.trans found'; rw [ih call']
    | ref_undefined missing => simp [found] at missing
  | ref_undefined missing =>
    cases d' with
    | ref found call => simp [missing] at found
    | ref_undefined => rfl
  | call_matched found body slice value ih =>
    cases d' with
    | call_matched found' body' slice' value' =>
      cases found.symm.trans found'
      cases ih body'
      cases slice.symm.trans slice'
      cases value.symm.trans value'
      rfl
    | call_refused found' body' slice' error =>
      cases found.symm.trans found'
      cases ih body'
      cases slice.symm.trans slice'
      cases value.symm.trans error
    | call_failed found' body' | call_aborted found' body' =>
      cases found.symm.trans found'
      cases ih body'
  | call_refused found body slice error ih =>
    cases d' with
    | call_matched found' body' slice' value =>
      cases found.symm.trans found'
      cases ih body'
      cases slice.symm.trans slice'
      cases error.symm.trans value
    | call_refused found' body' slice' error' =>
      cases found.symm.trans found'
      cases ih body'
      cases slice.symm.trans slice'
      cases error.symm.trans error'
      rfl
    | call_failed found' body' | call_aborted found' body' =>
      cases found.symm.trans found'
      cases ih body'
  | call_failed found body ih =>
    cases d' with
    | call_failed found' body' =>
      cases found.symm.trans found'
      cases ih body'
      rfl
    | call_matched found' body' | call_refused found' body' | call_aborted found' body' =>
      cases found.symm.trans found'
      cases ih body'
  | call_aborted found body ih =>
    cases d' with
    | call_aborted found' body' =>
      cases found.symm.trans found'
      exact ih body'
    | call_matched found' body' | call_refused found' body' | call_failed found' body' =>
      cases found.symm.trans found'
      cases ih body'

end Packrat
