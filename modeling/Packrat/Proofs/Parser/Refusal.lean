import Packrat.Proofs.Parser.Positions
import Packrat.Proofs.Semantics.Aborts
import Packrat.Proofs.Session.Refusal

/-! The first error of a fold ends the parse, which reports that error and nothing else. -/
namespace Packrat

def Record.isFold : Record → Bool
  | folded .. => true
  | _ => false

def Error.isRefusal : Error → Bool
  | parse ⟨.rejected _, _, _⟩ | inconsistent _ => true
  | _ => false

namespace FoldError

def answer (rule : String) (start : Position) (file : Option String) : FoldError → Error
  | reject reason => .parse ⟨.rejected reason, start, file⟩
  | inconsistent reason => .inconsistent s!"rule `{rule}`: {reason}"

theorem isRefusal_answer (rule : String) (start : Position) (file : Option String) (e : FoldError) :
    (e.answer rule start file).isRefusal := by
  cases e <;> rfl

end FoldError

variable {V : Type}

def Grammar.Refuses (g : Grammar V) (rule : String) (places : List Position) (e : FoldError) : Prop :=
  ∃ r fold made, g.find? rule = some r ∧ r.fold = some fold ∧ made.map Match.start = places ∧
    fold made = .error e

theorem Record.isFold_of_isParse {r : Record} (outer : r.isParse) : r.isFold = false := by
  cases r with
  | folded => cases outer
  | _ => rfl

theorem Record.foldError?_of_isFold {r : Record} (other : r.isFold = false) : r.foldError? = none := by
  cases r with
  | folded => cases other
  | _ => rfl

/-- Where one record alone tells of a fold's error, the journal can be cut there in one way. -/
theorem Journal.Clean.cut_unique {a b a' b' : Journal} {x y : Record} (before : a.Clean) (after : b.Clean)
    (same : a ++ x :: b = a' ++ y :: b') (error : y.foldError?.isSome) : a = a' ∧ x = y ∧ b = b' := by
  have outside {j : Journal} (clean : j.Clean) : y ∉ j := fun member => by simp [clean y member] at error
  rcases List.append_eq_append_iff.mp same with ⟨c, rfl, cut⟩ | ⟨c, rfl, cut⟩ <;>
    rcases c with _ | ⟨z, c⟩ <;> simp only [List.nil_append, List.cons_append, List.cons.injEq] at cut
  · exact ⟨by simp, cut.1, cut.2⟩
  · exact (outside after (by simp [cut.2])).elim
  · exact ⟨by simp, cut.1.symm, cut.2.symm⟩
  · exact (outside before (by simp [cut.1])).elim

/-- The parse ended for a fold's error if and only if a fold gave one. That was the last call of a fold,
and the parse reports just that error. -/
structure Run.HeedsFolds (g : Grammar V) (file : Option String) (run : Run V) : Prop where
  ended : (∃ error, run.result = .error error ∧ error.isRefusal) ↔
    ∃ r ∈ run.journal, r.foldError?.isSome
  last : ∀ earlier rule start places e later,
    run.journal = earlier ++ .folded rule start places (some e) :: later →
    Journal.Clean earlier ∧ (∀ r ∈ later, r.isFold = false) ∧ g.Refuses rule places e ∧
      run.result = .error (e.answer rule start file)

namespace Run.HeedsFolds

variable {g : Grammar V} {file : Option String} {run : Run V}

theorem of_clean (clean : Journal.Clean run.journal)
    (other : ∀ error, run.result = .error error → ¬ error.isRefusal) : run.HeedsFolds g file where
  ended := by
    constructor
    · rintro ⟨error, result, refusal⟩
      exact (other error result refusal).elim
    · rintro ⟨r, member, error⟩
      simp [clean r member] at error
  last earlier rule start places e later cut := by
    have silent := clean (.folded rule start places (some e)) (by simp [cut])
    cases silent

theorem of_refused {earlier later : Journal} {rule : String} {start : Position}
    {places : List Position} {e : FoldError}
    (cut : run.journal = earlier ++ .folded rule start places (some e) :: later)
    (clean : earlier.Clean) (last : ∀ r ∈ later, r.isFold = false) (refuses : g.Refuses rule places e)
    (result : run.result = .error (e.answer rule start file)) : run.HeedsFolds g file where
  ended := iff_of_true ⟨_, result, e.isRefusal_answer rule start file⟩
    ⟨.folded rule start places (some e), by simp [cut], rfl⟩
  last earlier' rule' start' places' e' later' cut' := by
    have silent : Journal.Clean later := fun r member => Record.foldError?_of_isFold (last r member)
    obtain ⟨rfl, same, rfl⟩ := clean.cut_unique silent (cut.symm.trans cut') rfl
    cases same
    exact ⟨clean, last, refuses, result⟩

end Run.HeedsFolds

namespace Parser

variable {source : Source} {file : Option String} {allowPartial : Bool} {failures : Failures}
  {outcome : Outcome (Position × Match V)}

theorem ofAbort_refusal (r : Rule V) (start : Position) (e : FoldError) (file : Option String) :
    ofAbort file (r.refusal start e) = e.answer r.name start file := by
  cases e <;> rfl

theorem close_isParse : (close source file allowPartial failures outcome).2.isParse := by
  rcases outcome with ⟨stop, m⟩ | _ | why
  · simp only [close]
    split
    · rfl
    · split <;> rfl
  · rfl
  · cases why <;> rfl

/-- A parse ends for a fold's error only if the evaluation did, or came to a name without a rule. -/
theorem close_isRefusal {error : Error}
    (ended : (close source file allowPartial failures outcome).1 = .error error)
    (refusal : error.isRefusal) :
    ∃ why, outcome = .aborted why ∧ (why.isRefusal ∨ ∃ name, why = .undefinedRule name) := by
  rcases outcome with ⟨stop, m⟩ | _ | why
  · simp only [close] at ended
    split at ended
    · cases ended
      cases refusal
    · split at ended <;> cases ended
      cases refusal
  · cases ended
    cases refusal
  · refine ⟨why, rfl, ?_⟩
    cases why with
    | rejected | inconsistent => exact .inl rfl
    | undefinedRule name => exact .inr ⟨name, rfl⟩
    | fault =>
      cases ended
      cases refusal

/-- The record that closes a parse follows those of its evaluation. -/
theorem close_heeds {g : Grammar V} {before journal : Journal} (start : before.Clean)
    (heeds : before.Heeds g outcome.abort? journal)
    (defined : ∀ name, outcome ≠ .aborted (.undefinedRule name)) :
    Run.HeedsFolds g file ⟨(close source file allowPartial failures outcome).1,
      ((close source file allowPartial failures outcome).2 :: journal).reverse⟩ := by
  have closing : (close source file allowPartial failures outcome).2.isFold = false :=
    Record.isFold_of_isParse close_isParse
  generalize ending : outcome.abort? = why at heeds
  cases heeds with
  | clean clean other =>
    have silent := (clean.append start).cons (Record.foldError?_of_isFold closing)
    refine .of_clean (fun r member => silent r (List.mem_reverse.mp member)) ?_
    intro error ended refusal
    obtain ⟨why, rfl, refused | ⟨name, rfl⟩⟩ := close_isRefusal ended refusal
    · simp [other why ending.symm] at refused
    · exact defined name rfl
  | @refused _ made e earlier place r found folds refuses clean =>
    obtain rfl : outcome = .aborted (r.refusal place e) := by
      cases outcome <;> cases ending
      rfl
    generalize (close source file allowPartial failures (.aborted (r.refusal place e))).2 = closed
      at closing ⊢
    have cut : (closed :: .folded r.name place (made.map Match.start) (some e) ::
        (earlier ++ before)).reverse = (earlier ++ before).reverse ++
          .folded r.name place (made.map Match.start) (some e) :: [closed] := by simp
    have silent : Journal.Clean (earlier ++ before).reverse := fun r member =>
      clean.append start r (List.mem_reverse.mp member)
    refine .of_refused cut silent (by simpa using closing) ⟨r, _, made, found, folds, rfl, refuses⟩ ?_
    simp [close, ofAbort_refusal]

variable [Value V]

theorem invoke_ne_undefined (p : Parser V) (input : String) (missing : String) :
    let s := Session.ofText p.grammar input.toList
    (s.invoke s.budget p.startRule Position.start (p.opening input).before).1 ≠
      .aborted (.undefinedRule missing) := by
  intro s undefined
  have coherent : (p.opening input).before.memo.Coherent s := .empty
  obtain ⟨v, d, shows⟩ := Session.invoke_shows p.accepted le_rfl (Source.reached_start _) coherent
    p.find?_startRule
  have defined : ∀ name ∈ (Task.call p.start).refs, s.grammar.defines name := by
    rintro name member
    obtain rfl := List.mem_singleton.mp member
    exact Grammar.defines_of_check p.accepted
  exact d.ne_undefined p.accepted defined missing (shows.aborted_iff.mp undefined)

/-- Consider the calls of folds in a parse, in their order. The parse ends for a fold's error if and only
if some call gave one, which then is the last call, and the parse reports that error. -/
theorem run_heedsFolds (p : Parser V) (input : String) (file : Option String) (allowPartial : Bool) :
    (p.run input file allowPartial).HeedsFolds p.grammar file := by
  have heeds := (Session.hereditary_heeds (.ofText p.grammar input.toList)).invoke
    (Session.ofText p.grammar input.toList).budget p.start p.startRule Position.start
    (p.opening input).before p.find?_startRule
  rw [run_eq]
  exact close_heeds (Journal.Clean.nil.cons rfl) heeds (p.invoke_ne_undefined input)

def names : Parser String where
  grammar := .ofRules [
    { name := "names"
      body := .choice [
        .seq [.star (.seq [.ref "name", .lit ",", .ahead (.ref "name")]), .ref "name"],
        .star (.charClass (CharClass.empty.addRange ' ' '~'))] },
    { name := "name"
      body := .plus (.charClass (CharClass.empty.addRange 'a' 'z'))
      fold := some fun letters =>
        let text := letters.flatMap Match.text
        if text = "if".toList then .error (.reject "a keyword is no name")
        else .ok (String.ofList text)
      label := some "name"
      cached := true }]
  start := "names"
  accepted := by decide +kernel

/-- The keyword is met in a lookahead within a repetition, and there is another alternative. -/
theorem names_refused :
    let run := names.run "a,if" none false
    let error : FoldError := .reject "a keyword is no name"
    ∃ earlier later, run.journal =
        earlier ++ .folded "name" ⟨2, 1, 3⟩ [⟨2, 1, 3⟩, ⟨3, 1, 4⟩] (some error) :: later ∧
      .folded "name" ⟨0, 1, 1⟩ [⟨0, 1, 1⟩] none ∈ earlier ∧ (∀ r ∈ later, r.isFold = false) ∧
      names.grammar.Refuses "name" [⟨2, 1, 3⟩, ⟨3, 1, 4⟩] error ∧
      run.result = .error (.parse ⟨.rejected "a keyword is no name", ⟨2, 1, 3⟩, none⟩) := by
  intro run error
  have cut : run.journal = run.journal.take 7 ++
      .folded "name" ⟨2, 1, 3⟩ [⟨2, 1, 3⟩, ⟨3, 1, 4⟩] (some error) :: run.journal.drop 8 := by
    decide +kernel
  obtain ⟨-, last, refuses, result⟩ := (names.run_heedsFolds "a,if" none false).last _ _ _ _ _ _ cut
  exact ⟨_, _, cut, by decide +kernel, last, refuses, result⟩

end Parser

end Packrat
