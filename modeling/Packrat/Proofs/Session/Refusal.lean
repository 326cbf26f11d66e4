import Packrat.Proofs.Session.Heredity
import Packrat.Proofs.Session.Termination

/-! A fold that gives an error ends the evaluation. No fold is called after it, whatever expressions and
rules stand around the rule whose match it refused, and the evaluation ends with that error. -/
namespace Packrat

def Record.foldError? : Record → Option FoldError
  | folded _ _ _ error => error
  | _ => none

def Journal.Clean (j : Journal) : Prop := ∀ r ∈ j, r.foldError? = none

def Abort.isRefusal : Abort → Bool
  | rejected .. | inconsistent .. => true
  | undefinedRule _ | fault _ => false

def Outcome.abort? {α : Type} : Outcome α → Option Abort
  | aborted why => some why
  | _ => none

theorem Outcome.abort?_of_isAborted {α : Type} {outcome : Outcome α}
    (going : outcome.isAborted = false) : outcome.abort? = none := by
  cases outcome with
  | matched | failed => rfl
  | aborted => cases going

variable {V : Type} {g : Grammar V}

/-- What has been recorded since `before`, in an evaluation that heeds the errors of folds: either there
was none and the evaluation has not ended for one, or the fold of a rule gave one, as the last thing
recorded, and that is how the evaluation has ended. -/
inductive Journal.Heeds (g : Grammar V) (before : Journal) : Option Abort → Journal → Prop where
  | clean {ending : Option Abort} : Journal.Clean recent → (∀ why ∈ ending, why.isRefusal = false) →
      Heeds g before ending (recent ++ before)
  | refused {r : Rule V} : g.find? r.name = some r → r.fold = some fold → fold made = .error e →
      Journal.Clean earlier →
      Heeds g before (some (r.refusal start e))
        (.folded r.name start (made.map Match.start) (some e) :: (earlier ++ before))

namespace Journal

variable {before j j' : Journal} {ending : Option Abort} {r : Record}

theorem Clean.nil : Clean [] := by simp [Clean]

theorem Clean.cons (clean : j.Clean) (silent : r.foldError? = none) : Clean (r :: j) :=
  List.forall_mem_cons.mpr ⟨silent, clean⟩

theorem Clean.append (clean : j.Clean) (clean' : j'.Clean) : Clean (j ++ j') :=
  fun r member => (List.mem_append.mp member).elim (clean r) (clean' r)

namespace Heeds

theorem refl (g : Grammar V) (before : Journal) (ending : Option Abort)
    (other : ∀ why ∈ ending, why.isRefusal = false) : Heeds g before ending before :=
  .clean .nil other

theorem going (heeds : Heeds g before none j) : ∃ recent, Clean recent ∧ j = recent ++ before := by
  cases heeds with
  | clean clean => exact ⟨_, clean, rfl⟩

theorem trans (first : Heeds g before none j) (others : Heeds g j ending j') :
    Heeds g before ending j' := by
  obtain ⟨recent, clean, rfl⟩ := first.going
  cases others with
  | clean clean' other =>
    rw [← List.append_assoc]
    exact .clean (clean'.append clean) other
  | refused found folds refuses clean' =>
    rw [← List.append_assoc]
    exact .refused found folds refuses (clean'.append clean)

/-- A record that tells of no error. -/
theorem record (silent : r.foldError? = none) : Heeds g before none (r :: before) :=
  .clean (Clean.nil.cons silent) (by simp)

end Heeds

end Journal

namespace Session

open Journal (Heeds)

variable {s : Session V} {r : Rule V} {pos : Position} {st : State V}

theorem replay_heeds (entry : Memo.Entry V) :
    Heeds g st.journal (replay r pos entry st).1.abort? (replay r pos entry st).2.journal := by
  have recalled (hit : Bool) : Heeds g st.journal none (.recalled r.name pos hit :: st.journal) :=
    .record rfl
  simp only [replay]
  cases entry.result with
  | none => exact recalled false
  | some => exact recalled true

variable [Value V]

theorem foldValue_heeds (found : g.find? r.name = some r) (text : List Char)
    (children : List (Match V)) :
    Heeds g st.journal (foldValue r pos text children st).1.abort?
      (foldValue r pos text children st).2.journal := by
  unfold foldValue
  split
  · exact .refl g _ _ (by simp [Outcome.abort?])
  · rename_i fold folds
    dsimp only
    split
    · exact .record rfl
    · rename_i e refuses
      exact .refused found folds refuses Journal.Clean.nil

theorem complete_heeds (found : g.find? r.name = some r) (stop : Position)
    (children : List (Match V)) :
    Heeds g st.journal (s.complete r pos stop children st).1.abort?
      (s.complete r pos stop children st).2.journal := by
  simp only [complete]
  split
  · exact .refl g _ _ (by simp [Outcome.abort?, Abort.isRefusal])
  · rename_i text _
    have value : Heeds g st.journal (foldValue r pos text children st).1.abort?
      (foldValue r pos text children st).2.journal := foldValue_heeds found text children
    generalize foldValue r pos text children st = result at value ⊢
    rcases result with ⟨_ | _ | _, st'⟩ <;> exact value

theorem conclude_heeds {before : Journal} {result : Outcome Position × State V}
    (found : g.find? r.name = some r) (body : Heeds g before result.1.abort? result.2.journal) :
    Heeds g before (s.conclude r pos st result.1 result.2).1.abort?
      (s.conclude r pos st result.1 result.2).2.journal := by
  obtain ⟨_ | _ | why, st'⟩ := result
  · rename_i stop
    have matched : Heeds g before none (.matched r.name pos stop :: st'.journal) :=
      body.trans (.record rfl)
    simp only [conclude]
    generalize noting : (if r.trace.notesMatches then
      ((leave r st st').record (.matched r.name pos stop)).record (.matchNoted r.name pos stop)
      else (leave r st st').record (.matched r.name pos stop)) = before'
    have noted : Heeds g before none before'.journal := by
      subst noting
      split
      · exact matched.trans (.record rfl)
      · exact matched
    have completed : Heeds g before (s.complete r pos stop st'.out.reverse before').1.abort?
        (s.complete r pos stop st'.out.reverse before').2.journal :=
      noted.trans (complete_heeds found stop st'.out.reverse)
    generalize s.complete r pos stop st'.out.reverse before' = result at completed ⊢
    rcases result with ⟨_ | _ | _, after⟩
    · simp only [settle_journal]
      exact completed
    · exact completed
    · exact completed
  · have failed : Heeds g before none (.failed r.name pos :: st'.journal) :=
      body.trans (.record rfl)
    simp only [conclude, settle_journal]
    split
    · exact failed.trans (.record rfl)
    · exact failed
  · exact body

/-- Evaluations heed the errors of folds, since those they consist of do. -/
theorem hereditary_heeds (s : Session V) :
    s.Hereditary (fun _ st result => Heeds s.grammar st.journal result.1.abort? result.2.journal)
      fun _ _ st result => Heeds s.grammar st.journal result.1.abort? result.2.journal where
  leaf _ := .refl _ _ _ (by simp [Outcome.abort?])
  miss _ := .refl _ _ _ (by simp [Outcome.abort?])
  stay := .refl _ _ _ (by simp [Outcome.abort?])
  none_left := .refl _ _ _ (by simp [Outcome.abort?])
  astray _ := .refl _ _ _ (by simp [Outcome.abort?, Abort.isRefusal])
  undefined _ := .refl _ _ _ (by simp [Outcome.abort?, Abort.isRefusal])
  runaway := .refl _ _ _ (by simp [Outcome.abort?, Abort.isRefusal])
  trans first others := first.trans others
  retry first others := first.trans others
  undo failed := failed
  short matched := matched
  enough failed := failed
  still matched _ := matched
  look inside going verdict := by
    rw [Outcome.abort?_of_isAborted going] at inside
    rcases verdict with rfl | rfl <;> exact inside
  look_aborted inside := inside
  ref_matched {_ _ _ _ _ r} called := by
    cases r.silent <;> exact called
  ref_failed called := called
  ref_aborted called := called
  call_runaway _ := .refl _ _ _ (by simp [Outcome.abort?, Abort.isRefusal])
  call_replay _ _ := replay_heeds _
  call_conclude {_ r pos st _} found _ _ body := by
    obtain rfl := Grammar.name_of_find? found
    have attempted : Heeds s.grammar st.journal none (.attempted r.name pos :: st.journal) :=
      .record rfl
    exact conclude_heeds found (attempted.trans body)

end Session

end Packrat
