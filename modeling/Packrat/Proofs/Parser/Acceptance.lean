import Packrat.Proofs.Grammar.Acceptance
import Packrat.Proofs.Parser.Refusal
import Packrat.Proofs.Session.Resolution

/-! What follows for parses from the acceptance of their grammar: every name has a rule, and whatever a
parse reports as inconsistent a fold has found so. -/
namespace Packrat

variable {V : Type}

theorem Grammar.resolves_of_check {g : Grammar V} {start : String} (accepted : g.check start = none) :
    g.Resolves :=
  fun _ member _ used => defines_of_mem_refs accepted member used

/-- An inconsistency that the run reports is the error of a fold that it has called. -/
def Run.Attributes (g : Grammar V) (run : Run V) : Prop :=
  ∀ reason, run.result = .error (.inconsistent reason) →
    ∃ rule start places message, reason = s!"rule `{rule}`: {message}" ∧
      .folded rule start places (some (.inconsistent message)) ∈ run.journal ∧
      g.Refuses rule places (.inconsistent message)

namespace Parser

variable {source : Source} {file : Option String} {allowPartial : Bool} {failures : Failures}
  {outcome : Outcome (Position × Match V)} {reason : String}

theorem close_inconsistent
    (ended : (close source file allowPartial failures outcome).1 = .error (.inconsistent reason)) :
    ∃ why, outcome = .aborted why ∧ why.reason = reason ∧
      ((∃ rule message, why = .inconsistent rule message) ∨ ∃ name, why = .undefinedRule name) := by
  rcases outcome with ⟨stop, m⟩ | _ | why
  · simp only [close] at ended
    split at ended
    · cases ended
    · split at ended <;> cases ended
  · cases ended
  · cases why with
    | inconsistent rule message =>
      cases ended
      exact ⟨_, rfl, rfl, .inl ⟨rule, message, rfl⟩⟩
    | undefinedRule name =>
      cases ended
      exact ⟨_, rfl, rfl, .inr ⟨name, rfl⟩⟩
    | rejected | fault => cases ended

variable [Value V]

theorem run_attributes (p : Parser V) (input : String) (file : Option String) (allowPartial : Bool) :
    (p.run input file allowPartial).Attributes p.grammar := by
  intro reason ended
  have heeds := (Session.hereditary_heeds (.ofText p.grammar input.toList)).invoke
    (Session.ofText p.grammar input.toList).budget p.start p.startRule Position.start
    (p.opening input).before p.find?_startRule
  have resolved := p.invoke_ne_undefined input
  rw [run_eq] at ended ⊢
  dsimp only at ended heeds resolved ⊢
  generalize Session.invoke (V := V) _ _ _ _ _ = result at ended heeds resolved ⊢
  obtain ⟨why, aborted, rfl, told⟩ := close_inconsistent ended
  rcases told with ⟨rule, message, rfl⟩ | ⟨name, rfl⟩
  · rw [aborted, Outcome.abort?] at heeds
    generalize ending : some (Abort.inconsistent rule message) = inconsistent at heeds
    generalize result.2.journal = journal at heeds ⊢
    cases heeds with
    | clean _ other =>
      subst ending
      simpa [Abort.isRefusal] using other _ rfl
    | @refused _ made e earlier start r found folds refuses =>
      cases e with
      | reject => cases ending
      | inconsistent =>
        cases ending
        exact ⟨r.name, start, _, message, rfl, by simp, r, _, made, found, folds, rfl, refuses⟩
  · exact absurd aborted (resolved name)

/-- The check accepts just the grammars whose rules are acceptable, and refuses the others for the defect
that stands first. In a parse with a grammar that it has accepted no evaluation comes to a name without a
rule, and an inconsistency that the parse reports is the error of a fold. -/
theorem check_decides (rules : List (Rule V)) (start : String) :
    ((Grammar.ofRules rules).check start = none ↔ Grammar.Acceptable rules start) ∧
    (∀ d, (Grammar.ofRules rules).check start = some d → Grammar.Finds rules start d) ∧
    ∀ (p : Parser V) (input : String),
      (∀ x, (Session.ofText p.grammar input.toList).Within (p.opening input) x → ∀ name,
        (x.result (.ofText p.grammar input.toList)).1 ≠ .aborted (.undefinedRule name)) ∧
      ∀ file allowPartial, (p.run input file allowPartial).Attributes p.grammar := by
  refine ⟨Grammar.check_eq_none_iff_acceptable, fun _ => Grammar.finds_of_check, ?_⟩
  intro p input
  have resolves : p.grammar.Resolves := Grammar.resolves_of_check p.accepted
  have defined : ∀ name ∈ (Expr.ref p.start).refs, p.grammar.defines name := by
    simpa using Grammar.defines_of_check p.accepted
  refine ⟨fun x within => ?_, p.run_attributes input⟩
  exact Evaluation.resolves resolves (within.defined resolves defined)

def clock : List (Rule String) := [
  { name := "time"
    body := .seq [.ref "number", .opt (.seq [.lit ":", .ref "number"]), .notAhead (.lit ":")] },
  { name := "number"
    body := .plus (.charClass (CharClass.empty.addRange '0' '9'))
    fold := some fun digits =>
      if digits.length = 2 then .ok (String.ofList (digits.flatMap Match.text))
      else .error (.inconsistent "two digits expected") }]

/-- The defects are a repetition in a lookahead, a range in that repetition, and a name without a rule. -/
def brokenClock : List (Rule String) := [
  { name := "time", body := .seq [.ref "number", .lit ":", .ref "number"] },
  { name := "number"
    body := .seq [
      .ahead (.repeated (.charClass (CharClass.empty.addRange '9' '0')) 2 (some 1)),
      .ref "digit"] }]

def clockParser : Parser String where
  grammar := .ofRules clock
  start := "time"
  accepted := by decide +kernel

/-- The fold and the body of a rule do not agree on how many digits there are. -/
theorem clock_decided :
    Grammar.Acceptable clock "time" ∧
    Grammar.Finds brokenClock "time" (.invalidRepeat "number" 2 1) ∧
    ∃ rule start places message, "rule `number`: two digits expected" = s!"rule `{rule}`: {message}" ∧
      .folded rule start places (some (.inconsistent message)) ∈
        (clockParser.run "12:345" none false).journal ∧
      clockParser.grammar.Refuses rule places (.inconsistent message) := by
  have refused : (Grammar.ofRules brokenClock).check "time" = some (.invalidRepeat "number" 2 1) := by
    decide +kernel
  have inconsistent : (clockParser.run "12:345" none false).result =
      .error (.inconsistent "rule `number`: two digits expected") := by decide +kernel
  obtain ⟨accepts, -, attributes⟩ := check_decides clock "time"
  obtain ⟨-, finds, -⟩ := check_decides brokenClock "time"
  obtain ⟨-, told⟩ := attributes clockParser "12:345"
  exact ⟨accepts.mp clockParser.accepted, finds _ refused, told none false _ inconsistent⟩

end Parser

end Packrat
