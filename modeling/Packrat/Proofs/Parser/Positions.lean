import Packrat.Proofs.Parser
import Packrat.Proofs.Session.Placement

/-! Every position that a session or a parse produces is a place of the input, with the line and column
of that place, and the input is never cut elsewhere. -/
namespace Packrat

variable {V : Type}

/-- The answer and the journal of a parse hold places of the input only, and the input was cut at
places only. -/
structure Run.Placed (source : Source) (run : Run V) : Prop where
  journal : ∀ r ∈ run.journal, r.Placed source
  located : ∀ error, run.result = .error (.parse error) → source.Reached error.location
  inside : run.result ≠ .error (.fault .offBoundary)

namespace Parser

def opening (p : Parser V) (input : String) : Evaluation V :=
  let s := Session.ofText p.grammar input.toList
  ⟨s.budget, .ref p.start, Position.start, State.initial.record (.parseOpened s.source.size p.start)⟩

theorem begins_opening (p : Parser V) (input : String) :
    (p.opening input).Begins (Source.ofText input.toList) where
  start := Source.reached_start _
  before := State.placed_initial.record (by simp [Record.Placed, Record.places])

variable {source : Source} {failures : Failures} {outcome : Outcome (Position × Match V)}

/-- The answer and the closing record of a parse stand at a place. -/
theorem close_placed (file : Option String) (allowPartial : Bool) (placed : failures.Placed source)
    (lands : outcome.Lands source (source.Concludes 0)) :
    (close source file allowPartial failures outcome).2.Placed source ∧
      (∀ error, (close source file allowPartial failures outcome).1 = .error (.parse error) →
        source.Reached error.location) ∧
      (close source file allowPartial failures outcome).1 ≠ .error (.fault .offBoundary) := by
  cases outcome with
  | aborted why =>
    cases why with
    | rejected reason place =>
      have there : source.Reached place := lands
      refine ⟨there.record rfl, ?_, by simp [close, ofAbort]⟩
      rintro error ⟨⟩
      exact there
    | undefinedRule | inconsistent =>
      simp [close, ofAbort, abortRecord, Record.Placed, Record.places]
    | fault why =>
      cases why with
      | offBoundary => exact lands.elim
      | runaway => simp [close, ofAbort, abortRecord, Record.Placed, Record.places]
  | failed =>
    refine ⟨by simp [close, Record.Placed, Record.places], ?_, by simp [close]⟩
    rintro error ⟨⟩
    cases furthest : failures.furthest with
    | none => simpa [ParseError.ofFailures, furthest] using source.reached_start
    | some far => simpa [ParseError.ofFailures, furthest] using placed far furthest
  | matched result =>
    obtain ⟨stop, m⟩ := result
    obtain ⟨⟨there, -⟩, -⟩ := lands
    obtain ⟨rest, here⟩ := there.exists_rest
    simp only [close, here]
    split
    · exact ⟨there.record rfl, by simp, by simp⟩
    · refine ⟨there.record rfl, ?_, by simp⟩
      rintro error ⟨⟩
      exact there

variable [Value V]

theorem run_eq (p : Parser V) (input : String) (file : Option String) (allowPartial : Bool) :
    p.run input file allowPartial =
      let s := Session.ofText p.grammar input.toList
      let ended := s.invoke s.budget p.startRule Position.start (p.opening input).before
      let closed := close s.source file allowPartial ended.2.failures ended.1
      ⟨closed.1, (closed.2 :: ended.2.journal).reverse⟩ := rfl

theorem run_placed (p : Parser V) (input : String) (file : Option String) (allowPartial : Bool) :
    (p.run input file allowPartial).Placed (Source.ofText input.toList) := by
  let s := Session.ofText p.grammar input.toList
  have begins : (p.opening input).Begins s.source := p.begins_opening input
  obtain ⟨placed, lands⟩ := (Session.hereditary_keepsPlaces s).invoke s.budget p.start p.startRule
    Position.start (p.opening input).before p.find?_startRule begins.start begins.before
  obtain ⟨closing, located, inside⟩ := close_placed file allowPartial placed.failures lands
  rw [run_eq]
  exact {
    journal := fun r member =>
      List.forall_mem_cons.mpr ⟨closing, placed.journal⟩ r (List.mem_reverse.mp member)
    located
    inside }

/-- Whatever a session of the parser evaluates, step after step from places of the input, and whatever a
parse evaluates keeps to the places of the input. The offset of a place is the size of a beginning of
the input, and its line and column are those of the end of that beginning. -/
theorem positions_canonical (p : Parser V) (input : String) :
    let s := Session.ofText p.grammar input.toList
    (∀ pos, s.source.Reached pos → ∃! before, s.source.Locates pos before) ∧
    (∀ before e start x, before.Arises s → s.source.Reached start →
      s.Within (s.stepping e start before) x → x.Placed s) ∧
    (∀ x, s.Within (p.opening input) x → x.Placed s) ∧
    ∀ file allowPartial, (p.run input file allowPartial).Placed s.source := by
  intro s
  refine ⟨fun _ => Source.Reached.locates, ?_, ?_, p.run_placed input⟩
  · intro before e start x arises reached within
    exact (within.begins (arises.placed.begins_stepping e reached)).placed
  · intro x within
    exact (within.begins (p.begins_opening input)).placed

def kelvin : Rule String where
  name := "kelvin"
  body := .seq [.plus (.charClass (CharClass.empty.addRange '0' '9')), .ilit "°k"]
  cached := true

def temperatures : Parser String where
  grammar := .ofRules [
    { name := "list"
      body := .seq [.ref "kelvin", .star (.seq [.lit "\n", .ref "kelvin"]), .endOfInput] },
    kelvin]
  start := "list"
  accepted := by decide +kernel

/-- The sign on the second line is not as long as the letter of the grammar. Positions after it count
its bytes and one column. -/
theorem temperatures_placed :
    let input := "20°k\n31°\u212a\n4 C"
    let s := Session.ofText temperatures.grammar input.toList
    let step := s.stepping (.ref "kelvin") ⟨6, 2, 1⟩ .initial
    s.source.Reached ⟨6, 2, 1⟩ ∧ (step.result s).1 = .matched ⟨13, 2, 5⟩ ∧
      (∃ x, s.Within step x ∧ x.expr = .ilit "°k" ∧ x.start = ⟨8, 2, 3⟩ ∧ x.Placed s) ∧
      (∃! before, s.source.Locates ⟨13, 2, 5⟩ before) ∧
      (temperatures.run input none false).result =
        .error (.parse ⟨.expected ["[0-9]", "°k"], ⟨15, 3, 2⟩, none⟩) ∧
      ∃! before, s.source.Locates ⟨15, 3, 2⟩ before := by
  intro input s step
  obtain ⟨located, steps, -, runs⟩ := temperatures.positions_canonical input
  have reached : s.source.Reached ⟨6, 2, 1⟩ :=
    ⟨input.toList.take 5, List.take_prefix .., by decide +kernel⟩
  have matched : (step.result s).1 = .matched ⟨13, 2, 5⟩ := by decide +kernel
  have placed : ∀ x, s.Within step x → x.Placed s := fun x => steps _ _ _ x .initial reached
  have whole : step.Placed s := placed step .refl
  have ended : (temperatures.run input none false).result =
      .error (.parse ⟨.expected ["[0-9]", "°k"], ⟨15, 3, 2⟩, none⟩) := by decide +kernel
  have inner : ∃ x, s.Within step x ∧ x.expr = .ilit "°k" ∧ x.start = ⟨8, 2, 3⟩ := by
    let entered := Session.enter kelvin ⟨6, 2, 1⟩ step.before
    have budget : s.budget = 35 + 1 := by decide +kernel
    have body : s.Part step ⟨35, kelvin.body, ⟨6, 2, 1⟩, entered⟩ := by
      simp only [step, Session.stepping, budget]
      exact .ref rfl rfl
    let digits := s.evalSeq (s.invoke 35) [.plus (.charClass (CharClass.empty.addRange '0' '9'))]
      ⟨6, 2, 1⟩ entered
    have matched : digits = (.matched ⟨8, 2, 3⟩, digits.2) := Prod.ext (by decide +kernel) rfl
    exact ⟨_, (Relation.ReflTransGen.single body).tail (.seq matched), rfl, rfl⟩
  obtain ⟨x, within, expr, start⟩ := inner
  have part := placed x within
  exact ⟨reached, matched, ⟨x, within, expr, start, part⟩, located _ (whole.stop _ matched), ended,
    located _ ((runs none false).located _ ended)⟩

end Parser

end Packrat
