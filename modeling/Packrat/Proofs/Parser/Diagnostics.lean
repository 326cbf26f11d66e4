import Packrat.Proofs.Expr.Paths
import Packrat.Proofs.Grammar.LeftLoops
import Packrat.Proofs.Parser
import Packrat.Proofs.Semantics.Extent

/-! The error of a failed parse: the labels that failed at the furthest place of the whole search, backtracked
parts included, whichever rules are cached. Three forms of expressions can fail without a miss: lookaheads, which
tell of nothing, choices of nothing, and repetitions that stand still before they have matched often enough. Where
there are none of these, a failed parse names what it expected. -/
namespace Packrat

variable {V : Type}

section Telling

namespace Grammar

variable {g : Grammar V} {e part : Expr}

/-- The form of the expression does not allow it to fail unless a part of it fails or it misses
something itself. -/
def speaks (g : Grammar V) : Expr → Bool
  | .ahead _ | .notAhead _ => false
  | .choice alternatives => !alternatives.isEmpty
  | .repeated body min _ => min < 2 || !g.nullable body
  | .literal _ | .charClass _ | .endOfInput | .seq _ | .ref _ => true

/-- The rules have no lookahead, no empty choice, and no repetition of a nullable body that has to match
twice or more. -/
def Outspoken (g : Grammar V) : Prop := ∀ r ∈ g.rules, ∀ e ∈ r.body.subexprs, g.speaks e

instance (g : Grammar V) : Decidable g.Outspoken :=
  inferInstanceAs (Decidable (∀ r ∈ g.rules, ∀ e ∈ r.body.subexprs, g.speaks e))

structure Tells (g : Grammar V) (e : Expr) : Prop where
  speaks : ∀ part ∈ e.subexprs, g.speaks part
  bounds : ∀ body min max, .repeated body min (some max) ∈ e.subexprs → min ≤ max

theorem Tells.of_mem_parts (tells : g.Tells e) (member : part ∈ e.parts) : g.Tells part where
  speaks sub within := tells.speaks sub (Expr.mem_subexprs_of_mem_parts member within)
  bounds body min max within :=
    tells.bounds body min max (Expr.mem_subexprs_of_mem_parts member within)

theorem Tells.own (tells : g.Tells e) : g.speaks e := tells.speaks e e.self_mem_subexprs

theorem tells_seq {parts : List Expr} (each : ∀ part ∈ parts, g.Tells part) : g.Tells (.seq parts) where
  speaks sub within := by
    rcases Expr.mem_subexprs.mp within with rfl | ⟨part, member, within⟩
    · rfl
    · exact (each part member).speaks sub within
  bounds body min max within := by
    rcases Expr.mem_subexprs.mp within with same | ⟨part, member, within⟩
    · cases same
    · exact (each part member).bounds body min max within

end Grammar

namespace Verdict

variable {v : Verdict V} {misses : List Miss}

def Told : Verdict V → Prop
  | failed misses => misses ≠ []
  | _ => True

theorem Told.after (told : v.Told) (made : List (Match V)) (misses : List Miss) :
    (v.after made misses).Told := by
  cases v with
  | failed misses' => exact List.append_ne_nil_of_right_ne_nil misses told
  | matched | aborted => trivial

/-- What was missed before is not lost. -/
theorem told_after (missed : misses ≠ []) (v : Verdict V) (made : List (Match V)) :
    (v.after made misses).Told := by
  cases v with
  | failed misses' => exact List.append_ne_nil_of_left_ne_nil missed misses'
  | matched | aborted => trivial

theorem Told.silence (told : v.Told) (silent : Bool) : (v.silence silent).Told := by
  cases v <;> exact told

theorem told_ofCount {least count : Nat} (missed : count < least → misses ≠ []) (stop : Position)
    (made : List (Match V)) : (ofCount least count stop made misses).Told := by
  simp only [ofCount]
  split
  · trivial
  · exact missed (by omega)

end Verdict

theorem Rule.tells_ne_nil {r : Rule V} {misses : List Miss} (missed : misses ≠ []) (pos : Position) :
    r.tells pos misses ≠ [] := by
  unfold tells
  cases r.label with
  | none => exact missed
  | some label => exact List.cons_ne_nil _ _

def Task.Tells (g : Grammar V) : Task → Prop
  | expr e => g.Tells e
  | rounds body least most _ => g.Tells (.repeated body least most)
  | call _ => True

variable [Value V] {s : Session V} {t : Task} {pos : Position} {v : Verdict V}

/-- A task that tells of its failures, under rules that tell of theirs, misses something where it fails. -/
theorem Derives.told (d : Derives s t pos v) (clean : s.grammar.leftRecursions = [])
    (rules : ∀ r ∈ s.grammar.rules, s.grammar.Tells r.body) (tells : t.Tells s.grammar)
    (reached : s.source.Reached pos) : v.Told := by
  induction d with
  | literal | charClass | endOfInput | seq_nil | rounds_aborted | ref_undefined | call_matched
  | call_refused | call_aborted => trivial
  | literal_failed | charClass_failed | endOfInput_failed => exact List.cons_ne_nil _ _
  | seq_cons first _ _ ih =>
    have later : s.grammar.Tells (.seq _) := Grammar.tells_seq fun part member =>
      tells.of_mem_parts (List.mem_cons_of_mem _ member)
    exact (ih later (first.reached reached)).after _ _
  | seq_stop _ _ ih | choice_take _ _ ih => exact ih (tells.of_mem_parts (List.mem_cons_self ..)) reached
  | choice_nil => cases tells.own
  | choice_next _ _ ih =>
    exact Verdict.told_after (ih (tells.of_mem_parts (List.mem_cons_self ..)) reached) _ _
  | repeated _ ih => exact ih tells reached
  | rounds_full full =>
    obtain ⟨max, rfl, most⟩ := (Option.any_eq_true _ _).mp full
    have order := tells.bounds _ _ max (Expr.self_mem_subexprs _)
    have enough : max ≤ _ := of_decide_eq_true most
    exact Verdict.told_ofCount (fun short => by omega) _ _
  | rounds_failed _ _ ih =>
    exact Verdict.told_ofCount (fun _ => ih (tells.of_mem_parts (List.mem_cons_self ..)) reached) _ _
  | rounds_still _ body still =>
    refine Verdict.told_ofCount (fun short => ?_) _ _
    have nullable := (Grammar.nullable_iff clean).mpr (body.nullable reached still)
    have own := tells.own
    simp only [Grammar.speaks, nullable, Bool.not_true, Bool.or_false, decide_eq_true_eq] at own
    omega
  | rounds_more _ body _ _ _ ih => exact (ih tells (body.reached reached)).after _ _
  | ahead | notAhead => cases tells.own
  | ref _ _ ih => exact (ih trivial reached).silence _
  | call_failed found _ ih =>
    have body := rules _ (List.mem_of_find?_eq_some found)
    exact Rule.tells_ne_nil (ih body reached) _

end Telling

section Furthest

variable {source : Source} {file : Option String} {allowPartial : Bool}

theorem Verdict.answer_eq_expected {v : Verdict V} {error : ParseError} {labels : List String}
    (h : v.answer source file allowPartial = .error (.parse error))
    (cause : error.cause = .expected labels) : ∃ misses, v = .failed misses ∧
      error = ⟨.expected (Miss.labels misses), (Miss.furthest? misses).getD Position.start, file⟩ := by
  cases v with
  | failed misses =>
    simp only [answer, Parser.close, Except.error.injEq, Error.parse.injEq] at h
    exact ⟨misses, rfl, by rw [← h, ParseError.ofFailures, Failures.marks_empty]⟩
  | aborted why =>
    cases why <;> simp only [answer, Parser.close, Parser.ofAbort, Except.error.injEq, Error.parse.injEq,
      reduceCtorEq] at h
    simp [← h] at cause
  | matched stop made =>
    cases made with
    | nil => cases h
    | cons m made =>
      simp only [answer, List.head?_cons, Option.elim_some, Parser.close] at h
      split at h
      · cases h
      · split at h
        · cases h
        · cases h
          cases cause

variable [Value V]

namespace Parser

/-- A parse that failed reports its misses, in the order of the search: it stands at the furthest of
them, or at the start if there are none, and expects the labels that failed there. -/
theorem run_reports_furthest (p : Parser V) (input : String) {error : ParseError} {labels : List String}
    (ended : (p.run input file allowPartial).result = .error (.parse error))
    (cause : error.cause = .expected labels) :
    ∃ misses, Derives (.ofText p.grammar input.toList) (.call p.start) Position.start (.failed misses) ∧
      (∀ misses', Derives (.ofText p.grammar input.toList) (.call p.start) Position.start
        (.failed misses') → misses' = misses) ∧
      error.location = (Miss.furthest? misses).getD Position.start ∧
      error.expected = Miss.labels misses ∧ error.file = file := by
  obtain ⟨v, d, answer⟩ := p.run_answer input file allowPartial
  obtain ⟨misses, rfl, rfl⟩ := Verdict.answer_eq_expected (answer.symm.trans ended) cause
  exact ⟨misses, d, fun _ d' => Verdict.failed.inj (d'.unique d), rfl, rfl, rfl⟩

def words : Parser String where
  grammar := .ofRules [
    { name := "words", body := .seq [.ref "word", .star (.seq [.lit " ", .ref "word"]), .endOfInput] },
    { name := "word"
      body := .plus (.charClass (CharClass.empty.addRange 'a' 'z'))
      label := some "word"
      cached := true }]
  start := "words"
  accepted := by decide +kernel

/-- The word that matched could have gone on, and its label does not hide that. -/
theorem words_reports_letter :
    (words.run "ab1" none false).result =
        .error (.parse ⟨.expected ["[a-z]", " ", "end of input"], ⟨2, 1, 3⟩, none⟩) ∧
      ∃ misses, Derives (.ofText words.grammar "ab1".toList) (.call "words") Position.start
          (.failed misses) ∧
        (Miss.furthest? misses).getD Position.start = ⟨2, 1, 3⟩ ∧
        Miss.labels misses = ["[a-z]", " ", "end of input"] := by
  have ended : (words.run "ab1" none false).result =
      .error (.parse ⟨.expected ["[a-z]", " ", "end of input"], ⟨2, 1, 3⟩, none⟩) := rfl
  obtain ⟨misses, d, -, location, expected, -⟩ := words.run_reports_furthest "ab1" ended rfl
  exact ⟨ended, misses, d, location.symm, expected.symm⟩

end Parser

end Furthest

theorem Failures.labelsText_of_ne_nil {labels : List String} (named : labels ≠ []) :
    labelsText labels = " or ".intercalate labels := by
  cases labels with
  | nil => exact absurd rfl named
  | cons label labels => rfl

/-- The check leaves no repetition whose bounds are out of order. -/
theorem Grammar.Outspoken.tells {g : Grammar V} {start : String} (outspoken : g.Outspoken)
    (accepted : g.check start = none) {r : Rule V} (member : r ∈ g.rules) : g.Tells r.body where
  speaks := outspoken r member
  bounds body min max within := by
    have sound := defect?_of_check accepted member within
    simp only [defect?, ite_eq_right_iff, reduceCtorEq, imp_false] at sound
    omega

namespace Parser

variable [Value V] {file : Option String} {allowPartial : Bool}

/-- Where nothing matches, something was expected, and the message says what. -/
theorem run_names_expected (p : Parser V) (outspoken : p.grammar.Outspoken) (input : String)
    {error : ParseError} {labels : List String}
    (ended : (p.run input file allowPartial).result = .error (.parse error))
    (cause : error.cause = .expected labels) :
    error.expected ≠ [] ∧ error.cause.text = "Expected " ++ " or ".intercalate error.expected := by
  obtain ⟨v, d, answer⟩ := p.run_answer input file allowPartial
  obtain ⟨misses, rfl, rfl⟩ := Verdict.answer_eq_expected (answer.symm.trans ended) cause
  have missed : misses ≠ [] := d.told (Grammar.leftRecursions_of_check p.accepted)
    (fun _ member => outspoken.tells p.accepted member) trivial (Source.reached_start _)
  have named : Miss.labels misses ≠ [] := by
    refine Miss.labels_ne_nil ?_
    rw [Option.isSome_iff_ne_none, Ne, Miss.furthest?_eq_none]
    exact missed
  exact ⟨named, congrArg ("Expected " ++ ·) (Failures.labelsText_of_ne_nil named)⟩

def codes : Parser String where
  grammar := .ofRules [
    { name := "codes", body := .seq [.ref "code", .star (.seq [.lit ",", .ref "code"]), .endOfInput] },
    { name := "code"
      body := .repeated (.charClass (CharClass.empty.addRange '0' '9')) 2 (some 4)
      label := some "code"
      cached := true }]
  start := "codes"
  accepted := by decide +kernel

/-- The second code is too short. What it expected was a digit, and the label stands for that. -/
theorem codes_expected :
    codes.grammar.Outspoken ∧
      (codes.run "12,3" none false).result =
        .error (.parse ⟨.expected ["code"], ⟨4, 1, 5⟩, none⟩) ∧
      (⟨.expected ["code"], ⟨4, 1, 5⟩, none⟩ : ParseError).expected ≠ [] := by
  have outspoken : codes.grammar.Outspoken := by decide +kernel
  have ended : (codes.run "12,3" none false).result =
      .error (.parse ⟨.expected ["code"], ⟨4, 1, 5⟩, none⟩) := rfl
  exact ⟨outspoken, ended, (codes.run_names_expected outspoken "12,3" ended rfl).1⟩

end Parser

end Packrat
