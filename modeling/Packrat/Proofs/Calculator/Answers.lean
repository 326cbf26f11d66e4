import Packrat.Proofs.Calculator.Reading
import Packrat.Proofs.Parser
import Packrat.Proofs.Semantics.Uniqueness

/-! The answers of the calculator: the value of the expression that is the input, or of the longest at its
beginning if input may be left over. -/
namespace Packrat.Calculator

variable {input : String} {file : Option String} {allowPartial : Bool}
  {result : Except Error (Parsed Float)}

inductive Answers (input : String) (file : Option String) (allowPartial : Bool) :
    Except Error (Parsed Float) → Prop where
  | read {x : Derivation .start} {rest : List Char} :
      input.toList = x.text ++ rest → x.Longest rest → x.overflow? Position.start = none →
      rest = [] ∨ allowPartial = true →
      Answers input file allowPartial (.ok ⟨x.value, String.ofList rest⟩)
  | leftOver {x : Derivation .start} {rest : List Char} :
      input.toList = x.text ++ rest → x.Longest rest → x.overflow? Position.start = none →
      rest ≠ [] → allowPartial = false →
      Answers input file allowPartial
        (.error (.parse ⟨.unconsumed rest, Position.start.advanceOver x.text, file⟩))
  | failed {labels : List String} {place : Position} :
      (∀ y : Derivation .start, ¬ y.text <+: input.toList) →
      Answers input file allowPartial (.error (.parse ⟨.expected labels, place, file⟩))
  | refused {gone : List Char} {n : Numeral} :
      Overflows .start Position.start input.toList gone n →
      Answers input file allowPartial
        (.error (.parse ⟨.rejected n.complaint, Position.start.advanceOver gone, file⟩))

theorem run_answers (input : String) (file : Option String) (allowPartial : Bool) :
    Answers input file allowPartial (parser.run input file allowPartial).result := by
  obtain ⟨v, d, answer⟩ := parser.run_answer input file allowPartial
  have here : (Source.ofText input.toList).rest? Position.start = some input.toList :=
    Source.rest?_eq_some_iff.mpr ⟨[], rfl, rfl⟩
  obtain ⟨w, d', reads⟩ := start_reads here
  obtain rfl := d.unique d'
  rw [answer]
  cases reads with
  | @matched x rest _ _ same longest finite single =>
    subst single
    have there : (Source.ofText input.toList).rest? (Position.start.advanceOver x.text) = some rest :=
      Source.rest?_of_split same
    simp only [Verdict.answer, List.head?_cons, Option.elim, Parser.close, there]
    by_cases taken : (rest.isEmpty || allowPartial) = true
    · rw [if_pos taken]
      exact .read same longest finite (by simpa using taken)
    · rw [if_neg taken]
      have left : rest ≠ [] ∧ allowPartial = false := by simpa using taken
      exact .leftOver same longest finite left.1 left.2
  | failed absent => exact .failed absent
  | aborted overflows => exact .refused overflows

/-- The answer to an expression. -/
theorem Answers.expression {d : Derivation .start} (answers : Answers input file allowPartial result)
    (spelled : d.text = input.toList) : result = (d.overflow? Position.start).elim
      (.ok ⟨d.value, ""⟩) fun t => .error (.parse ⟨.rejected t.2.complaint, t.1, file⟩) := by
  have whole : input.toList = d.text ++ [] := by simp [spelled]
  have stops : Stops .start [] := halts_nil _
  cases answers with
  | read same longest finite taken =>
    obtain ⟨rfl, rfl⟩ := longest.only stops (same.symm.trans whole)
    rw [finite]
    rfl
  | leftOver same longest finite more =>
    obtain ⟨-, nothing⟩ := longest.only stops (same.symm.trans whole)
    exact (more nothing.symm).elim
  | failed absent => exact (absent d ⟨[], whole.symm⟩).elim
  | refused overflows =>
    rw [overflows.leftmost d [] stops whole]
    rfl

/-- The calculator accepts its expressions, if all their numerals read as finite numbers, and computes
their values; an expression has one derivation. If a numeral of an expression is out of range, the leftmost
such is complained about, at its place. -/
theorem parse_evaluates (input : String) :
    (∀ v, parser.parse input = .ok v ↔ ∃ d : Derivation .start, d.text = input.toList ∧
      (∀ t ∈ d.numerals Position.start, t.2.isFinite) ∧ d.value = v) ∧
    (∀ d d' : Derivation .start, d.text = input.toList → d'.text = input.toList → d = d') ∧
    ∀ d : Derivation .start, d.text = input.toList → ∀ place n,
      (d.numerals Position.start).find? (fun t => !t.2.isFinite) = some (place, n) →
      parser.parse input = .error (.parse
        ⟨.rejected ("number " ++ String.ofList n.text ++ " is out of range"), place, none⟩) := by
  have parse : parser.parse input = (parser.run input none false).result.map Parsed.value := rfl
  have answers := run_answers input none false
  rw [parse]
  generalize (parser.run input none false).result = result at answers
  have finite_iff (d : Derivation .start) : d.overflow? Position.start = none ↔
      ∀ t ∈ d.numerals Position.start, t.2.isFinite := by
    simp [Derivation.overflow?]
  refine ⟨fun v => ⟨?_, ?_⟩, ?_, ?_⟩
  · intro ok
    cases answers with
    | @read x rest same longest finite taken =>
      obtain rfl : rest = [] := taken.resolve_right Bool.false_ne_true
      exact ⟨x, by simp [same], (finite_iff x).mp finite, Except.ok.inj ok⟩
    | leftOver | failed | refused => cases ok
  · rintro ⟨d, spelled, finite, rfl⟩
    rw [answers.expression spelled, (finite_iff d).mpr finite]
    rfl
  · exact fun d d' spelled spelled' => d.unique d' (spelled.trans spelled'.symm)
  · intro d spelled place n leftmost
    rw [answers.expression spelled, Derivation.overflow?, leftmost]
    rfl

/-- A product of a number and a sum in parentheses. -/
theorem parse_product : ∃ d : Derivation .start, d.text = "2 * (3+4)".toList ∧
    (∀ t ∈ d.numerals Position.start, t.2.isFinite) ∧ d.value = 14 ∧
    parser.parse "2 * (3+4)" = .ok 14 := by
  let no : Blanks := ⟨[], by simp⟩
  let one : Blanks := ⟨[' '], by simp [isBlank]⟩
  let number (c : Char) (digit : c.isDigit) (after : Blanks) : Derivation (.operand .product) :=
    .number ⟨⟨[c], by simp, by simpa using digit⟩, none⟩ after
  let sum : Derivation (.chain .sum) := .chain (.product (.chain (number '3' rfl no) .done))
    (.more .plus no (.product (.chain (number '4' rfl no) .done)) .done)
  let d : Derivation .start := .start no (.chain (.product (.chain (number '2' rfl one)
    (.more .times one (.paren no sum no) .done))) .done)
  have spelled : d.text = "2 * (3+4)".toList := rfl
  have finite : ∀ t ∈ d.numerals Position.start, t.2.isFinite := by decide +kernel
  have value : d.value = 14 := by decide +kernel
  exact ⟨d, spelled, finite, value, ((parse_evaluates "2 * (3+4)").1 14).mpr ⟨d, spelled, finite, value⟩⟩

/-- If every token reads as a finite number, partial parsing takes the longest expression at the beginning
of the input, and fails if there is none. A numeral after a point, as the last three characters of `1.2.3`,
may be out of range whether one counts it as a token or not. -/
theorem parsePartial_longest (input : String)
    (tokens : ∀ before n after, input.toList = before ++ (Numeral.text n ++ after) →
      n.Maximal before after → before.getLast? ≠ some '.' → n.isFinite) :
    ((∃ parsed, parser.parsePartial input = .ok parsed) ↔
      ∃ d : Derivation .start, d.text <+: input.toList) ∧
    (∀ parsed, parser.parsePartial input = .ok parsed → ∃ d : Derivation .start,
      d.text ++ parsed.unconsumed.toList = input.toList ∧ d.value = parsed.value ∧
      ∀ d' : Derivation .start, d'.text <+: input.toList → d'.text <+: d.text) ∧
    ((¬ ∃ d : Derivation .start, d.text <+: input.toList) → ∃ labels place,
      parser.parsePartial input = .error (.parse ⟨.expected labels, place, none⟩)) := by
  have answers := run_answers input none true
  change Answers input none true (parser.parsePartial input) at answers
  generalize parser.parsePartial input = result at answers
  cases answers with
  | @read x rest same longest finite taken =>
    have begins : x.text <+: input.toList := ⟨rest, same.symm⟩
    refine ⟨⟨fun _ => ⟨x, begins⟩, fun _ => ⟨_, rfl⟩⟩, ?_, fun absent => (absent ⟨x, begins⟩).elim⟩
    rintro parsed ⟨⟩
    refine ⟨x, by simp [same], rfl, fun d' begins' => ?_⟩
    rcases longest d' [] (halts_nil _) (by simpa [← same] using begins') with rfl | short
    · exact List.prefix_rfl
    · obtain ⟨-, u, -, longer⟩ := short
      exact ⟨u, longer⟩
  | leftOver _ _ _ _ whole => cases whole
  | failed absent =>
    exact ⟨⟨nofun, fun ⟨d, begins⟩ => (absent d begins).elim⟩, nofun, fun _ => ⟨_, _, rfl⟩⟩
  | @refused gone n overflows =>
    obtain ⟨after, same, ends⟩ := overflows.splits
    have finite := tokens gone n after same (overflows.apart.maximal ends)
      overflows.apart.getLast?_ne_point
    rw [overflows.infinite] at finite
    cases finite

/-- An operator without an operand is left over, with the blanks around it. -/
theorem parsePartial_dangling :
    (∀ before n after, "7 + )".toList = before ++ (Numeral.text n ++ after) →
      n.Maximal before after → before.getLast? ≠ some '.' → n.isFinite) ∧
    parser.parsePartial "7 + )" = .ok ⟨7, "+ )"⟩ ∧
    ∃ d : Derivation .start, d.text ++ "+ )".toList = "7 + )".toList ∧ d.value = 7 ∧
      ∀ d' : Derivation .start, d'.text <+: "7 + )".toList → d'.text <+: d.text := by
  have tokens : ∀ before n after, "7 + )".toList = before ++ (Numeral.text n ++ after) →
      n.Maximal before after → before.getLast? ≠ some '.' → n.isFinite := by
    intro before n after same _ _
    have inside : n.text.Sublist "7 + )".toList := by
      rw [same]
      exact (List.sublist_append_left ..).trans (List.sublist_append_right ..)
    have parts : n.text.filter isNumeric = n.text := List.filter_eq_self.mpr fun _ => n.isNumeric_of_mem
    have digits := inside.filter isNumeric
    rw [parts] at digits
    have nonempty : n.text ≠ [] := by simp [Numeral.text, n.whole.nonempty]
    have text : n.text = ['7'] := (List.sublist_singleton.mp digits).resolve_left nonempty
    rw [Numeral.isFinite, text]
    decide +kernel
  have parsed : parser.parsePartial "7 + )" = .ok ⟨7, "+ )"⟩ := by decide +kernel
  exact ⟨tokens, parsed, (parsePartial_longest "7 + )" tokens).2.1 _ parsed⟩

end Packrat.Calculator
