import Packrat.Parser
import Packrat.Proofs.Semantics.Likeness
import Packrat.Proofs.Session.Termination

/-! What a parse comes to: the verdict of the semantics on the start rule, closed. The ways to parse agree on it:
a parse that may leave input over decides what comes of a parse that may not, and the name of a file shows in
messages only. -/
namespace Packrat

variable {V : Type}

/-- The answer of a parse whose start rule comes to this verdict. -/
def Verdict.answer (source : Source) (file : Option String) (allowPartial : Bool) :
    Verdict V → Except Error (Parsed V)
  | aborted why => (Parser.close source file allowPartial .empty (.aborted why)).1
  | failed misses => (Parser.close source file allowPartial (Failures.empty.marks misses) .failed).1
  | matched stop made _ =>
    made.head?.elim (.error (.fault .offBoundary)) fun m =>
      (Parser.close source file allowPartial .empty (.matched (stop, m))).1

/-- A match of the start rule ends where the input can be cut, and the rest of the input decides
between a value and an error. -/
theorem Derives.answer_of_matched [Value V] {s : Session V} {name : String} {stop : Position}
    {made : List (Match V)} {misses : List Miss}
    (d : Derives s (.call name) Position.start (.matched stop made misses)) :
    ∃ value rest, s.source.rest? stop = some rest ∧
      ∀ file allowPartial, (Verdict.matched stop made misses).answer s.source file allowPartial =
        if rest.isEmpty || allowPartial then .ok ⟨value, String.ofList rest⟩
        else .error (.parse ⟨.unconsumed rest, stop, file⟩) := by
  obtain ⟨rest, cut⟩ := (d.reached (Source.reached_start _)).exists_rest
  cases d with
  | @call_matched _ _ _ _ _ _ value =>
    refine ⟨value, rest, cut, fun file allowPartial => ?_⟩
    simp only [Verdict.answer, List.head?_cons, Option.elim_some, Parser.close, cut]
    split <;> rfl

namespace Parser

theorem find?_startRule (p : Parser V) : p.grammar.find? p.start = some p.startRule :=
  (Option.some_get _).symm

variable [Value V]

/-- The answer of a parse is that of the semantics, which says nothing of kept outcomes. -/
theorem run_answer (p : Parser V) (input : String) (file : Option String) (allowPartial : Bool) :
    ∃ v, Derives (.ofText p.grammar input.toList) (.call p.start) Position.start v ∧
      (p.run input file allowPartial).result =
        v.answer (Source.ofText input.toList) file allowPartial := by
  let s := Session.ofText p.grammar input.toList
  let opened : State V := State.initial.record (.parseOpened s.source.size p.start)
  have coherent : opened.memo.Coherent s := .empty
  obtain ⟨v, d, shows⟩ := Session.invoke_shows p.accepted le_rfl (Source.reached_start _) coherent
    p.find?_startRule
  refine ⟨v, d, ?_⟩
  simp only [run]
  change ShowsCall opened v (s.invoke s.budget p.startRule Position.start opened) at shows
  generalize s.invoke s.budget p.startRule Position.start opened = result at shows ⊢
  cases shows with
  | matched => rfl
  | aborted => rfl
  | failed _ failures => rw [failures]; rfl

/-- Parsers answer alike if their rules mean the same. -/
theorem run_eq_of_alike {p p' : Parser V}
    (rules : ∀ name, Option.Rel (Rule.Alike (.identity V)) (p.grammar.find? name)
      (p'.grammar.find? name))
    (start : p'.start = p.start) (input : String) (file : Option String) (allowPartial : Bool) :
    (p'.run input file allowPartial).result = (p.run input file allowPartial).result := by
  obtain ⟨v, d, answer⟩ := p.run_answer input file allowPartial
  obtain ⟨v', d', answer'⟩ := p'.run_answer input file allowPartial
  have d : Derives (.ofText p'.grammar input.toList) (.call p.start) Position.start v :=
    Derives.congr (s := .ofText p.grammar input.toList) rfl rules d
  rw [start] at d'
  rw [answer, answer', d'.unique d]

end Parser

/-- What stands around a text that is quoted has no control characters to make visible. -/
theorem Text.escape_quote (opening : String) (quoted : List Char) (closing : String)
    (plain : escape opening.toList = opening.toList) (plain' : escape closing.toList = closing.toList) :
    String.ofList (escape (opening ++ String.ofList quoted ++ closing).toList) =
      opening ++ String.ofList (escape quoted) ++ closing := by
  apply String.toList_inj.mp
  simp only [escape, String.toList_append, String.toList_ofList, List.flatMap_append] at plain plain' ⊢
  rw [plain, plain']

namespace ParseError

def sentence (e : ParseError) : String :=
  String.ofList (Text.escape e.cause.text.toList) ++ " at " ++ e.location.text

theorem message_of_unnamed {e : ParseError} (unnamed : e.file = none) :
    e.message = e.sentence ++ "." := by
  rw [message, unnamed, sentence]

theorem message_of_named {e : ParseError} {file : String} (named : e.file = some file) :
    e.message = e.sentence ++ " in " ++ file := by
  rw [message, named, sentence]
  exact String.append_assoc.symm

/-- A few characters of the input left over are quoted, with control characters made visible. -/
theorem sentence_unconsumed (rest : List Char) (location : Position) (file : Option String) :
    (ParseError.mk (.unconsumed rest) location file).sentence =
      "Not all input was consumed starting from '" ++
        String.ofList (Text.escape (rest.take snippetLength)) ++ "'" ++ " at " ++ location.text := by
  have quote := Text.escape_quote "Not all input was consumed starting from '"
    (rest.take snippetLength) "'" (by decide +kernel) (by decide +kernel)
  exact congrArg (· ++ " at " ++ location.text) quote

end ParseError

def Error.inFile (file : String) : Error → Error
  | parse e => .parse { e with file := some file }
  | error => error

/-- The file has no part in the answer but to be named in its error. -/
theorem Verdict.answer_inFile (v : Verdict V) (source : Source) (file : String) (allowPartial : Bool) :
    v.answer source (some file) allowPartial =
      (v.answer source none allowPartial).mapError (.inFile file) := by
  cases v with
  | aborted why => cases why <;> rfl
  | failed => rfl
  | matched stop made =>
    cases made with
    | nil => rfl
    | cons m made =>
      simp only [answer, List.head?_cons, Option.elim_some, Parser.close]
      cases source.rest? stop with
      | none => rfl
      | some rest => dsimp only; split <;> rfl

theorem Verdict.file_of_answer {v : Verdict V} {source : Source} {file : Option String}
    {allowPartial : Bool} {e : ParseError} (ended : v.answer source file allowPartial = .error (.parse e)) :
    e.file = file := by
  cases v with
  | aborted why =>
    cases why <;> cases ended
    rfl
  | failed =>
    cases ended
    rfl
  | matched stop made =>
    cases made with
    | nil => cases ended
    | cons m made =>
      simp only [answer, List.head?_cons, Option.elim_some, Parser.close] at ended
      split at ended
      · cases ended
      · split at ended <;> cases ended
        rfl

namespace Parser

variable [Value V]

/-- All runs of a parser on an input give the answer of one verdict. -/
theorem exists_answers (p : Parser V) (input : String) :
    ∃ v, Derives (.ofText p.grammar input.toList) (.call p.start) Position.start v ∧
      ∀ file allowPartial, (p.run input file allowPartial).result =
        v.answer (Source.ofText input.toList) file allowPartial := by
  obtain ⟨v, d, -⟩ := p.run_answer input none true
  refine ⟨v, d, fun file allowPartial => ?_⟩
  obtain ⟨v', d', answer⟩ := p.run_answer input file allowPartial
  rw [answer, d'.unique d]

theorem run_inFile (p : Parser V) (input file : String) (allowPartial : Bool) :
    (p.run input (some file) allowPartial).result =
      (p.run input none allowPartial).result.mapError (.inFile file) := by
  obtain ⟨v, -, answers⟩ := p.exists_answers input
  rw [answers, answers, v.answer_inFile]

/-- What a parse comes to if a beginning of the input gives a value. -/
theorem run_of_parsePartial {p : Parser V} {input : String} {value : V} {unconsumed : String}
    (parsed : p.parsePartial input = .ok ⟨value, unconsumed⟩) :
    ∃ before, input = before ++ unconsumed ∧ ∀ allowPartial, (p.run input none allowPartial).result =
      if unconsumed.toList.isEmpty || allowPartial then .ok ⟨value, unconsumed⟩
      else .error (.parse ⟨.unconsumed unconsumed.toList, Position.start.advanceOver before.toList, none⟩) := by
  obtain ⟨v, d, answers⟩ := p.exists_answers input
  rw [parsePartial, answers] at parsed
  cases v with
  | aborted | failed => cases parsed
  | matched stop made misses =>
    obtain ⟨value', rest, cut, ends⟩ := d.answer_of_matched
    obtain ⟨before, ⟨rest', split⟩, place⟩ := d.reached (Source.reached_start _)
    have cut' := Source.rest?_of_split split.symm
    obtain rfl : rest' = rest := Option.some.inj (cut'.symm.trans (place ▸ cut))
    have whole : input.toList = before ++ rest' := split.symm
    have given := (ends none true).symm.trans parsed
    rw [Bool.or_true, if_pos rfl] at given
    cases given
    refine ⟨String.ofList before, ?_, fun allowPartial => ?_⟩
    · apply String.toList_inj.mp
      simpa using whole
    · rw [answers, String.toList_ofList, String.toList_ofList, ← place]
      exact ends none allowPartial

/-- Without a value for a beginning of the input there is none for all of it, for the same reason. -/
theorem run_of_parsePartial_error {p : Parser V} {input : String} {error : Error}
    (refused : p.parsePartial input = .error error) (allowPartial : Bool) :
    (p.run input none allowPartial).result = .error error := by
  obtain ⟨v, d, answers⟩ := p.exists_answers input
  rw [parsePartial, answers] at refused
  rw [answers]
  cases v with
  | aborted | failed => exact refused
  | matched stop made misses =>
    obtain ⟨value, rest, cut, ends⟩ := d.answer_of_matched
    have parsed := ends none true
    rw [Bool.or_true, if_pos rfl] at parsed
    cases refused.symm.trans parsed

theorem parseFile_eq (p : Parser V) (input file : String) :
    p.parseFile input file = (p.parse input).mapError (.inFile file) := by
  rw [parseFile, parse, run_inFile]
  generalize (p.run input none p.allowPartial).result = result
  cases result <;> rfl

theorem file_of_parse {p : Parser V} {input : String} {error : ParseError}
    (ended : p.parse input = .error (.parse error)) : error.file = none := by
  obtain ⟨v, -, answers⟩ := p.exists_answers input
  rw [parse, answers] at ended
  generalize answer : v.answer (Source.ofText input.toList) none p.allowPartial = result at ended
  cases result with
  | ok => cases ended
  | error =>
    cases ended
    exact Verdict.file_of_answer answer

/-- The parse of a beginning of the input decides the parse of all of it, with the input left over told
of from where it begins. A parse of a file is the same, but its errors name the file. -/
theorem entryPoints_agree (p : Parser V) (input : String) :
    (∀ value unconsumed, p.parsePartial input = .ok ⟨value, unconsumed⟩ →
      (p.withPartial true).parse input = .ok value ∧ ∃ before, input = before ++ unconsumed ∧
        if unconsumed = "" then (p.withPartial false).parse input = .ok value
        else ∃ error : ParseError, (p.withPartial false).parse input = .error (.parse error) ∧
          error.cause = .unconsumed unconsumed.toList ∧
          error.location = Position.start.advanceOver before.toList ∧
          error.message = "Not all input was consumed starting from '" ++
            String.ofList (Text.escape (unconsumed.toList.take 16)) ++ "'" ++ " at " ++
            error.location.text ++ ".") ∧
    (∀ error, p.parsePartial input = .error error →
      ∀ allowPartial, (p.withPartial allowPartial).parse input = .error error) ∧
    ∀ allowPartial file,
      (p.withPartial allowPartial).parseFile input file =
        ((p.withPartial allowPartial).parse input).mapError (.inFile file) ∧
      ∀ error : ParseError, (p.withPartial allowPartial).parse input = .error (.parse error) →
        error.message = error.sentence ++ "." ∧
          ((Error.parse error).inFile file).message = error.sentence ++ " in " ++ file := by
  refine ⟨?_, ?_, ?_⟩
  · intro value unconsumed parsed
    obtain ⟨before, split, ends⟩ := run_of_parsePartial parsed
    have answer (allowPartial : Bool) := congrArg (Except.map Parsed.value) (ends allowPartial)
    refine ⟨(answer true).trans (by rw [Bool.or_true, if_pos rfl]; rfl), before, split, ?_⟩
    by_cases whole : unconsumed = ""
    · rw [if_pos whole]
      subst whole
      exact answer false
    · rw [if_neg whole]
      have some_left : unconsumed.toList.isEmpty = false := by simpa using whole
      refine ⟨⟨.unconsumed unconsumed.toList, Position.start.advanceOver before.toList, none⟩,
        (answer false).trans (by rw [some_left]; rfl), rfl, rfl, ?_⟩
      rw [ParseError.message_of_unnamed rfl, ParseError.sentence_unconsumed]
      rfl
  · intro error refused allowPartial
    exact congrArg (Except.map Parsed.value) (run_of_parsePartial_error refused allowPartial)
  · intro allowPartial file
    refine ⟨parseFile_eq _ input file, fun error ended => ?_⟩
    exact ⟨ParseError.message_of_unnamed (file_of_parse ended), ParseError.message_of_named rfl⟩

def wordLines : Parser String where
  grammar := .ofRules [
    { name := "lines", body := .plus (.ref "line") },
    { name := "line"
      body := .seq [.plus (.charClass (CharClass.empty.addRange 'a' 'ÿ')), .lit "\n"]
      label := some "word" }]
  start := "lines"
  accepted := by decide +kernel

theorem wordLines_agree :
    let rest := "1\t2 3 4 5 6 7 8 9"
    let failure : ParseError := ⟨.expected ["word"], ⟨2, 1, 3⟩, none⟩
    wordLines.parsePartial ("ab\nö\n" ++ rest) = .ok ⟨"ab\nö\n", rest⟩ ∧ rest ≠ "" ∧
      (wordLines.withPartial true).parse ("ab\nö\n" ++ rest) = .ok "ab\nö\n" ∧
      (∃ error : ParseError,
        (wordLines.withPartial false).parse ("ab\nö\n" ++ rest) = .error (.parse error) ∧
        error.location = ⟨6, 3, 1⟩ ∧
        error.message = "Not all input was consumed starting from '1\\t2 3 4 5 6 7 8 ' at line 3 col 1." ∧
        (wordLines.withPartial false).parseFile ("ab\nö\n" ++ rest) "words" =
          .error ((Error.parse error).inFile "words") ∧
        ((Error.parse error).inFile "words").message = error.sentence ++ " in " ++ "words") ∧
      wordLines.parsePartial "ab" = .error (.parse failure) ∧
      (wordLines.withPartial true).parse "ab" = .error (.parse failure) := by
  intro rest failure
  have parsed : wordLines.parsePartial ("ab\nö\n" ++ rest) = .ok ⟨"ab\nö\n", rest⟩ := by
    decide +kernel
  have refused : wordLines.parsePartial "ab" = .error (.parse failure) := by decide +kernel
  have some_left : rest ≠ "" := by decide
  obtain ⟨matched, -, named⟩ := wordLines.entryPoints_agree ("ab\nö\n" ++ rest)
  obtain ⟨value, before, split, leftOver⟩ := matched _ _ parsed
  rw [if_neg some_left] at leftOver
  obtain ⟨error, ended, -, location, message⟩ := leftOver
  obtain ⟨file, messages⟩ := named false "words"
  have place : error.location = ⟨6, 3, 1⟩ := by
    obtain rfl : "ab\nö\n" = before := by simpa [String.append_left_inj] using split
    rw [location]
    decide +kernel
  refine ⟨parsed, some_left, value, ⟨error, ended, place, ?_, ?_, (messages error ended).2⟩, refused,
    (wordLines.entryPoints_agree "ab").2.1 _ refused true⟩
  · rw [message, place]
    decide +kernel
  · rw [file, ended]
    rfl

end Parser

end Packrat
