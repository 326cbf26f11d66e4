import Mathlib.Data.List.TakeWhile
import Packrat.Proofs.Calculator.Longest

/-! How the calculator reads blanks, numbers and operators. -/
namespace Packrat.Calculator

def session (source : Source) : Session Float := ⟨grammar, source⟩

variable {source : Source} {pos : Position} {r rest : List Char} {l : Level}

theorem isDigit_eq : (CharClass.empty.addRange '0' '9').contains = Char.isDigit := by
  funext c
  simp [CharClass.contains, CharClass.lists, CharClass.empty, CharClass.addRange, Char.isDigit,
    Char.le_def]

theorem isBlank_eq : (CharClass.empty.addChars " \t\r\n").contains = isBlank := by
  funext c
  simp [CharClass.contains, CharClass.lists, CharClass.empty, CharClass.addChars, isBlank,
    Bool.or_assoc, Bool.beq_eq_decide_eq]

theorem find?_number : grammar.find? "number" = some
    { name := "number"
      body := .seq [digits, .opt (.seq [.lit ".", digits]), .ref "_"]
      fold := some readNumber
      label := some "number" } := rfl

theorem find?_blanks : grammar.find? "_" = some
    { name := "_", body := .star (.ref "space"), silent := true } := rfl

theorem find?_space : grammar.find? "space" = some
    { name := "space"
      body := .charClass (CharClass.empty.addChars " \t\r\n")
      label := some "whitespace" } := rfl

section Blanks

theorem space_oneChar : OneChar (session source) (.ref "space") isBlank where
  matched {pos c rest} here blank := by
    have between : source.Between pos [c] (pos.advanceOver [c]) := ⟨rest, here, rfl⟩
    exact ⟨_, rfl, .ref_call find?_space rfl
      (.call_matched find?_space (.charClass here (isBlank_eq ▸ blank)) between.slice rfl)⟩
  failed here halts :=
    ⟨_, .ref_call find?_space rfl
      (.call_failed find?_space (.charClass_failed here (isBlank_eq ▸ halts)))⟩

theorem blanks_derives (blanks : Blanks) (here : source.rest? pos = some (blanks.chars ++ rest))
    (halts : Halts isBlank rest) : ∃ misses, Derives (session source) (.expr (.ref "_")) pos
      (.matched (pos.advanceOver blanks.chars) [] misses) := by
  have between : source.Between pos blanks.chars (pos.advanceOver blanks.chars) := ⟨rest, here, rfl⟩
  obtain ⟨made, misses, -, d⟩ := space_oneChar.star here blanks.blank halts
  exact ⟨misses, .ref_silent find?_blanks rfl (.call_matched find?_blanks d between.slice rfl)⟩

/-- A token and the blanks after it. -/
theorem token_derives {e : Expr} {others : List Expr} {a : List Char} {m : Match Float}
    {misses : List Miss} {v : Verdict Float} (blanks : Blanks)
    (here : source.rest? pos = some (a ++ (blanks.chars ++ rest))) (halts : Halts isBlank rest)
    (d : Derives (session source) (.expr e) pos (.matched (pos.advanceOver a) [m] misses))
    (d' : Derives (session source) (.expr (.seq others)) (pos.advanceOver (a ++ blanks.chars)) v) :
    ∃ misses, Derives (session source) (.expr (.seq (e :: .ref "_" :: others))) pos
      (v.after [m] misses) := by
  obtain ⟨misses', between⟩ := blanks_derives blanks (Source.rest?_advanceOver here) halts
  rw [← Position.advanceOver_append] at between
  have whole := d.seq_cons (between.seq_cons d')
  rw [Verdict.after_after] at whole
  exact ⟨_, whole⟩

/-- A text begins with blanks, perhaps none, and goes on with something else. -/
theorem exists_blanks (r : List Char) :
    ∃ (blanks : Blanks) (rest : List Char), r = blanks.chars ++ rest ∧ Halts isBlank rest :=
  ⟨⟨r.takeWhile isBlank, fun _ => List.mem_takeWhile_imp⟩, r.dropWhile isBlank,
    List.takeWhile_append_dropWhile.symm, halts_dropWhile isBlank r⟩

end Blanks

section Numbers

variable {n : Numeral} {after : Blanks}

theorem digit_oneChar :
    OneChar (session source) (.charClass (CharClass.empty.addRange '0' '9')) Char.isDigit :=
  isDigit_eq ▸ .charClass _

theorem exists_digits (r : List Char) : Halts Char.isDigit r ∨
    ∃ (d : Digits) (rest : List Char), r = d.chars ++ rest ∧ Halts Char.isDigit rest := by
  by_cases none : r.takeWhile Char.isDigit = []
  · left
    have same : r.dropWhile Char.isDigit = r := by
      simpa [none] using List.takeWhile_append_dropWhile (p := Char.isDigit) (l := r)
    have halts := halts_dropWhile Char.isDigit r
    rwa [same] at halts
  · exact .inr ⟨⟨r.takeWhile Char.isDigit, none, fun _ => List.mem_takeWhile_imp⟩,
      r.dropWhile Char.isDigit, List.takeWhile_append_dropWhile.symm, halts_dropWhile Char.isDigit r⟩

/-- A text that begins with a digit begins with a longest numeral. -/
theorem exists_numeral (r : List Char) : Halts Char.isDigit r ∨
    ∃ (n : Numeral) (rest : List Char), r = n.text ++ rest ∧ n.Ends rest := by
  rcases exists_digits r with halts | ⟨whole, rest, rfl, halts⟩
  · exact .inl halts
  · right
    by_cases point : ∃ t, rest = '.' :: t ∧ ¬ Halts Char.isDigit t
    · obtain ⟨t, rfl, goes⟩ := point
      obtain ⟨fraction, rest, rfl, halts'⟩ := (exists_digits t).resolve_left goes
      exact ⟨⟨whole, some fraction⟩, rest, by simp [Numeral.text, Numeral.tail], halts', nofun⟩
    · push Not at point
      exact ⟨⟨whole, none⟩, rest, by simp [Numeral.text, Numeral.tail], halts, fun _ => point⟩

/-- The fraction is taken if there is one. -/
theorem tail_derives (here : source.rest? pos = some (n.tail ++ rest)) (ends : n.Ends rest) :
    ∃ made misses, made.flatMap Match.text = n.tail ∧
      Derives (session source) (.expr (.opt (.seq [.lit ".", digits]))) pos
        (.matched (pos.advanceOver n.tail) made misses) := by
  cases fraction : n.fraction with
  | none =>
    have nothing : n.tail = [] := by simp [Numeral.tail, fraction]
    rw [nothing] at here ⊢
    suffices stops : ∃ misses, Derives (session source) (.expr (.seq [.lit ".", digits])) pos
        (.failed misses) by
      obtain ⟨misses, d⟩ := stops
      exact ⟨[], misses, rfl, .repeated (.rounds_failed rfl d)⟩
    by_cases point : ".".toList <+: rest
    · obtain ⟨t, rfl⟩ := point
      have there : source.rest? (pos.advanceOver ".".toList) = some t := Source.rest?_advanceOver here
      obtain ⟨misses, d⟩ := digit_oneChar.plus_failed there (ends.point fraction t rfl)
      exact ⟨_, .seq_cons (.lit here) (.seq_stop d rfl)⟩
    · exact ⟨_, .seq_stop (.lit_failed here point) rfl⟩
  | some f =>
    have tail : n.tail = ".".toList ++ f.chars := by simp [Numeral.tail, fraction]
    rw [tail, List.append_assoc] at here
    have there := Source.rest?_advanceOver here
    obtain ⟨made, misses, spelled, d⟩ := digit_oneChar.plus there f.digit ends.digits f.nonempty
    have fraction := Derives.seq_cons (.lit here) (.seq_cons d .seq_nil)
    have moved : ((pos.advanceOver ".".toList).advanceOver f.chars).offset ≠ pos.offset := by
      have : Text.byteSize ".".toList = 1 := rfl
      simp only [Position.offset_advanceOver]
      omega
    have once : Derives (session source) (.rounds (.seq [.lit ".", digits]) 0 (some 1) 0) pos _ :=
      .rounds_more rfl fraction moved (.rounds_full rfl)
    rw [tail, Position.advanceOver_append]
    exact ⟨_, _, by simp [spelled], .repeated once⟩

def Numeral.complaint (n : Numeral) : String := "number " ++ String.ofList n.text ++ " is out of range"

theorem readNumber_eq {made : List (Match Float)} (spelled : made.flatMap Match.text = n.text) :
    readNumber made = if n.isFinite then .ok n.value else .error (.reject n.complaint) := by
  rw [readNumber, spelled, Numeral.value, Numeral.isFinite, Numeral.complaint]
  generalize Number.read? n.text = read
  cases read with
  | none => rfl
  | some x => cases finite : x.isFinite <;> simp [Option.filter, finite]

theorem number_body (here : source.rest? pos = some (n.text ++ (after.chars ++ rest)))
    (ends : n.Ends (after.chars ++ rest)) (halts : Halts isBlank rest) :
    ∃ made misses, made.flatMap Match.text = n.text ∧ Derives (session source)
      (.expr (.seq [digits, .opt (.seq [.lit ".", digits]), .ref "_"])) pos
      (.matched (pos.advanceOver (n.text ++ after.chars)) made misses) := by
  rw [Numeral.text, List.append_assoc] at here
  have atTail := Source.rest?_advanceOver here
  have atBlanks := Source.rest?_advanceOver atTail
  obtain ⟨made, misses, spelled, whole⟩ :=
    digit_oneChar.plus here n.whole.digit ends.whole n.whole.nonempty
  obtain ⟨made', misses', spelled', tail⟩ := tail_derives atTail ends
  obtain ⟨misses'', blanks⟩ := blanks_derives after atBlanks halts
  have d := Derives.seq_cons whole (.seq_cons tail (.seq_cons blanks .seq_nil))
  rw [Numeral.text, Position.advanceOver_append, Position.advanceOver_append]
  exact ⟨_, _, by simp [spelled, spelled'], d⟩

theorem number_matched (here : source.rest? pos = some (n.text ++ (after.chars ++ rest)))
    (ends : n.Ends (after.chars ++ rest)) (halts : Halts isBlank rest) (finite : n.isFinite) :
    ∃ misses, Derives (session source) (.call "number") pos
      (.matched (pos.advanceOver (n.text ++ after.chars)) [⟨n.text ++ after.chars, n.value, pos⟩]
        misses) := by
  obtain ⟨made, misses, spelled, body⟩ := number_body here ends halts
  have between : source.Between pos (n.text ++ after.chars) (pos.advanceOver (n.text ++ after.chars)) :=
    ⟨rest, by simp [here], rfl⟩
  refine ⟨misses, .call_matched find?_number body between.slice ?_⟩
  simp [Rule.value, readNumber_eq spelled, finite]

theorem number_refused (here : source.rest? pos = some (n.text ++ (after.chars ++ rest)))
    (ends : n.Ends (after.chars ++ rest)) (halts : Halts isBlank rest)
    (infinite : n.isFinite = false) :
    Derives (session source) (.call "number") pos (.aborted (.rejected n.complaint pos)) := by
  obtain ⟨made, misses, spelled, body⟩ := number_body here ends halts
  have between : source.Between pos (n.text ++ after.chars) (pos.advanceOver (n.text ++ after.chars)) :=
    ⟨rest, by simp [here], rfl⟩
  refine .call_refused (e := .reject n.complaint) find?_number body between.slice ?_
  simp [Rule.value, readNumber_eq spelled, infinite]

theorem number_failed (here : source.rest? pos = some rest) (halts : Halts Char.isDigit rest) :
    ∃ misses, Derives (session source) (.call "number") pos (.failed misses) := by
  obtain ⟨misses, d⟩ := digit_oneChar.plus_failed here halts
  exact ⟨_, .call_failed find?_number (.seq_stop d rfl)⟩

end Numbers

section Levels

def Level.name : Level → String
  | product => "product"
  | sum => "sum"

def Level.operand : Level → String
  | product => "value"
  | sum => "product"

def Level.operators : Level → List String
  | product => ["*", "/"]
  | sum => ["+", "-"]

theorem find?_level (l : Level) : grammar.find? l.name = some
    { name := l.name
      body := level l.operand l.operators
      fold := some (Fold.binary Fold.arith) } := by
  cases l <;> rfl

theorem operator_matched (op : Operator l) (here : source.rest? pos = some (op.char :: rest)) :
    ∃ (m : Match Float) (misses : List Miss), m.text = [op.char] ∧
      Derives (session source) (.expr (.choice (l.operators.map .lit))) pos
        (.matched (pos.advanceOver [op.char]) [m] misses) := by
  cases op with
  | times | plus => exact ⟨_, _, rfl, .choice_take (.lit here) rfl⟩
  | divide | minus =>
    refine ⟨_, _, rfl, .choice_next (.lit_failed here ?_) (.choice_take (.lit here) rfl)⟩
    intro begins
    cases (List.cons_prefix_cons.mp begins).1

theorem operator_failed (here : source.rest? pos = some rest) (halts : Halts l.isSign rest) :
    ∃ misses, Derives (session source) (.expr (.choice (l.operators.map .lit))) pos
      (.failed misses) := by
  have apart (text : String) (op : Operator l) (spells : text.toList = [op.char]) :
      ¬ text.toList <+: rest := by
    rw [spells]
    rintro ⟨t, rfl⟩
    exact op.not_halts halts
  cases l with
  | product =>
    exact ⟨_, .choice_next (.lit_failed here (apart "*" .times rfl))
      (.choice_next (.lit_failed here (apart "/" .divide rfl)) .choice_nil)⟩
  | sum =>
    exact ⟨_, .choice_next (.lit_failed here (apart "+" .plus rfl))
      (.choice_next (.lit_failed here (apart "-" .minus rfl)) .choice_nil)⟩

/-- A text begins with an operator of the level or with no sign of it. -/
theorem exists_operator (l : Level) (r : List Char) :
    Halts l.isSign r ∨ ∃ (op : Operator l) (rest : List Char), r = op.char :: rest := by
  cases r with
  | nil => exact .inl (halts_nil _)
  | cons c t =>
    cases sign : l.isSign c with
    | false => exact .inl (by rintro _ ⟨⟩; exact sign)
    | true =>
      right
      cases l with
      | product =>
        simp only [Level.isSign, Bool.or_eq_true, beq_iff_eq] at sign
        rcases sign with rfl | rfl
        · exact ⟨.times, t, rfl⟩
        · exact ⟨.divide, t, rfl⟩
      | sum =>
        simp only [Level.isSign, Bool.or_eq_true, beq_iff_eq] at sign
        rcases sign with rfl | rfl
        · exact ⟨.plus, t, rfl⟩
        · exact ⟨.minus, t, rfl⟩

/-- The arithmetic fold knows the operator that a match spells. -/
theorem arith_operator {m : Match Float} {op : Operator l} (spelled : m.text = [op.char])
    (x y : Float) : Fold.arith x (Fold.operator m) y = some (op.apply x y) := by
  have trimmed : Fold.operator m = String.ofList [op.char] := by
    rw [Fold.operator, spelled]
    cases op <;> rfl
  rw [trimmed]
  cases op <;> rfl

end Levels

end Packrat.Calculator
