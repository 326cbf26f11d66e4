import Packrat.Proofs.Calculator.Overflow
import Packrat.Proofs.Calculator.Terminals

/-! The rules of the calculator read the longest derivation at a place, if no numeral in it is out of
range. -/
namespace Packrat.Calculator

variable {source : Source} {pos : Position} {r rest gone : List Char} {l : Level} {X : Symbol}
  {n : Numeral} {before after : Blanks} {made : List (Match Float)} {misses : List Miss} {most : Nat}

/-- What a reader of derivations from `X` comes to before the text `r`: the longest derivation at its
beginning, of whose matches `tells` holds; a failure if `r` begins with no derivation; or the complaint about
the leftmost numeral out of range. -/
inductive Reads (X : Symbol) (pos : Position) (r : List Char)
    (tells : Derivation X → List (Match Float) → Prop) : Verdict Float → Prop where
  | matched {x : Derivation X} {rest : List Char} {made : List (Match Float)} {misses : List Miss} :
      r = x.text ++ rest → x.Longest rest → x.overflow? pos = none → tells x made →
      Reads X pos r tells (.matched (pos.advanceOver x.text) made misses)
  | failed {misses : List Miss} :
      (∀ y : Derivation X, ¬ y.text <+: r) → Reads X pos r tells (.failed misses)
  | aborted {gone : List Char} {n : Numeral} :
      Overflows X pos r gone n →
      Reads X pos r tells (.aborted (.rejected n.complaint (pos.advanceOver gone)))

/-- Failures on the way make no difference. -/
theorem Reads.after_nil {tells : Derivation X → List (Match Float) → Prop} {v : Verdict Float}
    (reads : Reads X pos r tells v) (misses : List Miss) : Reads X pos r tells (v.after [] misses) := by
  cases reads with
  | matched same longest finite told => exact .matched same longest finite told
  | failed absent => exact .failed absent
  | aborted overflows => exact .aborted overflows

abbrev IsMatch (value : Derivation X → Float) (pos : Position) (x : Derivation X)
    (made : List (Match Float)) : Prop := made = [⟨x.text, value x, pos⟩]

/-- The rule reads derivations from `X` in texts of at most this many characters. -/
def Parses (source : Source) (name : String) (X : Symbol) (value : Derivation X → Float) (most : Nat) :
    Prop :=
  ∀ (pos : Position) (r : List Char), source.rest? pos = some r → r.length ≤ most →
    ∃ v, Derives (session source) (.call name) pos v ∧
      Reads X pos r (IsMatch value pos) v

section Levels

variable {op : Operator l} {next : Derivation (.operand l)}

def Folds (x : Derivation (.others l)) (made : List (Match Float)) : Prop :=
  made.length % 2 = 0 ∧ ∀ acc, Fold.accumulate Fold.arith acc made = .ok (x.value acc)

theorem Folds.done : Folds (.done : Derivation (.others l)) [] := ⟨rfl, fun _ => rfl⟩

theorem Folds.more {m m' : Match Float} {others : Derivation (.others l)} (folds : Folds others made)
    (spelled : m.text = [op.char]) (operand : m'.value = next.value) :
    Folds (.more op before next others) (m :: m' :: made) := by
  obtain ⟨even, accumulated⟩ := folds
  refine ⟨by simpa [Nat.add_assoc] using even, fun acc => ?_⟩
  rw [Fold.accumulate, arith_operator spelled]
  simpa [operand, Derivation.value] using accumulated (op.apply acc next.value)

theorem Folds.binary {m : Match Float} {first : Derivation (.operand l)} {others : Derivation (.others l)}
    (folds : Folds others made) (operand : m.value = first.value) :
    Fold.binary Fold.arith (m :: made) = .ok (Derivation.chain first others).value := by
  obtain ⟨even, accumulated⟩ := folds
  rw [Fold.binary, if_neg (by omega)]
  simpa [operand, Derivation.value] using accumulated first.value

def round (l : Level) : Expr := .seq [.choice (l.operators.map .lit), .ref "_", .ref l.operand]

theorem round_derives {v : Verdict Float} (here : source.rest? pos = some (op.char :: (before.chars ++ r)))
    (halts : Halts isBlank r) (d : Derives (session source) (.expr (.ref l.operand))
      (pos.advanceOver (op.char :: before.chars)) v) :
    ∃ (m : Match Float) (misses : List Miss), m.text = [op.char] ∧
      Derives (session source) (.expr (round l)) pos (v.after [m] misses) := by
  obtain ⟨m, misses, spelled, operator⟩ := operator_matched op here
  obtain ⟨misses', d'⟩ := token_derives (a := [op.char]) before here halts operator d.seq_last
  exact ⟨m, misses', spelled, d'⟩

theorem operand_loud (l : Level) :
    ∃ rule : Rule Float, grammar.find? l.operand = some rule ∧ rule.silent = false := by
  cases l <;> exact ⟨_, rfl, rfl⟩

theorem Reads.done (count : Nat) (absent : ∀ (op : Operator l) (before : Blanks)
      (next : Derivation (.operand l)), ¬ op.char :: before.chars ++ next.text <+: r) :
    Reads (.others l) pos r Folds (.ofCount 0 count pos [] misses) := by
  rw [Verdict.ofCount, if_pos (Nat.zero_le _)]
  exact .matched (x := .done) rfl (.done absent) rfl .done

theorem Reads.more {m m' : Match Float} {v : Verdict Float} (longest : next.Longest r)
    (finite : next.overflow? (pos.advanceOver (op.char :: before.chars)) = none)
    (spelled : m.text = [op.char]) (operand : m'.value = next.value)
    (reads : Reads (.others l) ((pos.advanceOver (op.char :: before.chars)).advanceOver next.text) r
      Folds v) :
    Reads (.others l) pos (op.char :: before.chars ++ (next.text ++ r)) Folds
      (v.after [m, m'] misses) := by
  cases reads with
  | @matched x rest _ _ same longest' finite' folds =>
    subst same
    rw [← Position.advanceOver_append pos, ← Position.advanceOver_append]
    refine .matched (x := .more op before next x) ?_ (longest.more longest') ?_
      (folds.more spelled operand)
    · simp
    · simp [finite, finite']
  | failed absent => exact (absent .done List.nil_prefix).elim
  | aborted overflows =>
    rw [← Position.advanceOver_append, ← Position.advanceOver_append]
    exact .aborted (overflows.more longest finite)

/-- Operators with operands are read as long as there are any. -/
theorem others_read (operands : Parses source l.operand (.operand l) Derivation.value most)
    (here : source.rest? pos = some r) (short : r.length ≤ most) (count : Nat) :
    ∃ v, Derives (session source) (.rounds (round l) 0 none count) pos v ∧
      Reads (.others l) pos r Folds v := by
  obtain ⟨rule, found, loud⟩ := operand_loud l
  induction size : r.length using Nat.strong_induction_on generalizing pos r count with
  | _ size ih =>
  rcases exists_operator l r with halts | ⟨op, t, rfl⟩
  · obtain ⟨misses, d⟩ := operator_failed here halts
    refine ⟨_, .rounds_failed rfl (.seq_stop d rfl), .done _ fun op before next begins => ?_⟩
    obtain ⟨u, rfl⟩ := begins
    exact op.not_halts halts
  obtain ⟨before, u, rfl, halts⟩ := exists_blanks t
  have there : source.rest? (pos.advanceOver (op.char :: before.chars)) = some u :=
    Source.rest?_advanceOver here
  simp only [List.length_cons, List.length_append] at short size
  obtain ⟨v, d, reads⟩ := operands _ _ there (by omega)
  obtain ⟨m, misses, spelled, round⟩ := round_derives here halts (.ref_call found loud d)
  cases reads with
  | @matched next rest _ _ same longest finite single =>
    subst same single
    simp only [List.length_append] at short size
    have moved : ((pos.advanceOver (op.char :: before.chars)).advanceOver next.text).offset ≠
        pos.offset := by
      have := op.char.utf8Size_pos
      simp
      omega
    obtain ⟨w, d', reads'⟩ := ih rest.length (by omega) (Source.rest?_advanceOver there) (by omega)
      (count + 1) rfl
    exact ⟨_, .rounds_more rfl round moved d', reads'.more longest finite spelled rfl⟩
  | failed absent =>
    -- the operator stands there without an operand, and the round takes nothing
    refine ⟨_, .rounds_failed rfl round, .done _ fun op' before' next begins => ?_⟩
    obtain ⟨signs, tails⟩ := List.cons_prefix_cons.mp begins
    rw [← List.append_nil next.text] at tails
    have operand := (Derivation.blanks_unique halts next rfl tails).2
    exact absent next (by simpa using operand)
  | aborted overflows =>
    rw [← Position.advanceOver_append] at round
    exact ⟨_, .rounds_aborted rfl round, .aborted (overflows.next halts)⟩

theorem chain_parses (operands : Parses source l.operand (.operand l) Derivation.value most) :
    Parses source l.name (.chain l) Derivation.value most := by
  intro pos r here short
  obtain ⟨rule, found, loud⟩ := operand_loud l
  obtain ⟨v, call, reads⟩ := operands _ _ here short
  have d := Derives.ref_call found loud call
  cases reads with
  | @matched first rest _ _ same longest finite single =>
    subst same single
    have there := Source.rest?_advanceOver here
    rw [List.length_append] at short
    obtain ⟨w, rounds, reads'⟩ := others_read operands there (by omega) 0
    have body := d.seq_cons (.seq_last (.repeated rounds))
    cases reads' with
    | @matched others rest' made misses same longest' finite' folds =>
      subst same
      rw [← Position.advanceOver_append] at body
      have between : source.Between pos (first.text ++ others.text)
          (pos.advanceOver (first.text ++ others.text)) := ⟨rest', by simpa using here, rfl⟩
      refine ⟨_, .call_matched (find?_level l) body between.slice (folds.binary rfl), ?_⟩
      refine .matched (x := .chain first others) ?_ (longest.chain longest') ?_ rfl
      · simp
      · simp [finite, finite']
    | failed absent => exact (absent .done List.nil_prefix).elim
    | aborted overflows =>
      rw [← Position.advanceOver_append] at body
      exact ⟨_, .call_aborted (find?_level l) body, .aborted (overflows.others longest finite)⟩
  | failed absent =>
    refine ⟨_, .call_failed (find?_level l) (.seq_stop d rfl), .failed fun y begins => ?_⟩
    cases y with
    | chain first others => exact absent first (List.IsPrefix.trans ⟨_, rfl⟩ begins)
  | aborted overflows =>
    exact ⟨_, .call_aborted (find?_level l) (.seq_stop d rfl), .aborted overflows.first⟩

end Levels

/-- A product is an operand of a sum. -/
theorem product_parses (products : Parses source "product" (.chain .product) Derivation.value most) :
    Parses source "product" (.operand .sum) Derivation.value most := by
  intro pos r here short
  obtain ⟨v, d, reads⟩ := products _ _ here short
  refine ⟨v, d, ?_⟩
  cases reads with
  | @matched p rest _ _ same longest finite single =>
    subst single
    exact .matched (x := .product p) same longest.product (by simp [finite]) rfl
  | failed absent =>
    refine .failed fun y begins => ?_
    cases y with
    | product p => exact absent p begins
  | aborted overflows => exact .aborted overflows.product

section Values

variable {inner : Derivation (.chain .sum)} {v : Verdict Float}

theorem find?_paren : grammar.find? "paren" = some
    { name := "paren"
      body := .seq [.lit "(", .ref "_", .ref "sum", .lit ")", .ref "_"]
      fold := some (Fold.nth 1)
      label := some "parenthesized expression"
      cached := true } := rfl

/-- After an opening parenthesis a value goes on with a sum and the closing one. -/
theorem paren_begins (halts : Halts isBlank r) (y : Derivation (.operand .product))
    (begins : y.text <+: '(' :: (before.chars ++ r)) :
    ∃ (inner : Derivation (.chain .sum)) (after : Blanks), inner.text ++ ')' :: after.chars <+: r := by
  cases y with
  | number n after =>
    obtain ⟨u, same⟩ := begins
    simp only [Derivation.text_number, List.append_assoc] at same
    exact (n.ne_opening _ _ same).elim
  | paren before' inner after =>
    simp only [Derivation.text_paren, List.cons_append, List.append_assoc] at begins
    have sums := (Derivation.blanks_unique halts inner rfl (List.cons_prefix_cons.mp begins).2).2
    exact ⟨inner, after, sums⟩

theorem opening_derives (here : source.rest? pos = some ('(' :: (before.chars ++ r)))
    (halts : Halts isBlank r) (d : Derives (session source) (.expr (.seq [.ref "sum", .lit ")", .ref "_"]))
      (pos.advanceOver ('(' :: before.chars)) v) :
    ∃ (m : Match Float) (misses : List Miss), Derives (session source)
      (.expr (.seq [.lit "(", .ref "_", .ref "sum", .lit ")", .ref "_"])) pos (v.after [m] misses) :=
  ⟨_, token_derives (a := ['(']) before here halts (.lit here) d⟩

theorem closing_derives (here : source.rest? pos = some (')' :: (after.chars ++ rest)))
    (halts : Halts isBlank rest) : ∃ (m : Match Float) (misses : List Miss),
      Derives (session source) (.expr (.seq [.lit ")", .ref "_"])) pos
        (.matched (pos.advanceOver (')' :: after.chars)) [m] misses) := by
  have token : Derives (session source) (.expr (.lit ")")) pos _ := .lit here
  obtain ⟨misses, d⟩ := token_derives (a := [')']) after here halts token .seq_nil
  exact ⟨_, _, d⟩

/-- After the sum it depends on the closing parenthesis. -/
theorem paren_reads_sum (here : source.rest? pos = some ('(' :: (before.chars ++ (inner.text ++ rest))))
    (longest : inner.Longest rest)
    (finite : inner.overflow? (pos.advanceOver ('(' :: before.chars)) = none)
    (d : Derives (session source) (.expr (.ref "sum")) (pos.advanceOver ('(' :: before.chars))
      (.matched ((pos.advanceOver ('(' :: before.chars)).advanceOver inner.text)
        [⟨inner.text, inner.value, pos.advanceOver ('(' :: before.chars)⟩] misses)) :
    ∃ v, Derives (session source) (.call "paren") pos v ∧
      Reads (.operand .product) pos ('(' :: (before.chars ++ (inner.text ++ rest)))
        (IsMatch Derivation.value pos) v := by
  have there : source.rest? ((pos.advanceOver ('(' :: before.chars)).advanceOver inner.text) =
      some rest := Source.rest?_advanceOver (Source.rest?_advanceOver here)
  have blank := inner.halts_isBlank rfl rest
  by_cases closing : ")".toList <+: rest
  · obtain ⟨t, rfl⟩ := closing
    obtain ⟨after, u, rfl, halts⟩ := exists_blanks t
    obtain ⟨m', misses', closed⟩ := closing_derives there halts
    obtain ⟨m, misses'', body⟩ := opening_derives here blank (d.seq_cons closed)
    rw [← Position.advanceOver_append pos, ← Position.advanceOver_append pos] at body
    let x : Derivation (.operand .product) := .paren before inner after
    have between : source.Between pos x.text (pos.advanceOver x.text) :=
      ⟨u, by simpa [x] using here, rfl⟩
    refine ⟨_, .call_matched find?_paren body between.slice rfl, ?_⟩
    exact .matched (x := x) (by simp [x]) (longest.paren halts) finite rfl
  · obtain ⟨m, misses', body⟩ := opening_derives here blank
      (d.seq_cons (.seq_stop (.lit_failed there closing) rfl))
    refine ⟨_, .call_failed find?_paren body, .failed fun y begins => ?_⟩
    obtain ⟨inner', after, sums⟩ := paren_begins blank y begins
    rcases longest inner' _ stops_paren sums with rfl | short
    · rw [List.prefix_append_right_inj] at sums
      exact closing (List.IsPrefix.trans ⟨_, rfl⟩ sums)
    · cases short.1

theorem paren_reads (sums : ∀ m < most, Parses source "sum" (.chain .sum) Derivation.value m)
    (here : source.rest? pos = some r) (short : r.length ≤ most) (halts : Halts Char.isDigit r) :
    ∃ v, Derives (session source) (.call "paren") pos v ∧
      Reads (.operand .product) pos r (IsMatch Derivation.value pos) v := by
  by_cases opening : "(".toList <+: r
  · obtain ⟨t, rfl⟩ := opening
    obtain ⟨before, u, rfl, blank⟩ := exists_blanks t
    have shorter : u.length < most := by
      simp at short
      omega
    have there : source.rest? (pos.advanceOver ('(' :: before.chars)) = some u :=
      Source.rest?_advanceOver here
    obtain ⟨v, call, reads⟩ := sums u.length shorter _ _ there le_rfl
    have sum := Derives.ref_call (find?_level .sum) rfl call
    cases reads with
    | matched same longest finite single =>
      subst same single
      exact paren_reads_sum here longest finite sum
    | failed absent =>
      obtain ⟨m, misses, body⟩ := opening_derives here blank (.seq_stop sum rfl)
      refine ⟨_, .call_failed find?_paren body, .failed fun y begins => ?_⟩
      obtain ⟨inner, after, sums⟩ := paren_begins blank y begins
      exact absent inner (List.IsPrefix.trans ⟨_, rfl⟩ sums)
    | aborted overflows =>
      obtain ⟨m, misses, body⟩ := opening_derives here blank (.seq_stop sum rfl)
      rw [← Position.advanceOver_append] at body
      exact ⟨_, .call_aborted find?_paren body, .aborted (overflows.paren blank)⟩
  · refine ⟨_, .call_failed find?_paren (.seq_stop (.lit_failed here opening) rfl),
      .failed fun y begins => ?_⟩
    obtain ⟨c, t, cons, digit | rfl⟩ := y.begins rfl
    · obtain ⟨u, rfl⟩ := begins
      rw [halts c (by simp [cons])] at digit
      cases digit
    · rw [cons] at begins
      exact opening (List.IsPrefix.trans ⟨t, rfl⟩ begins)

theorem find?_value : grammar.find? "value" = some
    { name := "value", body := .choice [.ref "number", .ref "paren"], fold := some Fold.first } := rfl

/-- A number, or else a sum in parentheses. -/
theorem choice_reads (sums : ∀ m < most, Parses source "sum" (.chain .sum) Derivation.value m)
    (here : source.rest? pos = some r) (short : r.length ≤ most) :
    ∃ v, Derives (session source) (.expr (.choice [.ref "number", .ref "paren"])) pos v ∧
      Reads (.operand .product) pos r (IsMatch Derivation.value pos) v := by
  rcases exists_numeral r with halts | ⟨n, t, rfl, ends⟩
  · obtain ⟨misses, d⟩ := number_failed here halts
    obtain ⟨v, d', reads⟩ := paren_reads sums here short halts
    have number := Derives.ref_call find?_number rfl d
    have paren := Derives.ref_call find?_paren rfl d'
    exact ⟨_, number.choice_next paren.choice_last, reads.after_nil misses⟩
  · obtain ⟨after, u, rfl, halts⟩ := exists_blanks t
    cases finite : n.isFinite with
    | true =>
      obtain ⟨misses, d⟩ := number_matched here ends halts finite
      refine ⟨_, .choice_take (.ref_call find?_number rfl d) rfl, ?_⟩
      exact .matched (x := .number n after) (by simp) (.number ends halts)
        (by simp [finite]) rfl
    | false =>
      have d := number_refused here ends halts finite
      exact ⟨_, .choice_take (.ref_call find?_number rfl d) rfl, .aborted (.number ends finite)⟩

theorem value_parses (sums : ∀ m < most, Parses source "sum" (.chain .sum) Derivation.value m) :
    Parses source "value" (.operand .product) Derivation.value most := by
  intro pos r here short
  obtain ⟨v, d, reads⟩ := choice_reads sums here short
  cases reads with
  | @matched x rest _ _ same longest finite single =>
    subst same single
    have between : source.Between pos x.text (pos.advanceOver x.text) := ⟨rest, here, rfl⟩
    exact ⟨_, .call_matched find?_value d between.slice rfl, .matched rfl longest finite rfl⟩
  | failed absent => exact ⟨_, .call_failed find?_value d, .failed absent⟩
  | aborted overflows => exact ⟨_, .call_aborted find?_value d, .aborted overflows⟩

end Values

/-- The rules read in texts of every length: sums in parentheses are in shorter ones. -/
theorem sum_parses (source : Source) (most : Nat) :
    Parses source "sum" (.chain .sum) Derivation.value most := by
  induction most using Nat.strong_induction_on with
  | _ most shorter =>
  have values : Parses source Level.product.operand (.operand .product) Derivation.value most :=
    value_parses shorter
  have products : Parses source Level.sum.operand (.operand .sum) Derivation.value most :=
    product_parses (chain_parses values)
  exact chain_parses (l := .sum) products

theorem find?_start : grammar.find? "start" = some
    { name := "start", body := .seq [.ref "_", .ref "sum"], fold := some Fold.first } := rfl

/-- The start rule reads expressions. -/
theorem start_reads (here : source.rest? pos = some r) :
    ∃ v, Derives (session source) (.call "start") pos v ∧
      Reads .start pos r (IsMatch Derivation.value pos) v := by
  obtain ⟨before, u, rfl, halts⟩ := exists_blanks r
  obtain ⟨misses, blanks⟩ := blanks_derives before here halts
  have there := Source.rest?_advanceOver here
  obtain ⟨v, call, reads⟩ := sum_parses source u.length _ _ there le_rfl
  have body := blanks.seq_cons (Derives.ref_call (find?_level .sum) rfl call).seq_last
  cases reads with
  | @matched sum rest _ _ same longest finite single =>
    subst same single
    have between : source.Between pos (before.chars ++ sum.text)
        (pos.advanceOver (before.chars ++ sum.text)) := ⟨rest, by simpa using here, rfl⟩
    rw [← Position.advanceOver_append] at body
    refine ⟨_, .call_matched find?_start body between.slice rfl, ?_⟩
    exact .matched (x := .start before sum) (by simp) longest.start finite rfl
  | failed absent =>
    refine ⟨_, .call_failed find?_start body, .failed fun y begins => ?_⟩
    cases y with
    | start before' sum =>
      simp only [Derivation.text_start] at begins
      rw [← List.append_nil sum.text] at begins
      have sums := (Derivation.blanks_unique halts sum rfl begins).2
      exact absent sum (by simpa using sums)
  | aborted overflows =>
    rw [← Position.advanceOver_append] at body
    exact ⟨_, .call_aborted find?_start body, .aborted (overflows.start halts)⟩

end Packrat.Calculator
