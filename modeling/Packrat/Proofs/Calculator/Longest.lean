import Packrat.Proofs.Calculator.Lexemes

/-! The longest derivation at the beginning of a text. A derivation is the longest if its parts are. So a
text has one derivation at most. -/
namespace Packrat.Calculator

def Level.isSign : Level → Char → Bool
  | product, c => c == '*' || c == '/'
  | sum, c => c == '+' || c == '-'

def goesOnNumber (c : Char) : Bool := isNumeric c || isBlank c

def Symbol.goesOn : Symbol → Char → Bool
  | operand .product, c => goesOnNumber c
  | operand .sum, c | chain .product, c | others .product, c => goesOnNumber c || Level.product.isSign c
  | chain .sum, c | others .sum, c | start, c =>
    goesOnNumber c || Level.product.isSign c || Level.sum.isSign c

/-- The text does not begin with a character that goes on. -/
abbrev Stops (X : Symbol) (rest : List Char) : Prop := Halts X.goesOn rest

variable {X : Symbol} {l : Level} {rest : List Char}

theorem goesOn_others (l : Level) (c : Char) :
    (Symbol.others l).goesOn c = ((Symbol.operand l).goesOn c || l.isSign c) := by
  cases l <;> rfl

theorem Stops.operand (stops : Stops (.others l) rest) : Stops (.operand l) rest :=
  stops.imp fun c goes => by rw [goesOn_others, goes, Bool.true_or]

theorem Stops.others (stops : Stops (.chain l) rest) : Stops (.others l) rest := by
  cases l <;> exact stops

theorem Stops.halts_isSign (stops : Stops (.others l) rest) : Halts l.isSign rest :=
  stops.imp fun c sign => by rw [goesOn_others, sign, Bool.or_true]

theorem Stops.halts_isBlank (stops : Stops (.operand .product) rest) : Halts isBlank rest :=
  stops.imp fun c blank => by simp [Symbol.goesOn, goesOnNumber, blank]

theorem Operator.isSign_char (op : Operator l) : l.isSign op.char := by
  cases op <;> rfl

theorem Operator.not_halts (op : Operator l) : ¬ Halts l.isSign (op.char :: rest) := by
  intro halts
  have sign := halts op.char rfl
  rw [op.isSign_char] at sign
  cases sign

theorem Operator.stops_char (op : Operator l) : Stops (.operand l) (op.char :: rest) := by
  rintro c ⟨⟩
  cases op <;> rfl

theorem stops_paren : Stops (.chain .sum) (')' :: rest) := by
  rintro c ⟨⟩
  rfl

def Symbol.isSolid : Symbol → Bool
  | operand _ | chain _ => true
  | start | others _ => false

theorem Blanks.halts_append (after : Blanks) (stops : Stops (.operand .product) rest) :
    Halts isNumeric (after.chars ++ rest) := by
  cases chars : after.chars with
  | nil => exact stops.imp fun c part => by simp_all [Symbol.goesOn, goesOnNumber]
  | cons c t =>
    rintro _ ⟨⟩
    exact isNumeric_of_isBlank (after.blank c (by simp [chars]))

namespace Derivation

theorem begins (d : Derivation X) (solid : X.isSolid) :
    ∃ c t, d.text = c :: t ∧ (c.isDigit ∨ c = '(') := by
  induction d with
  | number n after =>
    obtain ⟨c, t, cons, digit⟩ := n.whole.exists_cons
    exact ⟨c, t ++ n.tail ++ after.chars, by simp [Numeral.text, cons], .inl digit⟩
  | paren before inner after => exact ⟨'(', _, rfl, .inr rfl⟩
  | product p ih => exact ih rfl
  | chain first others ih =>
    obtain ⟨c, t, cons, kind⟩ := ih rfl
    exact ⟨c, t ++ others.text, by simp [cons], kind⟩
  | start | done | more => cases solid

theorem text_ne_nil (d : Derivation X) (solid : X.isSolid) : d.text ≠ [] := by
  obtain ⟨c, t, cons, -⟩ := d.begins solid
  simp [cons]

theorem halts_isBlank (d : Derivation X) (solid : X.isSolid) (rest : List Char) :
    Halts isBlank (d.text ++ rest) := by
  obtain ⟨c, t, cons, kind⟩ := d.begins solid
  rw [cons]
  rintro _ ⟨⟩
  rcases kind with digit | rfl
  · cases blank : isBlank c with
    | false => rfl
    | true => simpa [isNumeric, digit] using isNumeric_of_isBlank blank
  · rfl

/-- The blanks before a derivation are all that stand there. -/
theorem blanks_unique {before before' : Blanks} {more : List Char} (halts : Halts isBlank rest)
    (y : Derivation X) (solid : X.isSolid)
    (begins : before'.chars ++ (y.text ++ more) <+: before.chars ++ rest) :
    before' = before ∧ y.text ++ more <+: rest := by
  have same := run_eq before.blank halts before'.blank (y.halts_isBlank solid more)
    (by simp [y.text_ne_nil solid]) begins
  rw [same, List.prefix_append_right_inj] at begins
  exact ⟨Blanks.ext same, begins⟩

theorem blanks_only {before before' : Blanks} {more : List Char} (halts : Halts isBlank rest)
    (y : Derivation X) (solid : X.isSolid)
    (same : before.chars ++ rest = before'.chars ++ (y.text ++ more)) :
    before' = before ∧ rest = y.text ++ more := by
  obtain ⟨blanks, rest⟩ := run_only before.blank halts before'.blank (y.halts_isBlank solid more) same
  exact ⟨Blanks.ext blanks, rest.symm⟩

/-- What follows an operand, if it is not more of it. -/
theorem stops_others (d : Derivation (.others l)) (stops : Stops (.others l) rest) :
    Stops (.operand l) (d.text ++ rest) := by
  cases d with
  | done => exact stops.operand
  | more op before next others => exact op.stops_char

/-- Every derivation at the beginning of the text that stops there is `x`, or the text ends within
`x`. -/
def Longest (x : Derivation X) (rest : List Char) : Prop :=
  ∀ (y : Derivation X) (more : List Char), Stops X more → y.text ++ more <+: x.text ++ rest →
    y = x ∨ FallsShort y.text more x.text

namespace Longest

theorem start {before : Blanks} {sum : Derivation (.chain .sum)} (longest : sum.Longest rest) :
    (Derivation.start before sum).Longest rest := by
  rintro ⟨before', sum'⟩ more stops begins
  simp only [text_start, List.append_assoc] at begins ⊢
  obtain ⟨rfl, sums⟩ := blanks_unique (sum.halts_isBlank rfl rest) sum' rfl begins
  rcases longest sum' more stops sums with rfl | short
  · exact .inl rfl
  · exact .inr (short.right _)

theorem number {n : Numeral} {after : Blanks} (ends : n.Ends (after.chars ++ rest))
    (halts : Halts isBlank rest) : (Derivation.number n after).Longest rest := by
  intro y more stops begins
  cases y with
  | paren before' inner' after' =>
    obtain ⟨u, same⟩ := begins
    simp only [text_number, text_paren, List.cons_append, List.append_assoc] at same
    exact (n.ne_opening _ _ same.symm).elim
  | number n' after' =>
    simp only [text_number, List.append_assoc] at begins ⊢
    rcases Numeral.unique ends (after'.halts_append stops) begins with rfl | short
    · rw [List.prefix_append_right_inj] at begins
      rcases run_unique after.blank halts after'.blank stops.halts_isBlank begins with same | short
      · obtain rfl := Blanks.ext same
        exact .inl rfl
      · exact .inr (short.right _)
    · exact .inr short.left

theorem paren {before : Blanks} {inner : Derivation (.chain .sum)} {after : Blanks}
    (longest : inner.Longest (')' :: (after.chars ++ rest))) (halts : Halts isBlank rest) :
    (Derivation.paren before inner after).Longest rest := by
  intro y more stops begins
  cases y with
  | number n' after' =>
    obtain ⟨u, same⟩ := begins
    simp only [text_number, text_paren, List.cons_append, List.append_assoc] at same
    exact (n'.ne_opening _ _ same).elim
  | paren before' inner' after' =>
    simp only [text_paren, List.cons_append, List.append_assoc] at begins ⊢
    obtain ⟨rfl, sums⟩ := blanks_unique (inner.halts_isBlank rfl _) inner' rfl
      (List.cons_prefix_cons.mp begins).2
    rcases longest inner' _ stops_paren sums with rfl | short
    · rw [List.prefix_append_right_inj] at sums
      have tails := (List.cons_prefix_cons.mp sums).2
      rcases run_unique after.blank halts after'.blank stops.halts_isBlank tails with same | short
      · obtain rfl := Blanks.ext same
        exact .inl rfl
      · exact .inr (((short.right [')']).right _).right ('(' :: before'.chars))
    · cases short.1

theorem product {p : Derivation (.chain .product)} (longest : p.Longest rest) :
    (Derivation.product p).Longest rest := by
  intro y more stops begins
  cases y with
  | product p' =>
    rcases longest p' more stops begins with rfl | short
    · exact .inl rfl
    · exact .inr short

theorem chain {first : Derivation (.operand l)} {others : Derivation (.others l)}
    (longest : first.Longest (others.text ++ rest)) (longest' : others.Longest rest) :
    (Derivation.chain first others).Longest rest := by
  intro y more stops begins
  cases y with
  | chain first' others' =>
    simp only [text_chain, List.append_assoc] at begins ⊢
    rcases longest first' _ (others'.stops_others stops.others) begins with rfl | short
    · rw [List.prefix_append_right_inj] at begins
      rcases longest' others' more stops.others begins with rfl | short
      · exact .inl rfl
      · exact .inr (short.right _)
    · exact .inr short.left

/-- Nothing follows if no operator with an operand does. -/
theorem done (absent : ∀ (op : Operator l) (before : Blanks) (next : Derivation (.operand l)),
    ¬ op.char :: before.chars ++ next.text <+: rest) :
    (Derivation.done : Derivation (.others l)).Longest rest := by
  intro y more _ begins
  cases y with
  | done => exact .inl rfl
  | more op before next others =>
    refine (absent op before next (List.IsPrefix.trans ?_ begins)).elim
    exact ⟨others.text ++ more, by simp⟩

theorem more {op : Operator l} {before : Blanks} {next : Derivation (.operand l)}
    {others : Derivation (.others l)} (longest : next.Longest (others.text ++ rest))
    (longest' : others.Longest rest) : (Derivation.more op before next others).Longest rest := by
  intro y more stops begins
  cases y with
  | done =>
    cases more with
    | nil => exact .inr ⟨rfl, _, by simp, rfl⟩
    | cons c more =>
      simp only [text_done, text_more, List.nil_append, List.cons_append] at begins
      obtain rfl := (List.cons_prefix_cons.mp begins).1
      exact (op.not_halts stops.halts_isSign).elim
  | more op' before' next' others' =>
    simp only [text_more, List.cons_append, List.append_assoc] at begins ⊢
    obtain ⟨same, tails⟩ := List.cons_prefix_cons.mp begins
    obtain rfl := Operator.char_inj same
    obtain ⟨rfl, operands⟩ := blanks_unique (next.halts_isBlank rfl _) next' rfl tails
    rcases longest next' _ (others'.stops_others stops) operands with rfl | short
    · rw [List.prefix_append_right_inj] at operands
      rcases longest' others' more stops operands with rfl | short
      · exact .inl rfl
      · exact .inr ((short.right _).right (op'.char :: before'.chars))
    · exact .inr (short.left.right (op'.char :: before'.chars))

end Longest

theorem longest (d : Derivation X) : ∀ {rest}, Stops X rest → d.Longest rest := by
  induction d with
  | start before sum ih => exact fun stops => .start (ih stops)
  | number n after =>
    exact fun stops => .number (Numeral.ends_of_halts (after.halts_append stops)) stops.halts_isBlank
  | paren before inner after ih => exact fun stops => .paren (ih stops_paren) stops.halts_isBlank
  | product p ih => exact fun stops => .product (ih stops)
  | chain first others ih ih' =>
    exact fun stops => .chain (ih (others.stops_others stops.others)) (ih' stops.others)
  | done =>
    rintro rest stops
    refine .done fun op before next begins => ?_
    obtain ⟨u, rfl⟩ := begins
    exact op.not_halts stops.halts_isSign
  | more op before next others ih ih' =>
    exact fun stops => .more (ih (others.stops_others stops)) (ih' stops)

theorem unique (d d' : Derivation X) (same : d.text = d'.text) : d = d' := by
  have stops : Stops X [] := by simp [Halts]
  rcases d'.longest stops d [] stops (by simp [same]) with eq | short
  · exact eq
  · obtain ⟨-, u, nonempty, longer⟩ := short
    simp [same, nonempty] at longer

end Derivation

end Packrat.Calculator
