import Packrat.Proofs.Calculator.Language
import Packrat.Proofs.Semantics.Runs

/-! The longest run of characters of a kind, and the longest numeral, at the beginning of a text. -/
namespace Packrat.Calculator

section Runs

variable {p : Char → Bool} {a b c rest more : List Char}

/-- Nothing follows `b`, which is a proper beginning of `a`. -/
def FallsShort (b more a : List Char) : Prop := more = [] ∧ ∃ u, u ≠ [] ∧ b ++ u = a

theorem FallsShort.left {b' a' : List Char} (short : FallsShort b (b' ++ more) a) :
    FallsShort (b ++ b') more (a ++ a') := by
  obtain ⟨nothing, u, nonempty, rfl⟩ := short
  obtain ⟨rfl, rfl⟩ := List.append_eq_nil_iff.mp nothing
  exact ⟨rfl, u ++ a', by simp [nonempty], by simp⟩

theorem FallsShort.right (short : FallsShort b more a) (c : List Char) :
    FallsShort (c ++ b) more (c ++ a) := by
  obtain ⟨nothing, u, nonempty, rfl⟩ := short
  exact ⟨nothing, u, nonempty, by simp⟩

/-- The text and what follows it are not the text and what follows in another way. -/
theorem FallsShort.ne (short : FallsShort b more a) : a ++ rest ≠ b ++ more := by
  obtain ⟨rfl, u, nonempty, rfl⟩ := short
  simp [nonempty]

/-- A run of such characters is the longest there, or the text ends within it. -/
theorem run_unique (all : ∀ c ∈ a, p c) (halts : Halts p rest) (all' : ∀ c ∈ b, p c)
    (halts' : Halts p more) (begins : b ++ more <+: a ++ rest) : b = a ∨ FallsShort b more a := by
  induction a generalizing b with
  | nil =>
    cases b with
    | nil => exact .inl rfl
    | cons d b =>
      obtain ⟨u, rfl⟩ := begins
      simp [halts d rfl] at all'
  | cons d a ih =>
    cases b with
    | nil =>
      cases more with
      | nil => exact .inr ⟨rfl, d :: a, by simp, rfl⟩
      | cons e more =>
        obtain rfl : e = d := (List.cons_prefix_cons.mp begins).1
        simp [halts' e rfl] at all
    | cons e b =>
      obtain ⟨rfl, tails⟩ := List.cons_prefix_cons.mp begins
      have unique := ih (fun c member => all c (List.mem_cons_of_mem _ member))
        (fun c member => all' c (List.mem_cons_of_mem _ member)) tails
      rcases unique with rfl | short
      · exact .inl rfl
      · exact .inr (short.right [e])

/-- If something follows a run, the text does not end within it. -/
theorem run_eq (all : ∀ c ∈ a, p c) (halts : Halts p rest) (all' : ∀ c ∈ b, p c)
    (halts' : Halts p more) (follows : more ≠ []) (begins : b ++ more <+: a ++ rest) : b = a :=
  (run_unique all halts all' halts' begins).resolve_right fun short => follows short.1

/-- A text begins with one such run. -/
theorem run_only (all : ∀ c ∈ a, p c) (halts : Halts p rest) (all' : ∀ c ∈ b, p c)
    (halts' : Halts p more) (same : a ++ rest = b ++ more) : b = a ∧ more = rest := by
  have begins : b ++ more <+: a ++ rest := ⟨[], by simp [same]⟩
  rcases run_unique all halts all' halts' begins with rfl | short
  · exact ⟨rfl, (List.append_cancel_left same).symm⟩
  · exact (short.ne same).elim

end Runs

def isNumeric (c : Char) : Bool := c.isDigit || c == '.'

theorem isNumeric_of_isBlank {c : Char} (blank : isBlank c) : isNumeric c = false := by
  simp only [isBlank, Bool.or_eq_true, beq_iff_eq] at blank
  rcases blank with ((rfl | rfl) | rfl) | rfl <;> rfl

theorem Digits.exists_cons (d : Digits) : ∃ c t, d.chars = c :: t ∧ c.isDigit := by
  obtain ⟨c, t, cons⟩ := List.exists_cons_of_ne_nil d.nonempty
  exact ⟨c, t, cons, d.digit c (by simp [cons])⟩

namespace Numeral

variable {n n' : Numeral} {rest more : List Char}

theorem isNumeric_of_mem {c : Char} (member : c ∈ n.text) : isNumeric c := by
  simp only [text, tail, List.mem_append] at member
  rcases member with whole | tail
  · simp [isNumeric, n.whole.digit c whole]
  · cases fraction : n.fraction with
    | none => simp [fraction] at tail
    | some f =>
      simp only [fraction, Option.elim, List.mem_cons] at tail
      rcases tail with rfl | digit
      · rfl
      · simp [isNumeric, f.digit c digit]

theorem ne_opening (n : Numeral) (a b : List Char) : n.text ++ a ≠ '(' :: b := by
  obtain ⟨c, t, cons, digit⟩ := n.whole.exists_cons
  rw [text, cons]
  rintro ⟨⟩
  cases digit

/-- Between these texts, no other numeral contains the numeral. -/
def Maximal (n : Numeral) (before after : List Char) : Prop :=
  ∀ (before' : List Char) (n' : Numeral) (after' : List Char),
    before' ++ (n'.text ++ after') = before ++ (n.text ++ after) → before' <+: before → after' <:+ after →
    before' = before ∧ n' = n

structure Ends (n : Numeral) (rest : List Char) : Prop where
  digits : Halts Char.isDigit rest
  point : n.fraction = none → ∀ t, rest = '.' :: t → Halts Char.isDigit t

theorem Ends.whole (ends : n.Ends rest) : Halts Char.isDigit (n.tail ++ rest) := by
  cases fraction : n.fraction with
  | none => simpa [tail, fraction] using ends.digits
  | some f => simp [tail, fraction, Halts]

theorem ends_of_halts (halts : Halts isNumeric rest) : n.Ends rest := by
  constructor
  · intro c head
    exact (Bool.or_eq_false_iff.mp (halts c head)).1
  · rintro - t rfl
    simp [Halts, isNumeric] at halts

/-- A numeral is the longest at the beginning of a text, or the text ends within it. -/
theorem unique (ends : n.Ends rest) (halts : Halts isNumeric more)
    (begins : n'.text ++ more <+: n.text ++ rest) : n' = n ∨ FallsShort n'.text more n.text := by
  simp only [text, List.append_assoc] at begins ⊢
  have ends' : n'.Ends more := ends_of_halts halts
  rcases run_unique n.whole.digit ends.whole n'.whole.digit ends'.whole begins with whole | short
  · rw [whole, List.prefix_append_right_inj] at begins
    have same := Digits.ext whole
    rw [whole]
    cases fraction : n.fraction with
    | none =>
      cases fraction' : n'.fraction with
      | none => exact .inl (Numeral.ext same (fraction'.trans fraction.symm))
      | some f' =>
        obtain ⟨c, t, cons, digit⟩ := f'.exists_cons
        simp only [tail, fraction, fraction', Option.elim, List.nil_append, List.cons_append, cons] at begins
        obtain ⟨u, rfl⟩ := begins
        simp [ends.point fraction _ rfl c rfl] at digit
    | some f =>
      cases fraction' : n'.fraction with
      | none =>
        cases more with
        | nil =>
          have short : FallsShort n'.tail [] n.tail :=
            ⟨rfl, '.' :: f.chars, by simp, by simp [tail, fraction, fraction']⟩
          exact .inr (short.right _)
        | cons c more =>
          simp only [tail, fraction, fraction', Option.elim, List.nil_append, List.cons_append] at begins
          obtain rfl := (List.cons_prefix_cons.mp begins).1
          simp [Halts, isNumeric] at halts
      | some f' =>
        simp only [tail, fraction, fraction', Option.elim, List.cons_append] at begins ⊢
        obtain ⟨-, begins⟩ := List.cons_prefix_cons.mp begins
        rcases run_unique f.digit ends.digits f'.digit ends'.digits begins with same' | short
        · rw [Digits.ext same'] at fraction'
          exact .inl (Numeral.ext same (fraction'.trans fraction.symm))
        · exact .inr ((short.right ['.']).right _)
  · exact .inr short.left

theorem only (ends : n.Ends rest) (halts : Halts isNumeric more)
    (same : n.text ++ rest = n'.text ++ more) : n' = n ∧ more = rest := by
  have begins : n'.text ++ more <+: n.text ++ rest := ⟨[], by simp [same]⟩
  rcases unique ends halts begins with rfl | short
  · exact ⟨rfl, (List.append_cancel_left same).symm⟩
  · exact (short.ne same).elim

end Numeral

end Packrat.Calculator
