import Mathlib.Data.List.Infix
import Packrat.Text.Lowercase

/-! The lower case of a text as a whole against that of its characters one by one. There are two exceptions
to one character for one that does not depend on the others: `İ` is lowered to two, and a capital sigma that
ends a word comes out otherwise than alone. Of two texts with the same exceptions, one is the beginning of
the other either both ways or neither way. -/
namespace Packrat.Text

variable {a b before before' after after' : List Char} {c d : Char}

/-- A capital sigma that ends a word. What comes before is given from its last character back. -/
def isFinalSigma (before : List Char) (c : Char) (after : List Char) : Bool :=
  c == 'Σ' && Lowercase.reachesCased before && !Lowercase.reachesCased after

def lowerAt (before : List Char) (c : Char) (after : List Char) : List Char :=
  if isFinalSigma before c after then ['ς'] else lowerChar c

def exception? (before : List Char) (c : Char) (after : List Char) : Option Char :=
  if c == 'İ' || isFinalSigma before c after then some c else none

/-- The exceptions of a text that stands after `before`, place by place. -/
def exceptionsAfter (before : List Char) : List Char → List (Option Char)
  | [] => []
  | c :: text => exception? before c text :: exceptionsAfter (c :: before) text

def exceptions (text : List Char) : List (Option Char) := exceptionsAfter [] text

/-- Where both texts have a character, both have the same exception, or neither has one. -/
def SameExceptions (a b : List Char) : Prop := ∀ p ∈ (exceptions a).zip (exceptions b), p.1 = p.2

instance (a b : List Char) : Decidable (SameExceptions a b) :=
  inferInstanceAs (Decidable (∀ p ∈ (exceptions a).zip (exceptions b), p.1 = p.2))

section Character

theorem length_lowerChar (c : Char) : (lowerChar c).length = if c = 'İ' then 2 else 1 := by
  unfold lowerChar
  split <;> rfl

theorem eq_sigma_of_isFinalSigma (final : isFinalSigma before c after) : c = 'Σ' := by
  simp only [isFinalSigma, Bool.and_eq_true, beq_iff_eq] at final
  exact final.1.1

theorem lowerChar_of_isFinalSigma (final : isFinalSigma before c after) : lowerChar c = ['σ'] := by
  rw [eq_sigma_of_isFinalSigma final]
  decide

theorem lowerAt_of_isFinalSigma (final : isFinalSigma before c after) :
    lowerAt before c after = ['ς'] := if_pos final

theorem lowerAt_of_not_isFinalSigma (other : isFinalSigma before c after = false) :
    lowerAt before c after = lowerChar c := by simp [lowerAt, other]

theorem length_lowerAt : (lowerAt before c after).length = (lowerChar c).length := by
  cases final : isFinalSigma before c after with
  | false => rw [lowerAt_of_not_isFinalSigma final]
  | true => rw [lowerAt_of_isFinalSigma final, lowerChar_of_isFinalSigma final, List.length_singleton,
      List.length_singleton]

@[simp] theorem lowerAfter_nil : lowerAfter before [] = [] := rfl

theorem lowerAfter_cons : lowerAfter before (c :: a) = lowerAt before c a ++ lowerAfter (c :: before) a := by
  by_cases capital : c = 'Σ'
  · subst capital
    have alone : lowerChar 'Σ' = ['σ'] := by decide
    rw [lowerAfter, if_pos rfl, lowerAt, isFinalSigma, Lowercase.sigma, alone]
    simp only [beq_self_eq_true, Bool.true_and, apply_ite (fun c => [c])]
  · rw [lowerAfter, if_neg capital, lowerAt, isFinalSigma, beq_eq_false_iff_ne.mpr capital]
    rfl

/-- Each exception is of one character only. -/
theorem exception?_eq_iff : exception? before c after = exception? before' d after' ↔
    (c = 'İ' ↔ d = 'İ') ∧ isFinalSigma before c after = isFinalSigma before' d after' := by
  unfold exception?
  cases final : isFinalSigma before c after <;> cases final' : isFinalSigma before' d after'
  · by_cases dotted : c = 'İ' <;> by_cases dotted' : d = 'İ' <;> simp [dotted, dotted']
  · have sigma := eq_sigma_of_isFinalSigma final'
    by_cases dotted : c = 'İ' <;> simp [dotted, sigma]
  · have sigma := eq_sigma_of_isFinalSigma final
    by_cases dotted : d = 'İ' <;> simp [dotted, sigma]
  · simp [eq_sigma_of_isFinalSigma final, eq_sigma_of_isFinalSigma final']

theorem length_eq_of_exception?_eq (same : exception? before c after = exception? before' d after') :
    (lowerAt before c after).length = (lowerAt before' d after').length := by
  simp only [length_lowerAt, length_lowerChar, (exception?_eq_iff.mp same).1]

theorem lowerAt_eq_iff (same : exception? before c after = exception? before' d after') :
    lowerAt before c after = lowerAt before' d after' ↔ lowerChar c = lowerChar d := by
  obtain ⟨-, finals⟩ := exception?_eq_iff.mp same
  cases final : isFinalSigma before c after with
  | false =>
    rw [lowerAt_of_not_isFinalSigma final, lowerAt_of_not_isFinalSigma (finals ▸ final)]
  | true =>
    have final' : isFinalSigma before' d after' := finals ▸ final
    rw [lowerAt_of_isFinalSigma final, lowerAt_of_isFinalSigma final', lowerChar_of_isFinalSigma final,
      lowerChar_of_isFinalSigma final']
    exact iff_of_true rfl rfl

theorem exception?_eq_of_eq (alone : lowerChar c = lowerChar d)
    (placed : lowerAt before c after = lowerAt before' d after') :
    exception? before c after = exception? before' d after' := by
  have lengths := congrArg List.length alone
  rw [length_lowerChar, length_lowerChar] at lengths
  have dotted : c = 'İ' ↔ d = 'İ' := by grind
  refine exception?_eq_iff.mpr ⟨dotted, ?_⟩
  cases final : isFinalSigma before c after <;> cases final' : isFinalSigma before' d after'
  · rfl
  · rw [lowerAt_of_not_isFinalSigma final, lowerAt_of_isFinalSigma final', alone,
      lowerChar_of_isFinalSigma final'] at placed
    cases placed
  · rw [lowerAt_of_isFinalSigma final, lowerAt_of_not_isFinalSigma final', ← alone,
      lowerChar_of_isFinalSigma final] at placed
    cases placed
  · rfl

theorem eq_none_of_mem_exceptionsAfter {e : Option Char} (plain : ∀ c ∈ a, c ≠ 'İ' ∧ c ≠ 'Σ')
    (member : e ∈ exceptionsAfter before a) : e = none := by
  induction a generalizing before with
  | nil => cases member
  | cons c a ih =>
    obtain ⟨⟨noDot, noSigma⟩, plain⟩ := List.forall_mem_cons.mp plain
    rcases List.mem_cons.mp member with rfl | member
    · simp [exception?, isFinalSigma, noDot, noSigma]
    · exact ih plain member

theorem sameExceptions_of_plain (plain : ∀ c ∈ a ++ b, c ≠ 'İ' ∧ c ≠ 'Σ') : SameExceptions a b := by
  rintro ⟨e, e'⟩ member
  obtain ⟨left, right⟩ := List.of_mem_zip member
  obtain ⟨plain, plain'⟩ := List.forall_mem_append.mp plain
  exact (eq_none_of_mem_exceptionsAfter plain left).trans (eq_none_of_mem_exceptionsAfter plain' right).symm

end Character

section Prefix

theorem append_prefix_append_iff {x y s t : List Char} (length : x.length = y.length) :
    x ++ s <+: y ++ t ↔ x = y ∧ s <+: t := by
  constructor
  · rintro ⟨u, spelled⟩
    rw [List.append_assoc] at spelled
    obtain ⟨rfl, rfl⟩ := List.append_inj spelled length
    exact ⟨rfl, List.prefix_append ..⟩
  · rintro ⟨rfl, within⟩
    exact (List.prefix_append_right_inj x).mpr within

theorem lowerAfter_ne_nil : lowerAfter before (c :: a) ≠ [] := by
  intro nothing
  have length := congrArg List.length nothing
  rw [lowerAfter_cons, List.length_append, length_lowerAt, length_lowerChar, List.length_nil] at length
  split at length <;> omega

theorem lowerAfter_prefix_iff
    (same : ∀ p ∈ (exceptionsAfter before a).zip (exceptionsAfter before' b), p.1 = p.2) :
    lowerAfter before a <+: lowerAfter before' b ↔ a.map lowerChar <+: b.map lowerChar := by
  induction a generalizing b before before' with
  | nil => simp
  | cons c a ih =>
    cases b with
    | nil => simp [lowerAfter_ne_nil]
    | cons d b =>
      simp only [exceptionsAfter, List.zip_cons_cons, List.forall_mem_cons] at same
      obtain ⟨here, later⟩ := same
      rw [lowerAfter_cons, lowerAfter_cons, append_prefix_append_iff (length_eq_of_exception?_eq here),
        lowerAt_eq_iff here, ih later, List.map_cons, List.map_cons, List.cons_prefix_cons]

theorem exceptionsAfter_eq (alone : a.map lowerChar <+: b.map lowerChar)
    (placed : lowerAfter before a <+: lowerAfter before' b) :
    ∀ p ∈ (exceptionsAfter before a).zip (exceptionsAfter before' b), p.1 = p.2 := by
  induction a generalizing b before before' with
  | nil => simp [exceptionsAfter]
  | cons c a ih =>
    cases b with
    | nil => simp [exceptionsAfter]
    | cons d b =>
      rw [List.map_cons, List.map_cons, List.cons_prefix_cons] at alone
      obtain ⟨here, later⟩ := alone
      have length : (lowerAt before c a).length = (lowerAt before' d b).length := by
        rw [length_lowerAt, length_lowerAt, here]
      rw [lowerAfter_cons, lowerAfter_cons, append_prefix_append_iff length] at placed
      simp only [exceptionsAfter, List.zip_cons_cons, List.forall_mem_cons]
      exact ⟨exception?_eq_of_eq here placed.1, ih later placed.2⟩

theorem lowerText_prefix_iff (same : SameExceptions a b) :
    lowerText a <+: lowerText b ↔ a.map lowerChar <+: b.map lowerChar :=
  lowerAfter_prefix_iff same

theorem sameExceptions_of_prefix (alone : a.map lowerChar <+: b.map lowerChar)
    (whole : lowerText a <+: lowerText b) : SameExceptions a b :=
  exceptionsAfter_eq alone whole

end Prefix

end Packrat.Text
