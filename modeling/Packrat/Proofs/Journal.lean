import Mathlib.Data.List.Infix
import Mathlib.Data.List.Nodup
import Packrat.Grammar
import Packrat.Session

/-! What can be read off a journal: the invocations of rules that are under way at each moment of an evaluation,
the brackets that its records form, and how often rules are invoked, evaluated and folded at an offset. A moment
is an end piece of the journal: the newest record then and those before it. -/
namespace Packrat

def Record.closes? : Record → Option (String × Nat)
  | matched rule start _ | failed rule start => some (rule, start.offset)
  | _ => none

def Record.isParse : Record → Bool
  | parseOpened .. | parseRejected .. | parseInconsistent .. | parseFailed .. | parseLeftOver ..
  | parseMatched .. => true
  | _ => false

namespace Journal

/-- The invocations whose bodies are being evaluated, by rule and offset, the innermost first. -/
def opened : Journal → List (String × Nat)
  | [] => []
  | .attempted rule start :: earlier => (rule, start.offset) :: opened earlier
  | .matched .. :: earlier | .failed .. :: earlier => (opened earlier).tail
  | _ :: earlier => opened earlier

/-- The invocations that have not returned when the newest record is written. The one that writes it is
among them, before its body begins and after it ends too. -/
def active : Journal → List (String × Nat)
  | .recalled rule start _ :: earlier | .folded rule start _ _ :: earlier
  | .matchNoted rule start _ :: earlier | .failureNoted rule start :: earlier =>
    (rule, start.offset) :: opened earlier
  | .matched .. :: earlier | .failed .. :: earlier => opened earlier
  | now => opened now

/-- At every moment the active invocations are such, and what ends is the innermost open one. -/
structure Orderly (fit : List (String × Nat) → Prop) (j : Journal) : Prop where
  fits : ∀ now, now <:+ j → fit (active now)
  nested : ∀ r earlier, r :: earlier <:+ j → ∀ x, r.closes? = some x → (opened earlier).head? = some x

namespace Orderly

variable {fit : List (String × Nat) → Prop} {j : Journal}

theorem nil (fits : fit []) : Orderly fit [] where
  fits now moment := by simpa [List.suffix_nil.mp moment, active, opened] using fits
  nested r earlier moment := by simp at moment

theorem record {r : Record} (orderly : j.Orderly fit) (fits : fit (active (r :: j)))
    (nested : ∀ x, r.closes? = some x → j.opened.head? = some x) : Orderly fit (r :: j) where
  fits now moment := by
    rcases List.suffix_cons_iff.mp moment with rfl | moment
    · exact fits
    · exact orderly.fits now moment
  nested r' earlier moment := by
    rcases List.suffix_cons_iff.mp moment with same | moment
    · cases same
      exact nested
    · exact orderly.nested r' earlier moment

theorem imp {fit' : List (String × Nat) → Prop} (orderly : j.Orderly fit)
    (weaker : ∀ active, fit active → fit' active) : j.Orderly fit' where
  fits now moment := weaker _ (orderly.fits now moment)
  nested := orderly.nested

/-- The end of the innermost body. -/
theorem close {x : String × Nat} {outer : List (String × Nat)} (orderly : j.Orderly fit)
    (innermost : j.opened = x :: outer) (fits : fit (x :: outer)) (r : Record)
    (closes : r.closes? = some x) : Orderly fit (r :: j) ∧ opened (r :: j) = outer := by
  cases r <;> simp only [Record.closes?, reduceCtorEq] at closes
  all_goals
    refine ⟨orderly.record (by simpa [active, innermost] using fits) fun x' closes' => ?_,
      by simp [opened, innermost]⟩
    rw [innermost, List.head?_cons, ← closes', ← closes]
    rfl

end Orderly

end Journal

namespace Record

def isDetail (r : Record) : Bool := r.level? == some .detail

def isVisible (r : Record) : Bool := r.level?.isSome

end Record

def Grammar.noted {V : Type} (g : Grammar V) : Record → List Record
  | .matched rule start stop =>
    if (g.find? rule).any fun r => r.trace.notesMatches
    then [.matched rule start stop, .matchNoted rule start stop] else [.matched rule start stop]
  | .failed rule start =>
    if (g.find? rule).any fun r => r.trace.notesFailures
    then [.failed rule start, .failureNoted rule start] else [.failed rule start]
  | r => [r]

namespace Journal

def details (log : List Record) : List Record := log.filter Record.isDetail

def visible (log : List Record) : List Record := log.filter Record.isVisible

/-- Brackets, each closed for the rule and the place for which it was opened. The outcome of a rule that
is recalled stands for itself. -/
inductive Bracketed : List Record → Prop where
  | nil : Bracketed []
  | append {first others : List Record} :
      Bracketed first → Bracketed others → Bracketed (first ++ others)
  | recalled {rule : String} {start : Position} {hit : Bool} : Bracketed [.recalled rule start hit]
  | matched {rule : String} {start stop : Position} {inner : List Record} :
      Bracketed inner → Bracketed (.attempted rule start :: (inner ++ [.matched rule start stop]))
  | failed {rule : String} {start : Position} {inner : List Record} :
      Bracketed inner → Bracketed (.attempted rule start :: (inner ++ [.failed rule start]))

def Begins (log : List Record) : Prop := ∃ rest, Bracketed (log ++ rest)

variable {first others inner log : List Record} {rule : String} {start stop : Position}

theorem details_append (first others : List Record) :
    details (first ++ others) = details first ++ details others := List.filter_append ..

theorem visible_append (first others : List Record) :
    visible (first ++ others) = visible first ++ visible others := List.filter_append ..

theorem Bracketed.begins_append (complete : Bracketed first) (begins : Begins others) :
    Begins (first ++ others) := by
  obtain ⟨rest, whole⟩ := begins
  exact ⟨rest, by simpa using complete.append whole⟩

/-- A bracket that is open can be closed. -/
theorem Begins.attempted (begins : Begins inner) (rule : String) (start : Position) :
    Begins (.attempted rule start :: inner) := by
  obtain ⟨rest, whole⟩ := begins
  have closed : Bracketed (.attempted rule start :: ((inner ++ rest) ++ [.failed rule start])) :=
    .failed whole
  exact ⟨rest ++ [.failed rule start], by simpa using closed⟩

end Journal

namespace Record

def attempt? : Record → Option (String × Nat)
  | attempted rule start => some (rule, start.offset)
  | _ => none

def reuse? : Record → Option (String × Nat)
  | recalled rule start _ => some (rule, start.offset)
  | _ => none

def fold? : Record → Option (String × Nat)
  | folded rule start _ _ => some (rule, start.offset)
  | _ => none

/-- Whether the outcome was known, if the record tells that this rule is invoked at this offset. -/
def invokes? (x : String × Nat) (r : Record) : Option Bool :=
  if r.attempt? = some x then some false else if r.reuse? = some x then some true else none

end Record

namespace Journal

variable {j j' : Journal} {fit : List (String × Nat) → Prop}

def attempts (j : Journal) : List (String × Nat) := j.filterMap Record.attempt?

def closings (j : Journal) : List (String × Nat) := j.filterMap Record.closes?

def folds (j : Journal) : List (String × Nat) := j.filterMap Record.fold?

/-- The invocations of the rule at the offset: whether each was answered with a kept outcome. -/
def invocations (x : String × Nat) (j : Journal) : List Bool := j.filterMap (Record.invokes? x)

theorem Orderly.tail {r : Record} (orderly : Orderly fit (r :: j)) : j.Orderly fit where
  fits now moment := orderly.fits now (moment.trans (List.suffix_cons r j))
  nested r' earlier moment := orderly.nested r' earlier (moment.trans (List.suffix_cons r j))

/-- The bodies that were begun are those that have ended and those under way. -/
theorem Orderly.attempts_perm (orderly : j.Orderly fit) : j.attempts.Perm (j.closings ++ j.opened) := by
  induction j with
  | nil => exact .nil
  | cons r earlier ih =>
    have before := ih orderly.tail
    have innermost := orderly.nested r earlier (List.suffix_refl _)
    cases r with
    | attempted => exact (before.cons _).trans List.perm_middle.symm
    | matched rule start | failed rule start =>
      obtain ⟨outer, innermost'⟩ := List.head?_eq_some_iff.mp (innermost _ rfl)
      rw [innermost'] at before
      change (attempts earlier).Perm ((rule, start.offset) :: (closings earlier ++ (opened earlier).tail))
      rw [innermost', List.tail_cons]
      exact before.trans List.perm_middle
    | _ => exact before

theorem mem_attempts {x : String × Nat} : x ∈ j.attempts ↔ ∃ r ∈ j, r.attempt? = some x :=
  List.mem_filterMap

/-- Every body that was begun was at the top of the active invocations then. -/
theorem Orderly.fits_attempt {x : String × Nat} (orderly : j.Orderly fit) (begun : x ∈ j.attempts) :
    ∃ under, fit (x :: under) := by
  obtain ⟨r, member, begins⟩ := mem_attempts.mp begun
  obtain ⟨later, earlier, rfl⟩ := List.append_of_mem member
  have fits := orderly.fits (r :: earlier) (List.suffix_append ..)
  cases r <;> cases begins
  exact ⟨_, fits⟩

/-- Where nothing is under way, a journal can go on. -/
theorem opened_append (idle : j'.opened = []) : (j ++ j').opened = j.opened := by
  induction j with
  | nil => exact idle
  | cons r earlier ih => cases r <;> simp [opened, ih]

theorem active_cons_append {r : Record} (idle : j'.opened = []) :
    active (r :: (j ++ j')) = active (r :: j) := by
  cases r <;> simp [active, opened, opened_append idle]

theorem Orderly.append (orderly : j.Orderly fit) (orderly' : j'.Orderly fit) (idle : j'.opened = []) :
    Orderly fit (j ++ j') := by
  induction j with
  | nil => exact orderly'
  | cons r earlier ih =>
    refine (ih orderly.tail).record ?_ ?_
    · rw [active_cons_append idle]
      exact orderly.fits _ (List.suffix_refl _)
    · rw [opened_append idle]
      exact orderly.nested r earlier (List.suffix_refl _)

/-- No evaluation of a rule of which outcomes are kept has begun at an offset after one has ended there,
or after its outcome was recalled. -/
def Frugal (kept : String → Prop) (j : Journal) : Prop :=
  j.Pairwise fun later earlier => ∀ x, later.attempt? = some x → kept x.1 →
    earlier.closes? ≠ some x ∧ earlier.reuse? ≠ some x

section Frugal

variable {kept : String → Prop} {x : String × Nat}

/-- No rule is under way twice at an offset, so an evaluation that begins is the first of its rule
there. -/
theorem Frugal.first {r : Record} (frugal : Frugal kept (r :: j))
    (orderly : Orderly List.Nodup (r :: j)) (begins : r.attempt? = some x) (known : kept x.1) :
    x ∉ j.attempts ∧ j.invocations x = [] := by
  have fresh := fun earlier member => (List.pairwise_cons.mp frugal).1 earlier member x begins known
  have apart : x ∉ j.attempts := by
    rw [orderly.tail.attempts_perm.mem_iff, List.mem_append, not_or]
    constructor
    · intro ended
      obtain ⟨earlier, member, closes⟩ := List.mem_filterMap.mp ended
      exact (fresh earlier member).1 closes
    · have distinct := orderly.fits _ (List.suffix_refl _)
      cases r <;> cases begins
      exact (List.nodup_cons.mp distinct).1
  refine ⟨apart, List.filterMap_eq_nil_iff.mpr fun earlier member => ?_⟩
  have unbegun : earlier.attempt? ≠ some x := fun begins' =>
    apart (mem_attempts.mpr ⟨earlier, member, begins'⟩)
  simp [Record.invokes?, unbegun, (fresh earlier member).2]

theorem Frugal.count_attempts_le (frugal : Frugal kept j) (orderly : Orderly List.Nodup j)
    (known : kept x.1) : j.attempts.count x ≤ 1 := by
  induction j with
  | nil => simp [attempts]
  | cons r earlier ih =>
    have before := ih (List.pairwise_cons.mp frugal).2 orderly.tail
    cases begins : r.attempt? with
    | none => simpa [attempts, begins] using before
    | some y =>
      by_cases same : y = x
      · subst same
        have first := (frugal.first orderly begins known).1
        rw [attempts, List.filterMap_cons_some begins, List.count_cons_self]
        exact (congrArg (· + 1) (List.count_eq_zero.mpr first)).le
      · rwa [attempts, List.filterMap_cons_some begins, List.count_cons_of_ne same]

theorem Frugal.nodup_attempts (frugal : Frugal kept j) (orderly : Orderly List.Nodup j)
    (known : ∀ x ∈ j.attempts, kept x.1) : j.attempts.Nodup := by
  refine List.nodup_iff_count_le_one.mpr fun x => ?_
  by_cases begun : x ∈ j.attempts
  · exact frugal.count_attempts_le orderly (known x begun)
  · simp [List.count_eq_zero.mpr begun]

/-- Every invocation but the first is answered with the kept outcome. -/
theorem Frugal.recalled (frugal : Frugal kept j) (orderly : Orderly List.Nodup j) (known : kept x.1) :
    ∀ hit ∈ (j.invocations x).dropLast, hit = true := by
  induction j with
  | nil => simp [invocations]
  | cons r earlier ih =>
    have before := ih (List.pairwise_cons.mp frugal).2 orderly.tail
    by_cases begins : r.attempt? = some x
    · have first := (frugal.first orderly begins known).2
      simp only [invocations] at first
      simp [invocations, Record.invokes?, begins, first]
    · by_cases recalls : r.reuse? = some x
      · have answered : invocations x (r :: earlier) = true :: invocations x earlier := by
          simp [invocations, Record.invokes?, begins, recalls]
        intro hit member
        rw [answered] at member
        cases others : invocations x earlier with
        | nil => simp [others] at member
        | cons last others' =>
          rw [others, List.dropLast_cons_cons] at member
          rcases List.mem_cons.mp member with rfl | member
          · rfl
          · exact before hit (others ▸ member)
      · simpa [invocations, Record.invokes?, begins, recalls] using before

end Frugal

end Journal

end Packrat
