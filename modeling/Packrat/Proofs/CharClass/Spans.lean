import Mathlib.Data.List.Pairwise
import Mathlib.Data.Nat.Basic
import Packrat.CharClass

/-! The spans of a class stand in canonical form and hold the code points that the class lists, whatever ranges and
characters it was put together from. Of lists in this form, inclusion is decided span by span. -/
namespace Packrat

namespace Span

variable {a b current next : Span} {spans spans' rest inner outer left right : List Span}

def Holds (spans : List Span) (n : Nat) : Prop := ∃ a ∈ spans, a.lo ≤ n ∧ n ≤ a.hi

/-- No span is empty, and between one and the next there is at least one code point. -/
structure Canonical (spans : List Span) : Prop where
  proper : ∀ a ∈ spans, a.lo ≤ a.hi
  apart : spans.Pairwise fun a b => a.hi + 1 < b.lo

theorem holds_cons {n : Nat} : Holds (a :: spans) n ↔ (a.lo ≤ n ∧ n ≤ a.hi) ∨ Holds spans n := by
  simp [Holds]

theorem before_iff : a.before b ↔ a.lo < b.lo ∨ a.lo = b.lo ∧ a.hi ≤ b.hi := by
  simp only [before, Bool.or_eq_true, Bool.and_eq_true, decide_eq_true_eq, beq_iff_eq]

theorem before_trans (a b c : Span) : a.before b → b.before c → a.before c := by
  rw [before_iff, before_iff, before_iff]
  omega

theorem before_total (a b : Span) : a.before b || b.before a := by
  rw [Bool.or_eq_true, before_iff, before_iff]
  omega

theorem increasing_mergeSort (spans : List Span) :
    (spans.mergeSort before).Pairwise fun a b => a.lo ≤ b.lo := by
  have ordered : (spans.mergeSort before).Pairwise fun a b => a.before b :=
    List.pairwise_mergeSort before_trans before_total spans
  refine ordered.imp fun {a b} ahead => ?_
  rw [before_iff] at ahead
  omega

section Joining

/-- The span that two are joined to begins where the first of them does. -/
theorem increasing_joined (hi : Nat)
    (increasing : (current :: next :: rest).Pairwise fun a b => a.lo ≤ b.lo) :
    ((⟨current.lo, hi⟩ : Span) :: rest).Pairwise fun a b => a.lo ≤ b.lo := by
  obtain ⟨first, later⟩ := List.pairwise_cons.mp increasing
  exact later.of_cons.cons fun c member => first c (List.mem_cons_of_mem _ member)

variable (increasing : (current :: rest).Pairwise fun a b => a.lo ≤ b.lo)
include increasing

theorem holds_joinFrom (n : Nat) : Holds (joinFrom current rest) n ↔ Holds (current :: rest) n := by
  fun_induction joinFrom current rest with
  | case1 => exact Iff.rfl
  | case2 current next rest touches ih =>
    have le : current.lo ≤ next.lo := List.rel_of_pairwise_cons increasing List.mem_cons_self
    have either : current.lo ≤ n ∧ n ≤ max current.hi next.hi ↔
        (current.lo ≤ n ∧ n ≤ current.hi) ∨ (next.lo ≤ n ∧ n ≤ next.hi) := by omega
    rw [ih (increasing_joined _ increasing), holds_cons, holds_cons, holds_cons, either, or_assoc]
  | case3 current next rest gap ih => rw [holds_cons, ih increasing.of_cons, ← holds_cons]

theorem lo_le_of_mem_joinFrom (member : a ∈ joinFrom current rest) : current.lo ≤ a.lo := by
  fun_induction joinFrom current rest with
  | case1 => exact (List.mem_singleton.mp member) ▸ le_rfl
  | case2 current next rest touches ih => exact ih (increasing_joined _ increasing) member
  | case3 current next rest gap ih =>
    have le : current.lo ≤ next.lo := List.rel_of_pairwise_cons increasing List.mem_cons_self
    rcases List.mem_cons.mp member with rfl | member
    · exact le_rfl
    · exact Nat.le_trans le (ih increasing.of_cons member)

theorem canonical_joinFrom (proper : ∀ a ∈ current :: rest, a.lo ≤ a.hi) :
    Canonical (joinFrom current rest) := by
  fun_induction joinFrom current rest with
  | case1 current => exact ⟨proper, List.pairwise_singleton ..⟩
  | case2 current next rest touches ih =>
    obtain ⟨here, later⟩ := List.forall_mem_cons.mp proper
    obtain ⟨-, later⟩ := List.forall_mem_cons.mp later
    have joined : current.lo ≤ max current.hi next.hi := by omega
    exact ih (increasing_joined _ increasing) (List.forall_mem_cons.mpr ⟨joined, later⟩)
  | case3 current next rest gap ih =>
    obtain ⟨here, later⟩ := List.forall_mem_cons.mp proper
    have canonical := ih increasing.of_cons later
    refine ⟨List.forall_mem_cons.mpr ⟨here, canonical.proper⟩, canonical.apart.cons fun a member => ?_⟩
    have le : next.lo ≤ a.lo := lo_le_of_mem_joinFrom increasing.of_cons member
    omega

end Joining

section Join

variable (increasing : spans.Pairwise fun a b => a.lo ≤ b.lo)
include increasing

theorem holds_join (n : Nat) : Holds (join spans) n ↔ Holds spans n := by
  cases spans with
  | nil => exact Iff.rfl
  | cons first rest => exact holds_joinFrom increasing n

theorem canonical_join (proper : ∀ a ∈ spans, a.lo ≤ a.hi) : Canonical (join spans) := by
  cases spans with
  | nil => exact ⟨proper, .nil⟩
  | cons first rest => exact canonical_joinFrom increasing proper

end Join

theorem Canonical.apart_of_ne (canonical : Canonical spans) (member : a ∈ spans) (member' : b ∈ spans)
    (distinct : a ≠ b) : a.hi + 1 < b.lo ∨ b.hi + 1 < a.lo := by
  have symm : Std.Symm fun a b : Span => a.hi + 1 < b.lo ∨ b.hi + 1 < a.lo := ⟨fun _ _ => Or.symm⟩
  exact (canonical.apart.imp (S := fun a b => a.hi + 1 < b.lo ∨ b.hi + 1 < a.lo) .inl).forall
    member member' distinct

/-- A span cannot leave one span of a canonical list and go on in another. -/
theorem within_iff (proper : ∀ a ∈ inner, a.lo ≤ a.hi) (canonical : Canonical outer) :
    within inner outer ↔ ∀ n, Holds inner n → Holds outer n := by
  simp only [within, List.all_eq_true, List.any_eq_true, Bool.and_eq_true, decide_eq_true_eq]
  constructor
  · rintro inside n ⟨a, member, lo, hi⟩
    obtain ⟨b, member', lo', hi'⟩ := inside a member
    exact ⟨b, member', Nat.le_trans lo' lo, Nat.le_trans hi hi'⟩
  · intro included a member
    obtain ⟨b, member', lo, hi⟩ := included a.lo ⟨a, member, le_rfl, proper a member⟩
    refine ⟨b, member', lo, ?_⟩
    by_contra beyond
    -- the code point after `b` is held too, and by another span
    obtain ⟨b', member'', lo', hi'⟩ := included (b.hi + 1) ⟨a, member, by omega, by omega⟩
    have distinct : b ≠ b' := by
      rintro rfl
      omega
    rcases canonical.apart_of_ne member' member'' distinct with before | before <;> omega

theorem disjoint_iff (proper : ∀ a ∈ left, a.lo ≤ a.hi) (proper' : ∀ b ∈ right, b.lo ≤ b.hi) :
    disjoint left right ↔ ∀ n, Holds left n → ¬ Holds right n := by
  simp only [disjoint, List.all_eq_true, Bool.or_eq_true, decide_eq_true_eq]
  constructor
  · rintro apart n ⟨a, member, lo, hi⟩ ⟨b, member', lo', hi'⟩
    have := apart a member b member'
    omega
  · intro apart a member b member'
    have le := proper a member
    have le' := proper' b member'
    by_contra meets
    exact apart (max a.lo b.lo) ⟨a, member, by omega, by omega⟩ ⟨b, member', by omega, by omega⟩

theorem Canonical.nodup (canonical : Canonical spans) : spans.Nodup := by
  refine canonical.apart.imp_of_mem fun {a b} member _ gap => ?_
  have proper := canonical.proper a member
  rintro rfl
  omega

/-- Two spans of a canonical list that share a code point are the same. -/
theorem Canonical.eq_of_meet (canonical : Canonical spans) (member : a ∈ spans) (member' : b ∈ spans)
    {n : Nat} (here : a.lo ≤ n ∧ n ≤ a.hi) (there : b.lo ≤ n ∧ n ≤ b.hi) : a = b := by
  by_contra distinct
  rcases canonical.apart_of_ne member member' distinct with before | before <;> omega

/-- A span reaches as far as the code points that are held do, so the same ones make the same span. -/
theorem Canonical.mem_of_holds (canonical : Canonical spans) (canonical' : Canonical spans')
    (same : ∀ n, Holds spans n ↔ Holds spans' n) (member : a ∈ spans) : a ∈ spans' := by
  have inside : within spans spans' := (within_iff canonical.proper canonical').mpr fun n => (same n).mp
  have inside' : within spans' spans := (within_iff canonical'.proper canonical).mpr fun n => (same n).mpr
  simp only [within, List.all_eq_true, List.any_eq_true, Bool.and_eq_true, decide_eq_true_eq]
    at inside inside'
  have proper := canonical.proper a member
  obtain ⟨b, member', lo, hi⟩ := inside a member
  obtain ⟨a', back, lo', hi'⟩ := inside' b member'
  obtain rfl : a = a' := canonical.eq_of_meet member back ⟨le_rfl, proper⟩ ⟨by omega, by omega⟩
  have equal : a = b := by
    obtain ⟨_, _⟩ := a
    obtain ⟨_, _⟩ := b
    simp only [mk.injEq]
    exact ⟨le_antisymm lo' lo, le_antisymm hi hi'⟩
  exact equal ▸ member'

theorem Canonical.eq_of_holds (canonical : Canonical spans) (canonical' : Canonical spans')
    (same : ∀ n, Holds spans n ↔ Holds spans' n) : spans = spans' := by
  have members (a : Span) : a ∈ spans ↔ a ∈ spans' :=
    ⟨canonical.mem_of_holds canonical' same, canonical'.mem_of_holds canonical fun n => (same n).symm⟩
  have perm := (List.perm_ext_iff_of_nodup canonical.nodup canonical'.nodup).mpr members
  refine perm.eq_of_pairwise ?_ canonical.apart canonical'.apart
  intro a b member member' before after
  have proper := canonical.proper a member
  have proper' := canonical'.proper b member'
  omega

end Span

namespace CharClass

variable (k : CharClass)

theorem holds_listed (n : Nat) : Span.Holds k.listed n ↔
    (∃ c ∈ k.chars, c.toNat = n) ∨ ∃ r ∈ k.ranges, r.1.toNat ≤ n ∧ n ≤ r.2.toNat := by
  constructor
  · rintro ⟨a, member, lo, hi⟩
    rcases List.mem_append.mp member with member | member
    · obtain ⟨c, mentioned, rfl⟩ := List.mem_map.mp member
      exact .inl ⟨c, mentioned, le_antisymm lo hi⟩
    · obtain ⟨r, forward, rfl⟩ := List.mem_map.mp member
      exact .inr ⟨r, (List.mem_filter.mp forward).1, lo, hi⟩
  · rintro (⟨c, member, rfl⟩ | ⟨r, member, lo, hi⟩)
    · exact ⟨_, List.mem_append_left _ (List.mem_map_of_mem member), le_rfl, le_rfl⟩
    · have forward : r ∈ k.ranges.filter fun r => r.1 ≤ r.2 :=
        List.mem_filter.mpr ⟨member, decide_eq_true (Nat.le_trans lo hi)⟩
      exact ⟨_, List.mem_append_right _ (List.mem_map_of_mem forward), lo, hi⟩

theorem proper_of_mem_listed {a : Span} (member : a ∈ k.listed) : a.lo ≤ a.hi := by
  rcases List.mem_append.mp member with member | member
  · obtain ⟨c, -, rfl⟩ := List.mem_map.mp member
    exact le_rfl
  · obtain ⟨r, kept, rfl⟩ := List.mem_map.mp member
    exact of_decide_eq_true (List.mem_filter.mp kept).2

theorem canonical_spans : Span.Canonical k.spans :=
  Span.canonical_join (Span.increasing_mergeSort k.listed) fun _ member =>
    k.proper_of_mem_listed (List.mem_mergeSort.mp member)

/-- The spans hold what is listed, a backwards range left out of account. -/
theorem holds_spans (n : Nat) : Span.Holds k.spans n ↔
    (∃ c ∈ k.chars, c.toNat = n) ∨ ∃ r ∈ k.ranges, r.1.toNat ≤ n ∧ n ≤ r.2.toNat := by
  rw [spans, Span.holds_join (Span.increasing_mergeSort k.listed), ← holds_listed]
  simp only [Span.Holds, List.mem_mergeSort]

theorem holds_spans_toNat (c : Char) : Span.Holds k.spans c.toNat ↔ k.lists c := by
  simp only [holds_spans, lists, Char.toNat_inj, exists_eq_right, Bool.or_eq_true,
    List.contains_iff_mem, List.any_eq_true, Bool.and_eq_true, decide_eq_true_eq]
  exact Iff.rfl

/-- The code point is one of the characters that the class lists, or lies in one of its ranges that run
forwards. -/
def ListsPoint (k : CharClass) (n : Nat) : Prop :=
  (∃ c ∈ k.chars, c.toNat = n) ∨ ∃ r ∈ k.ranges, r.1 ≤ r.2 ∧ r.1.toNat ≤ n ∧ n ≤ r.2.toNat

theorem holds_spans_iff_listsPoint (n : Nat) : Span.Holds k.spans n ↔ k.ListsPoint n := by
  rw [holds_spans, ListsPoint]
  refine or_congr_right (exists_congr fun r => and_congr_right fun _ => ?_)
  exact ⟨fun ⟨lo, hi⟩ => ⟨Nat.le_trans lo hi, lo, hi⟩, And.right⟩

/-- The spans stand in canonical form and hold what is listed, and no other class has them but those that
list the same code points. -/
theorem spans_canonical :
    Span.Canonical k.spans ∧ (∀ n, Span.Holds k.spans n ↔ k.ListsPoint n) ∧
      ∀ other : CharClass, k.spans = other.spans ↔ ∀ n, k.ListsPoint n ↔ other.ListsPoint n := by
  refine ⟨k.canonical_spans, k.holds_spans_iff_listsPoint, fun other => ⟨?_, fun same => ?_⟩⟩
  · intro equal n
    rw [← holds_spans_iff_listsPoint, ← holds_spans_iff_listsPoint, equal]
  · refine k.canonical_spans.eq_of_holds other.canonical_spans fun n => ?_
    rw [holds_spans_iff_listsPoint, holds_spans_iff_listsPoint, same]

/-- Ranges that overlap, touch or run backwards, and characters that are listed twice. -/
example : (((((empty.addRange 'm' 'z').addChars "qll").addRange 'z' 'a').addRange 'd' 'k').addRange
    'a' 'e').spans = (empty.addRange 'a' 'z').spans := by cbv

end CharClass

end Packrat
