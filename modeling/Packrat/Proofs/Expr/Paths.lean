import Mathlib.Data.List.Basic
import Packrat.Expr

/-! Places inside an expression, each a list of indices of parts. In the order of these lists come the
expressions there when they are listed parents first and from left to right. -/
namespace Packrat.Expr

def parts : Expr → List Expr
  | seq parts => parts
  | choice alternatives => alternatives
  | repeated body _ _ | ahead body | notAhead body => [body]
  | literal _ | charClass _ | ref _ | endOfInput => []

def at? (e : Expr) : List Nat → Option Expr
  | [] => some e
  | i :: path => e.parts[i]?.bind fun part => part.at? path

variable {e e' part : Expr} {path : List Nat}

theorem subexprsOf_eq (es : List Expr) : subexprsOf es = es.flatMap subexprs := by
  induction es with
  | nil => rfl
  | cons e es ih => rw [subexprsOf, ih, List.flatMap_cons]

theorem subexprs_eq (e : Expr) : e.subexprs = e :: e.parts.flatMap subexprs := by
  cases e <;> simp [subexprs, parts, subexprsOf_eq]

theorem mem_subexprs : e' ∈ e.subexprs ↔ e' = e ∨ ∃ part ∈ e.parts, e' ∈ part.subexprs := by
  rw [subexprs_eq, List.mem_cons, List.mem_flatMap]

theorem self_mem_subexprs (e : Expr) : e ∈ e.subexprs := mem_subexprs.mpr (.inl rfl)

theorem mem_subexprs_of_mem_parts (member : part ∈ e.parts) (sub : e' ∈ part.subexprs) :
    e' ∈ e.subexprs :=
  mem_subexprs.mpr (.inr ⟨part, member, sub⟩)

theorem refs_subset_of_mem_parts (member : part ∈ e.parts) : part.refs ⊆ e.refs := by
  intro name used
  obtain ⟨sub, within, named⟩ := List.mem_filterMap.mp used
  exact List.mem_filterMap.mpr ⟨sub, mem_subexprs_of_mem_parts member within, named⟩

theorem sizeOf_lt_of_mem_parts (member : part ∈ e.parts) : sizeOf part < sizeOf e := by
  cases e with
  | seq parts | choice parts =>
    have smaller : sizeOf part < sizeOf parts := List.sizeOf_lt_of_mem member
    simp
    omega
  | repeated body =>
    obtain rfl := List.mem_singleton.mp member
    simp
    omega
  | ahead body | notAhead body =>
    obtain rfl := List.mem_singleton.mp member
    simp
  | literal | charClass | ref | endOfInput => cases member

/-- Induction over expressions from their direct parts. -/
theorem parts_induction {motive : Expr → Prop}
    (step : ∀ e, (∀ part ∈ e.parts, motive part) → motive e) (e : Expr) : motive e :=
  step e fun part member =>
    have : sizeOf part < sizeOf e := sizeOf_lt_of_mem_parts member
    parts_induction step part
termination_by sizeOf e

theorem mem_subexprs_of_at? (there : e.at? path = some e') : e' ∈ e.subexprs := by
  induction path generalizing e with
  | nil =>
    obtain rfl : e = e' := Option.some.inj there
    exact self_mem_subexprs e
  | cons i path ih =>
    obtain ⟨part, here, there⟩ := Option.bind_eq_some_iff.mp there
    exact mem_subexprs_of_mem_parts (List.mem_of_getElem? here) (ih there)

/-- The expressions in an expression are those at its places. -/
theorem mem_subexprs_iff : e' ∈ e.subexprs ↔ ∃ path, e.at? path = some e' := by
  refine ⟨?_, fun ⟨path, there⟩ => mem_subexprs_of_at? there⟩
  induction e using parts_induction with
  | step e ih =>
    intro sub
    rcases mem_subexprs.mp sub with rfl | ⟨part, member, sub⟩
    · exact ⟨[], rfl⟩
    · obtain ⟨i, here⟩ := List.getElem?_of_mem member
      obtain ⟨path, there⟩ := ih part member sub
      exact ⟨i :: path, by simpa [at?, here] using there⟩

/-- The first hit of a search through the expressions in an expression is at the first place with a hit. -/
theorem exists_first_of_filterMap {α : Type} {f : Expr → Option α} {hit : α}
    (found : (e.subexprs.filterMap f).head? = some hit) :
    ∃ path e', e.at? path = some e' ∧ f e' = some hit ∧
      ∀ earlier < path, ∀ other, e.at? earlier = some other → f other = none := by
  induction e using parts_induction with
  | step e ih =>
    rw [subexprs_eq, List.filterMap_cons] at found
    cases here : f e with
    | some own =>
      simp only [here, List.head?_cons, Option.some.injEq] at found
      exact ⟨[], e, rfl, found ▸ here, fun earlier before => (List.not_lt_nil _ before).elim⟩
    | none =>
      simp only [here, List.filterMap_flatMap, List.head?_flatMap] at found
      obtain ⟨before, part, after, cut, found, clean⟩ := List.findSome?_eq_some_iff.mp found
      obtain ⟨path, e', there, hits, first⟩ := ih part (by simp [cut]) found
      have index : e.parts[before.length]? = some part := by simp [cut]
      refine ⟨before.length :: path, e', by simpa [at?, index] using there, hits, ?_⟩
      rintro (_ | ⟨i, earlier⟩) precedes other reached
      · exact Option.some.inj reached ▸ here
      · obtain ⟨sibling, at_i, reached⟩ := Option.bind_eq_some_iff.mp reached
        rcases List.cons_lt_cons_iff.mp precedes with smaller | ⟨rfl, deeper⟩
        · have member : sibling ∈ before := by
            rw [cut, List.getElem?_append_left smaller] at at_i
            exact List.mem_of_getElem? at_i
          have none_there := List.filterMap_eq_nil_iff.mp (List.head?_eq_none_iff.mp (clean _ member))
          exact none_there other (mem_subexprs_of_at? reached)
        · obtain rfl : part = sibling := Option.some.inj (index.symm.trans at_i)
          exact first earlier deeper other reached

end Packrat.Expr
