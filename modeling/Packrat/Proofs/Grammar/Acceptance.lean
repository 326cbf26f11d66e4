import Packrat.Proofs.Expr.Paths
import Packrat.Proofs.Grammar.Bodies
import Packrat.Proofs.Grammar.LeftLoops

/-! What a grammar has to be to pass the check, told by the rules that were declared, and which defect is
reported of a grammar that does not pass. -/
namespace Packrat.Grammar

variable {V : Type} {g : Grammar V} {rules : List (Rule V)} {start rule : String} {e : Expr} {d : Defect}

/-- A defect of a single expression in the rule of that name. -/
inductive Flaw (g : Grammar V) (rule : String) : Expr → Defect → Prop where
  | reference {name : String} :
      g.defines name = false → Flaw g rule (.ref name) (.undefinedRule name rule)
  | repetition {body : Expr} {min max : Nat} :
      max = 0 ∨ max < min → Flaw g rule (.repeated body min (some max)) (.invalidRepeat rule min max)
  | range {k : CharClass} {before after : List (Char × Char)} {lo hi : Char} :
      k.ranges = before ++ (lo, hi) :: after → (∀ r ∈ before, r.1 ≤ r.2) → hi < lo →
      Flaw g rule (.charClass k) (.backwardsRange rule lo hi)
  | choice {alternatives : List Expr} :
      g.unreachableAlternative alternatives →
      Flaw g rule (.choice alternatives) (.unreachableAlternative rule)

def Flawless (g : Grammar V) (r : Rule V) : Prop :=
  ∀ path e, r.body.at? path = some e → ∀ d, ¬ g.Flaw r.name e d

/-- The rules, declared in this order, can be used to parse from `start`. -/
structure Acceptable (rules : List (Rule V)) (start : String) : Prop where
  distinct : (rules.map Rule.name).Nodup
  start : start ∈ rules.map Rule.name
  references : ∀ r ∈ rules, ∀ path name, r.body.at? path = some (.ref name) →
    name ∈ rules.map Rule.name
  repetitions : ∀ r ∈ rules, ∀ path body min max,
    r.body.at? path = some (.repeated body min (some max)) → 1 ≤ max ∧ min ≤ max
  ranges : ∀ r ∈ rules, ∀ path k, r.body.at? path = some (.charClass k) → ∀ x ∈ k.ranges, x.1 ≤ x.2
  choices : ∀ r ∈ rules, ∀ path alternatives, r.body.at? path = some (.choice alternatives) →
    (ofRules rules).unreachableAlternative alternatives = false
  acyclic : ∀ name, ¬ Relation.TransGen (ofRules rules).LeftEdge name name

/-- The defect that stands first: a name that is taken when it is declared, no rule to start from, a
defect of an expression, rule by rule and by the places in the rule, and after all these left
recursion. -/
inductive Finds (rules : List (Rule V)) (start : String) : Defect → Prop where
  | duplicate {before after : List (Rule V)} {r : Rule V} :
      rules = before ++ r :: after → (before.map Rule.name).Nodup → r.name ∈ before.map Rule.name →
      Finds rules start (.duplicateRule r.name)
  | missing : (rules.map Rule.name).Nodup → start ∉ rules.map Rule.name →
      Finds rules start (.missingStart start)
  | flaw {before after : List (Rule V)} {r : Rule V} {path : List Nat} {e : Expr} {d : Defect} :
      (rules.map Rule.name).Nodup → start ∈ rules.map Rule.name →
      rules = before ++ r :: after → (∀ earlier ∈ before, (ofRules rules).Flawless earlier) →
      r.body.at? path = some e → (ofRules rules).Flaw r.name e d →
      (∀ earlier < path, ∀ other, r.body.at? earlier = some other →
        ∀ d, ¬ (ofRules rules).Flaw r.name other d) →
      Finds rules start d
  | recursion {path : List String} :
      (rules.map Rule.name).Nodup → start ∈ rules.map Rule.name →
      (∀ r ∈ rules, (ofRules rules).Flawless r) → (ofRules rules).Loop path →
      Finds rules start (.leftRecursion path)

section Duplicates

theorem duplicates_prefix (g : Grammar V) (rules : List (Rule V)) :
    g.duplicates <+: (rules.foldl add g).duplicates := by
  induction rules generalizing g with
  | nil => exact List.prefix_refl _
  | cons r rules ih =>
    have more : g.duplicates <+: (g.add r).duplicates := by
      unfold add
      split
      · exact List.prefix_append ..
      · exact List.prefix_refl _
    exact more.trans (ih (g.add r))

theorem defines_iff {name : String} : g.defines name ↔ name ∈ g.rules.map Rule.name := by
  simp [defines]

/-- Either all names are new when they are declared, or there is a first one that is not. -/
theorem distinct_or_duplicate (g : Grammar V) (clean : g.duplicates = []) (rules : List (Rule V)) :
    ((g.rules ++ rules).map Rule.name).Nodup ∨
    ∃ before r after, rules = before ++ r :: after ∧ ((g.rules ++ before).map Rule.name).Nodup ∧
      r.name ∈ (g.rules ++ before).map Rule.name ∧
      (rules.foldl add g).duplicates.head? = some r.name := by
  induction rules generalizing g with
  | nil => exact .inl (by simpa using g.distinct)
  | cons r rules ih =>
    by_cases taken : g.defines r.name
    · have added : (g.add r).duplicates = [r.name] := by
        unfold add
        rw [dif_pos taken]
        simp [clean]
      obtain ⟨more, duplicates⟩ := duplicates_prefix (g.add r) rules
      refine .inr ⟨[], r, rules, rfl, by simpa using g.distinct, ?_, ?_⟩
      · simpa using defines_iff.mp taken
      · rw [List.foldl_cons, ← duplicates, added]
        rfl
    · have added : (g.add r).rules = g.rules ++ [r] ∧ (g.add r).duplicates = [] := by
        unfold add
        rw [dif_neg taken]
        exact ⟨rfl, clean⟩
      rcases ih (g.add r) added.2 with distinct | ⟨before, r', after, cut, distinct, again, first⟩
      · exact .inl (by simpa [added.1] using distinct)
      · exact .inr ⟨r :: before, r', after, by simp [cut], by simpa [added.1] using distinct,
          by simpa [added.1] using again, first⟩

theorem ofRules_distinct_or_duplicate (rules : List (Rule V)) :
    (rules.map Rule.name).Nodup ∨
    ∃ before r after, rules = before ++ r :: after ∧ (before.map Rule.name).Nodup ∧
      r.name ∈ before.map Rule.name ∧ (ofRules rules).duplicates.head? = some r.name :=
  distinct_or_duplicate empty rfl rules

end Duplicates

section Flaws

theorem defect?_eq_some_iff : g.defect? rule e = some d ↔ g.Flaw rule e d := by
  constructor
  · intro found
    cases e with
    | ref name =>
      simp only [defect?, Option.ite_none_left_eq_some, Option.some.injEq] at found
      obtain ⟨unknown, rfl⟩ := found
      exact .reference (by simpa using unknown)
    | repeated body min max =>
      cases max with
      | none => cases found
      | some max =>
        simp only [defect?, Option.ite_none_right_eq_some, Option.some.injEq] at found
        obtain ⟨invalid, rfl⟩ := found
        exact .repetition invalid
    | charClass k =>
      obtain ⟨⟨lo, hi⟩, range, rfl⟩ := Option.map_eq_some_iff.mp found
      obtain ⟨backwards, before, after, cut, forwards⟩ := List.find?_eq_some_iff_append.mp range
      exact .range cut (by simpa using forwards) (by simpa using backwards)
    | choice alternatives =>
      simp only [defect?, Option.ite_none_right_eq_some, Option.some.injEq] at found
      obtain ⟨unreachable, rfl⟩ := found
      exact .choice unreachable
    | literal | seq | ahead | notAhead | endOfInput => cases found
  · intro flaw
    cases flaw with
    | reference unknown => simp [defect?, unknown]
    | repetition invalid => simp [defect?, invalid]
    | choice unreachable => simp [defect?, unreachable]
    | @range k before after lo hi cut forwards backwards =>
      have found : k.backwardsRange? = some (lo, hi) :=
        List.find?_eq_some_iff_append.mpr ⟨by simpa using backwards, before, after, cut,
          by simpa using forwards⟩
      simp [defect?, found]

theorem defect?_eq_none_iff : g.defect? rule e = none ↔ ∀ d, ¬ g.Flaw rule e d := by
  simp only [← defect?_eq_some_iff, Option.eq_none_iff_forall_ne_some, ne_eq]

theorem flawless_iff {r : Rule V} :
    g.Flawless r ↔ r.body.subexprs.filterMap (g.defect? r.name) = [] := by
  simp only [List.filterMap_eq_nil_iff, Expr.mem_subexprs_iff, defect?_eq_none_iff]
  exact ⟨fun none_there e ⟨path, there⟩ => none_there path e there,
    fun none_there path e there => none_there e ⟨path, there⟩⟩

/-- A rule without a defect, form by form. -/
theorem flawless_iff_of_form {r : Rule V} : g.Flawless r ↔
    (∀ path name, r.body.at? path = some (.ref name) → g.defines name) ∧
    (∀ path body min max, r.body.at? path = some (.repeated body min (some max)) →
      1 ≤ max ∧ min ≤ max) ∧
    (∀ path k, r.body.at? path = some (.charClass k) → ∀ x ∈ k.ranges, x.1 ≤ x.2) ∧
    ∀ path alternatives, r.body.at? path = some (.choice alternatives) →
      g.unreachableAlternative alternatives = false := by
  constructor
  · intro flawless
    refine ⟨fun path name there => ?_, fun path body min max there => ?_, fun path k there => ?_,
      fun path alternatives there => ?_⟩
    · by_contra unknown
      exact flawless path _ there _ (.reference (by simpa using unknown))
    · by_contra invalid
      exact flawless path _ there _ (.repetition (by omega))
    · have forwards := defect?_eq_none_iff.mpr (flawless path _ there)
      simpa [defect?, CharClass.backwardsRange?] using forwards
    · by_contra unreachable
      exact flawless path _ there _ (.choice (by simpa using unreachable))
  · rintro ⟨references, repetitions, ranges, choices⟩ path e there d flaw
    cases flaw with
    | reference unknown => simp [references path _ there] at unknown
    | repetition invalid =>
      have valid := repetitions path _ _ _ there
      omega
    | @range k before after lo hi cut _ backwards =>
      have forwards := ranges path k there (lo, hi) (by simp [cut])
      exact absurd backwards (Char.not_lt.mpr forwards)
    | choice unreachable => simp [choices path _ there] at unreachable

end Flaws

section Check

theorem bodyDefects_eq_nil_iff : g.bodyDefects = [] ↔ ∀ r ∈ g.rules, g.Flawless r := by
  simp only [bodyDefects, List.flatMap_eq_nil_iff, flawless_iff]

/-- The first defect of a single expression is found in the first rule with one, at the first place. -/
theorem exists_flaw_of_bodyDefects (found : g.bodyDefects.head? = some d) :
    ∃ before r after, g.rules = before ++ r :: after ∧ (∀ earlier ∈ before, g.Flawless earlier) ∧
      ∃ path e, r.body.at? path = some e ∧ g.Flaw r.name e d ∧
        ∀ earlier < path, ∀ other, r.body.at? earlier = some other → ∀ d, ¬ g.Flaw r.name other d := by
  rw [bodyDefects, List.head?_flatMap] at found
  obtain ⟨before, r, after, cut, found, clean⟩ := List.findSome?_eq_some_iff.mp found
  obtain ⟨path, e, there, flaw, first⟩ := Expr.exists_first_of_filterMap found
  refine ⟨before, r, after, cut, fun earlier member => ?_, path, e, there,
    defect?_eq_some_iff.mp flaw, fun earlier precedes other reached => ?_⟩
  · exact flawless_iff.mpr (List.head?_eq_none_iff.mp (clean earlier member))
  · exact defect?_eq_none_iff.mp (first earlier precedes other reached)

theorem closed_of_flawless (flawless : ∀ r ∈ g.rules, g.Flawless r) : g.closed := by
  simp only [closed, List.all_eq_true]
  intro r member name used
  obtain ⟨e, sub, named⟩ := List.mem_filterMap.mp used
  obtain ⟨path, there⟩ := Expr.mem_subexprs_iff.mp sub
  cases e <;> simp only [Expr.ref?, reduceCtorEq, Option.some.injEq] at named
  subst named
  by_contra unknown
  exact flawless r member path _ there _ (.reference (by simpa using unknown))

theorem leftRecursions_eq_nil_iff :
    g.leftRecursions = [] ↔ ∀ name, ¬ Relation.TransGen g.LeftEdge name name := by
  refine ⟨acyclic_of_leftRecursions, fun acyclic => List.eq_nil_iff_forall_not_mem.mpr ?_⟩
  intro path found
  obtain ⟨name, cycle⟩ := (loop_of_mem_leftRecursions found).cycle
  exact acyclic name cycle

theorem defects_eq_nil_iff :
    g.defects = [] ↔ (∀ r ∈ g.rules, g.Flawless r) ∧ ∀ name, ¬ Relation.TransGen g.LeftEdge name name := by
  rw [defects, List.append_eq_nil_iff, bodyDefects_eq_nil_iff, and_congr_right_iff]
  intro flawless
  rw [if_pos (closed_of_flawless flawless), List.map_eq_nil_iff, leftRecursions_eq_nil_iff]

/-- The grammars that pass the check are those whose rules are acceptable. -/
theorem check_eq_none_iff_acceptable :
    (ofRules rules).check start = none ↔ Acceptable rules start := by
  rw [check_eq_none_iff, defects_eq_nil_iff]
  constructor
  · rintro ⟨clean, defined, flawless, acyclic⟩
    have distinct : (rules.map Rule.name).Nodup := by
      rcases ofRules_distinct_or_duplicate rules with distinct | ⟨_, _, _, _, _, _, first⟩
      · exact distinct
      · simp [clean] at first
    simp only [defines_iff, flawless_iff_of_form, (ofRules_of_distinct distinct).1] at defined flawless
    exact {
      distinct
      start := defined
      references := fun r member => (flawless r member).1
      repetitions := fun r member => (flawless r member).2.1
      ranges := fun r member => (flawless r member).2.2.1
      choices := fun r member => (flawless r member).2.2.2
      acyclic }
  · intro acceptable
    obtain ⟨kept, none_twice⟩ := ofRules_of_distinct acceptable.distinct
    simp only [defines_iff, flawless_iff_of_form, kept]
    exact ⟨none_twice, acceptable.start, fun r member => ⟨acceptable.references r member,
      acceptable.repetitions r member, acceptable.ranges r member, acceptable.choices r member⟩,
      acceptable.acyclic⟩

/-- A grammar that does not pass is refused for the defect that stands first. -/
theorem finds_of_check (found : (ofRules rules).check start = some d) : Finds rules start d := by
  rcases ofRules_distinct_or_duplicate rules with distinct | ⟨before, r, after, cut, distinct, again, first⟩
  · obtain ⟨kept, none_twice⟩ := ofRules_of_distinct distinct
    unfold check at found
    simp only [none_twice] at found
    split at found
    · rename_i defined
      rw [defines_iff, kept] at defined
      rw [defects, List.head?_append, Option.or_eq_some_iff] at found
      rcases found with found | ⟨clean, found⟩
      · obtain ⟨before, r, after, cut, clean, path, e, there, flaw, first⟩ :=
          exists_flaw_of_bodyDefects found
        exact .flaw distinct defined (kept ▸ cut) clean there flaw first
      · have flawless := bodyDefects_eq_nil_iff.mp (List.head?_eq_none_iff.mp clean)
        rw [if_pos (closed_of_flawless flawless), List.head?_map, Option.map_eq_some_iff] at found
        obtain ⟨path, first, rfl⟩ := found
        rw [kept] at flawless
        exact .recursion distinct defined flawless
          (loop_of_mem_leftRecursions (List.mem_of_head? first))
    · rename_i undefined
      rw [defines_iff, kept] at undefined
      obtain rfl := Option.some.inj found
      exact .missing distinct undefined
  · obtain ⟨more, duplicates⟩ := List.head?_eq_some_iff.mp first
    simp only [check, duplicates, Option.some.injEq] at found
    exact found ▸ .duplicate cut distinct again

end Check

end Packrat.Grammar
