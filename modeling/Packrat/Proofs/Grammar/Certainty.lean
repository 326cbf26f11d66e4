import Packrat.Grammar.Check
import Packrat.Proofs.Expr.Paths
import Packrat.Proofs.Grammar.LeftEdges

/-! Expressions that are certain to match, told without a search. The search, which answers no for a rule
that it is already in, loses none of them: it finds what is found by entering rules to any depth. -/
namespace Packrat

namespace Expr

/-- A repetition that needs a match and may not have any. -/
def starved : Expr → Bool
  | repeated _ min (some 0) => min != 0
  | _ => false

/-- No repetition in the expression is starved. A bound that is positive starves none. -/
def Feasible (e : Expr) : Prop := ∀ part ∈ e.subexprs, part.starved = false

instance (e : Expr) : Decidable e.Feasible :=
  inferInstanceAs (Decidable (∀ part ∈ e.subexprs, part.starved = false))

theorem Feasible.of_mem_parts {e part : Expr} (feasible : e.Feasible) (member : part ∈ e.parts) :
    part.Feasible := fun _ sub => feasible _ (mem_subexprs_of_mem_parts member sub)

theorem Feasible.of_mem_subexprs {e part : Expr} (feasible : e.Feasible)
    (sub : part ∈ e.subexprs) : part.Feasible := by
  induction e using parts_induction with
  | step e ih =>
    rcases mem_subexprs.mp sub with rfl | ⟨direct, member, sub⟩
    · exact feasible
    · exact ih direct member (feasible.of_mem_parts member) sub

theorem Feasible.min_eq_zero {body : Expr} {min : Nat}
    (feasible : (repeated body min (some 0)).Feasible) : min = 0 := by
  simpa [starved] using feasible _ (self_mem_subexprs _)

section Search

variable {rule rule' : String → Bool}

theorem allAlwaysMatch_iff {parts : List Expr} :
    allAlwaysMatch rule parts ↔ ∀ e ∈ parts, e.alwaysMatches rule := by
  induction parts with
  | nil => simp [allAlwaysMatch]
  | cons e rest ih => simp [allAlwaysMatch, ih]

theorem anyAlwaysMatches_iff {alternatives : List Expr} :
    anyAlwaysMatches rule alternatives ↔ ∃ e ∈ alternatives, e.alwaysMatches rule := by
  induction alternatives with
  | nil => simp [anyAlwaysMatches]
  | cons e rest ih => simp [anyAlwaysMatches, ih]

/-- The more is known of the rules, the more is found. -/
theorem alwaysMatches_mono (more : ∀ name, rule name → rule' name) (e : Expr)
    (always : e.alwaysMatches rule) : e.alwaysMatches rule' := by
  induction e using parts_induction with
  | step e ih =>
    cases e with
    | seq parts =>
      simp only [alwaysMatches, allAlwaysMatch_iff] at always ⊢
      exact fun part member => ih part member (always part member)
    | choice alternatives =>
      simp only [alwaysMatches, anyAlwaysMatches_iff] at always ⊢
      obtain ⟨e, member, here⟩ := always
      exact ⟨e, member, ih e member here⟩
    | repeated body min max =>
      have inner := ih body (by simp [parts])
      simp only [alwaysMatches, Bool.or_eq_true, Bool.and_eq_true] at always ⊢
      exact always.imp_right fun once => ⟨once.1, inner once.2⟩
    | ahead body => exact ih body (by simp [parts]) always
    | ref name => exact more name always
    | literal l => exact always
    | charClass | notAhead | endOfInput => cases always

end Search

end Expr

namespace Grammar

variable {V : Type} {g : Grammar V} {e : Expr}

/-- The expression matches wherever it is evaluated. A repetition counts an empty match once. -/
inductive Certain (g : Grammar V) : Expr → Prop where
  | literal {l : Literal} : l.text.isEmpty → Certain g (.literal l)
  | optional {body : Expr} {max : Option Nat} : Certain g (.repeated body 0 max)
  | once {body : Expr} {max : Option Nat} : Certain g body → Certain g (.repeated body 1 max)
  | seq {parts : List Expr} : (∀ e ∈ parts, Certain g e) → Certain g (.seq parts)
  | choice {alternatives : List Expr} {e : Expr} :
      e ∈ alternatives → Certain g e → Certain g (.choice alternatives)
  | ahead {body : Expr} : Certain g body → Certain g (.ahead body)
  | ref {name : String} {r : Rule V} :
      g.find? name = some r → Certain g r.body → Certain g (.ref name)

def Feasible (g : Grammar V) : Prop := ∀ r ∈ g.rules, r.body.Feasible

instance (g : Grammar V) : Decidable g.Feasible :=
  inferInstanceAs (Decidable (∀ r ∈ g.rules, r.body.Feasible))

theorem Feasible.body (feasible : g.Feasible) {name : String} {r : Rule V}
    (found : g.find? name = some r) : r.body.Feasible :=
  feasible r (List.mem_of_find?_eq_some found)

section Soundness

theorem certain_of_alwaysMatches_given {rule : String → Bool} (own : e.Feasible)
    (known : ∀ name, rule name → g.Certain (.ref name)) (always : e.alwaysMatches rule) :
    g.Certain e := by
  induction e using Expr.parts_induction with
  | step e ih =>
    have inner (part : Expr) (member : part ∈ e.parts) (here : part.alwaysMatches rule) :
        g.Certain part := ih part member (own.of_mem_parts member) here
    cases e with
    | seq parts =>
      simp only [Expr.alwaysMatches, Expr.allAlwaysMatch_iff] at always
      exact .seq fun part member => inner part member (always part member)
    | choice alternatives =>
      simp only [Expr.alwaysMatches, Expr.anyAlwaysMatches_iff] at always
      obtain ⟨e, member, here⟩ := always
      exact .choice member (inner e member here)
    | repeated body min max =>
      simp only [Expr.alwaysMatches, Bool.or_eq_true, Bool.and_eq_true, beq_iff_eq] at always
      rcases always with (rfl | rfl) | ⟨rfl, here⟩
      · exact .optional
      · obtain rfl := own.min_eq_zero
        exact .optional
      · exact .once (inner body (by simp [Expr.parts]) here)
    | ahead body => exact .ahead (inner body (by simp [Expr.parts]) always)
    | ref name => exact known name always
    | literal l => exact .literal always
    | charClass | notAhead | endOfInput => cases always

theorem certain_of_ruleAlwaysMatches (feasible : g.Feasible) (fuel : Nat) (stack : List String)
    (name : String) (always : g.ruleAlwaysMatches fuel stack name) : g.Certain (.ref name) := by
  induction fuel generalizing stack name with
  | zero =>
    unfold ruleAlwaysMatches at always
    cases g.find? name <;> simp at always
  | succ fuel ih =>
    unfold ruleAlwaysMatches at always
    cases found : g.find? name with
    | none => simp [found] at always
    | some r =>
      simp only [found] at always
      split at always
      · cases always
      · exact .ref found (certain_of_alwaysMatches_given (feasible.body found) (ih _) always)

theorem certain_of_alwaysMatches (feasible : g.Feasible) (own : e.Feasible)
    (always : g.alwaysMatches e) : g.Certain e :=
  certain_of_alwaysMatches_given own (certain_of_ruleAlwaysMatches feasible _ _) always

end Soundness

section Completeness

/-- What is known of the rules when they are entered to this depth. -/
def reaches (g : Grammar V) : Nat → String → Bool
  | 0, _ => false
  | depth + 1, name => (g.find? name).any fun r => r.body.alwaysMatches (reaches g depth)

theorem reaches_succ {name : String} {depth : Nat} :
    g.reaches (depth + 1) name ↔
      ∃ r, g.find? name = some r ∧ r.body.alwaysMatches (g.reaches depth) := by
  simp [reaches, Option.any_eq_true]

theorem reaches_mono {shallow deep : Nat} (le : shallow ≤ deep) {name : String}
    (reached : g.reaches shallow name) : g.reaches deep name := by
  induction shallow generalizing deep name with
  | zero => cases reached
  | succ shallow ih =>
    obtain ⟨deep, rfl⟩ : ∃ n, deep = n + 1 := ⟨deep - 1, by omega⟩
    obtain ⟨r, found, always⟩ := reaches_succ.mp reached
    exact reaches_succ.mpr
      ⟨r, found, Expr.alwaysMatches_mono (fun _ => ih (by omega)) r.body always⟩

/-- There is a depth at which the rule is first found. -/
theorem exists_first_depth {depth : Nat} {name : String} (reached : g.reaches depth name) :
    ∃ before < depth, g.reaches before name = false ∧ g.reaches (before + 1) name := by
  induction depth with
  | zero => cases reached
  | succ depth ih =>
    cases known : g.reaches depth name with
    | false => exact ⟨depth, by omega, known, reached⟩
    | true =>
      obtain ⟨before, lt, first⟩ := ih known
      exact ⟨before, by omega, first⟩

/-- What is found of each part at some depth is found of all at one depth. -/
theorem exists_depth {parts : List Expr}
    (each : ∀ e ∈ parts, ∃ depth, e.alwaysMatches (g.reaches depth)) :
    ∃ depth, ∀ e ∈ parts, e.alwaysMatches (g.reaches depth) := by
  induction parts with
  | nil => exact ⟨0, by simp⟩
  | cons e rest ih =>
    obtain ⟨⟨first, here⟩, later⟩ := List.forall_mem_cons.mp each
    obtain ⟨others, there⟩ := ih later
    have lift {depth : Nat} (le : depth ≤ max first others) (e : Expr) :
        e.alwaysMatches (g.reaches depth) → e.alwaysMatches (g.reaches (max first others)) :=
      Expr.alwaysMatches_mono (fun _ => reaches_mono le) e
    exact ⟨max first others, List.forall_mem_cons.mpr
      ⟨lift (le_max_left ..) e here, fun e member => lift (le_max_right ..) e (there e member)⟩⟩

theorem Certain.exists_depth (certain : g.Certain e) :
    ∃ depth, e.alwaysMatches (g.reaches depth) := by
  induction certain with
  | literal empty => exact ⟨0, empty⟩
  | optional => exact ⟨0, by simp [Expr.alwaysMatches]⟩
  | once _ ih =>
    obtain ⟨depth, here⟩ := ih
    exact ⟨depth, by simp [Expr.alwaysMatches, here]⟩
  | seq _ ih =>
    obtain ⟨depth, all⟩ := Grammar.exists_depth ih
    exact ⟨depth, by simpa only [Expr.alwaysMatches, Expr.allAlwaysMatch_iff] using all⟩
  | choice member _ ih =>
    obtain ⟨depth, here⟩ := ih
    exact ⟨depth, by
      simpa only [Expr.alwaysMatches, Expr.anyAlwaysMatches_iff] using ⟨_, member, here⟩⟩
  | ahead _ ih => exact ih
  | ref found _ ih =>
    obtain ⟨depth, here⟩ := ih
    exact ⟨depth + 1, reaches_succ.mpr ⟨_, found, here⟩⟩

/-- A rule that is found at some depth is found by the search, if the rules on the stack are not found at
that depth. Where a rule is first found, its body is found without the rule, so that putting it on the
stack costs nothing. -/
theorem ruleAlwaysMatches_of_reaches {depth fuel : Nat} {stack : List String} {name : String}
    (apart : stack.Nodup) (defined : stack ⊆ g.rules.map Rule.name)
    (enough : g.rules.length ≤ fuel + stack.length)
    (deeper : ∀ other ∈ stack, g.reaches depth other = false) (reached : g.reaches depth name) :
    g.ruleAlwaysMatches fuel stack name := by
  induction depth using Nat.strong_induction_on generalizing fuel stack name with
  | _ depth ih =>
    have fresh : name ∉ stack := fun member => by simp [deeper name member] at reached
    obtain ⟨before, lt, unknown, here⟩ := exists_first_depth reached
    obtain ⟨r, found, body⟩ := reaches_succ.mp here
    have apart' : (name :: stack).Nodup := List.nodup_cons.mpr ⟨fresh, apart⟩
    have defined' : name :: stack ⊆ g.rules.map Rule.name :=
      List.cons_subset.mpr ⟨mem_names_of_find? found, defined⟩
    have room := (List.subperm_of_subset apart' defined').length_le
    simp only [List.length_cons, List.length_map] at room
    obtain ⟨fuel, rfl⟩ : ∃ n, fuel = n + 1 := ⟨fuel - 1, by omega⟩
    have deeper' : ∀ other ∈ name :: stack, g.reaches before other = false := by
      refine List.forall_mem_cons.mpr ⟨unknown, fun other member => ?_⟩
      cases shallow : g.reaches before other with
      | false => rfl
      | true => exact (reaches_mono lt.le shallow).symm.trans (deeper other member)
    unfold ruleAlwaysMatches
    simp only [found, List.contains_iff_mem, fresh, if_false]
    exact Expr.alwaysMatches_mono
      (fun other => ih before lt apart' defined' (by simp; omega) deeper') r.body body

theorem alwaysMatches_of_certain (certain : g.Certain e) : g.alwaysMatches e := by
  obtain ⟨depth, here⟩ := certain.exists_depth
  exact Expr.alwaysMatches_mono (fun _ => ruleAlwaysMatches_of_reaches .nil (by simp) (by simp)
    (by simp)) e here

end Completeness

theorem certain_ref_iff {name : String} {r : Rule V} (found : g.find? name = some r) :
    g.Certain (.ref name) ↔ g.Certain r.body := by
  constructor
  · intro certain
    cases certain with
    | ref found' body => exact Option.some.inj (found.symm.trans found') ▸ body
  · exact .ref found

/-- The search finds the expressions that are certain to match, and no others. Whether it has entered a
rule or begins with the body of the rule, which may lead back to the rule, it finds the same. -/
theorem alwaysMatches_iff_certain (feasible : g.Feasible) (own : e.Feasible) :
    (g.alwaysMatches e ↔ g.Certain e) ∧
    ∀ name r, g.find? name = some r → g.alwaysMatches (.ref name) = g.alwaysMatches r.body := by
  have search {e : Expr} (own : e.Feasible) : g.alwaysMatches e ↔ g.Certain e :=
    ⟨certain_of_alwaysMatches feasible own, alwaysMatches_of_certain⟩
  refine ⟨search own, fun name r found => Bool.eq_iff_iff.mpr ?_⟩
  have reference : (Expr.ref name).Feasible := by simp [Expr.Feasible, Expr.subexprs, Expr.starved]
  rw [search reference, certain_ref_iff found, search (feasible.body found)]

def margins : Grammar String := .ofRules [
  { name := "margin"
    body := .choice [.seq [.ref "remark", .lit "\n"], .ref "indent", .star (.lit " ")] },
  { name := "remark", body := .seq [.ref "margin", .opt (.lit "#")] }]

theorem margins_certain :
    let line : Expr := .seq [.ref "remark", .ref "margin"]
    margins.Feasible ∧ line.Feasible ∧ margins.Certain line ∧
      margins.alwaysMatches (.ref "remark") =
        margins.alwaysMatches (.seq [.ref "margin", .opt (.lit "#")]) := by
  intro line
  have feasible : margins.Feasible := by decide +kernel
  have own : line.Feasible := by decide +kernel
  obtain ⟨search, rules⟩ := alwaysMatches_iff_certain feasible own
  exact ⟨feasible, own, search.mp (by decide +kernel), rules "remark" _ rfl⟩

end Grammar

end Packrat
