import Mathlib.Data.List.Nodup
import Mathlib.Data.List.Perm.Subperm
import Mathlib.Logic.Relation
import Mathlib.Order.WellFounded
import Packrat.Grammar.Check

/-! The left edges of a grammar: which rules a rule can enter before any input is consumed. A grammar
in which the walk finds no chain has no cycle of left edges, and the walk decides nullability in it. -/
namespace Packrat.Grammar

variable {V : Type} {g : Grammar V}

inductive Nullable (g : Grammar V) : Expr → Prop where
  | literal {l : Literal} : l.text.isEmpty → Nullable g (.literal l)
  | endOfInput : Nullable g .endOfInput
  | ahead {body : Expr} : Nullable g (.ahead body)
  | notAhead {body : Expr} : Nullable g (.notAhead body)
  | seq {parts : List Expr} : (∀ e ∈ parts, Nullable g e) → Nullable g (.seq parts)
  | choice {alternatives : List Expr} {e : Expr} :
      e ∈ alternatives → Nullable g e → Nullable g (.choice alternatives)
  | optional {body : Expr} {max : Option Nat} : Nullable g (.repeated body 0 max)
  | repeated {body : Expr} {min : Nat} {max : Option Nat} :
      Nullable g body → Nullable g (.repeated body min max)
  | ref {name : String} {r : Rule V} :
      g.find? name = some r → Nullable g r.body → Nullable g (.ref name)

/-- The expression refers to the rule at a place before which, in every sequence around it, only
nullable parts stand. -/
inductive LeftRef (g : Grammar V) : Expr → String → Prop where
  | ref {name : String} : LeftRef g (.ref name) name
  | seq {before after : List Expr} {e : Expr} {name : String} :
      (∀ part ∈ before, g.Nullable part) → LeftRef g e name →
      LeftRef g (.seq (before ++ e :: after)) name
  | choice {alternatives : List Expr} {e : Expr} {name : String} :
      e ∈ alternatives → LeftRef g e name → LeftRef g (.choice alternatives) name
  | repeated {body : Expr} {min : Nat} {max : Option Nat} {name : String} :
      LeftRef g body name → LeftRef g (.repeated body min max) name
  | ahead {body : Expr} {name : String} : LeftRef g body name → LeftRef g (.ahead body) name
  | notAhead {body : Expr} {name : String} :
      LeftRef g body name → LeftRef g (.notAhead body) name

/-- The body of the first rule left-refers to the second. -/
def LeftEdge (g : Grammar V) (user used : String) : Prop :=
  ∃ r, g.find? user = some r ∧ g.LeftRef r.body used

theorem nullable_seq_iff {parts : List Expr} :
    g.Nullable (.seq parts) ↔ ∀ e ∈ parts, g.Nullable e :=
  ⟨fun h => by cases h; assumption, .seq⟩

theorem nullable_choice_iff {alternatives : List Expr} :
    g.Nullable (.choice alternatives) ↔ ∃ e ∈ alternatives, g.Nullable e :=
  ⟨fun h => by cases h; exact ⟨_, ‹_›, ‹_›⟩, fun ⟨_, member, h⟩ => .choice member h⟩

theorem nullable_repeated_iff {body : Expr} {min : Nat} {max : Option Nat} :
    g.Nullable (.repeated body min max) ↔ g.Nullable body ∨ min = 0 := by
  constructor
  · intro h
    cases h with
    | optional => exact .inr rfl
    | repeated h => exact .inl h
  · rintro (h | rfl)
    · exact .repeated h
    · exact .optional

theorem nullable_ref_iff {name : String} {r : Rule V} (found : g.find? name = some r) :
    g.Nullable (.ref name) ↔ g.Nullable r.body := by
  constructor
  · intro h
    cases h with
    | ref found' h => exact Option.some.inj (found.symm.trans found') ▸ h
  · exact .ref found

theorem leftRef_seq_cons_iff {e : Expr} {rest : List Expr} {name : String} :
    g.LeftRef (.seq (e :: rest)) name ↔
      g.LeftRef e name ∨ g.Nullable e ∧ g.LeftRef (.seq rest) name := by
  constructor
  · intro h
    generalize whole : Expr.seq (e :: rest) = e' at h
    cases h with
    | @seq before after part _ nullable h =>
      cases before with
      | nil => cases whole; exact .inl h
      | cons first before =>
        cases whole
        exact .inr ⟨nullable _ (by simp), .seq (fun p member => nullable p (by simp [member])) h⟩
    | _ => cases whole
  · rintro (h | ⟨nullable, h⟩)
    · exact @LeftRef.seq V g [] rest e name (by simp) h
    · generalize whole : Expr.seq rest = e' at h
      cases h with
      | @seq before after part _ nullable' h =>
        cases whole
        exact @LeftRef.seq V g (e :: before) after part name (by simpa [nullable] using nullable') h
      | _ => cases whole

theorem not_leftRef_seq_nil {name : String} : ¬ g.LeftRef (.seq []) name := by
  intro h
  generalize whole : Expr.seq [] = e at h
  cases h with
  | @seq before => cases before <;> cases whole
  | _ => cases whole

/-- From the rule, chains of left edges end. -/
def LeftEnds (g : Grammar V) (name : String) : Prop :=
  Acc (fun used user => g.LeftEdge user used) name

/-- A walk without chains has seen all there is: it decides nullability, and every rule that it
entered ends. -/
structure Explored (g : Grammar V) (e : Expr) (w : Walk) : Prop where
  nullable : g.Nullable e ↔ w.nullable
  ends : ∀ name, g.LeftRef e name → g.LeftEnds name

section Walk

variable {rule : String → Walk}

mutual

theorem explored_walk (known : ∀ name, (rule name).loops = [] → g.Explored (.ref name) (rule name)) :
    (e : Expr) → (e.walk rule).loops = [] → g.Explored e (e.walk rule)
  | .literal l, _ => ⟨⟨fun h => by cases h; assumption, .literal⟩, nofun⟩
  | .charClass _, _ => ⟨⟨nofun, nofun⟩, nofun⟩
  | .endOfInput, _ => ⟨⟨fun _ => rfl, fun _ => .endOfInput⟩, nofun⟩
  | .ref name, clean => known name clean
  | .ahead body, clean =>
    have inner := explored_walk known body clean
    ⟨⟨fun _ => rfl, fun _ => .ahead⟩, fun name h => by cases h with | ahead h => exact inner.ends name h⟩
  | .notAhead body, clean =>
    have inner := explored_walk known body clean
    ⟨⟨fun _ => rfl, fun _ => .notAhead⟩,
      fun name h => by cases h with | notAhead h => exact inner.ends name h⟩
  | .repeated body min max, clean => by
    have inner := explored_walk known body clean
    refine ⟨?_, fun name h => by cases h with | repeated h => exact inner.ends name h⟩
    rw [nullable_repeated_iff, inner.nullable]
    simp [Expr.walk]
  | .seq parts, clean => by
    rw [Expr.walk] at clean ⊢
    exact explored_walkSeq known parts clean
  | .choice alternatives, clean => by
    rw [Expr.walk] at clean ⊢
    exact explored_walkChoice known alternatives clean

theorem explored_walkSeq
    (known : ∀ name, (rule name).loops = [] → g.Explored (.ref name) (rule name)) :
    (parts : List Expr) → (Expr.walkSeq rule parts).loops = [] →
      g.Explored (.seq parts) (Expr.walkSeq rule parts)
  | [], _ =>
    ⟨⟨fun _ => rfl, fun _ => .seq (by simp)⟩, fun _ h => absurd h not_leftRef_seq_nil⟩
  | e :: rest, clean => by
    rw [Expr.walkSeq] at clean ⊢
    split
    · rename_i nullable
      simp only [nullable, if_true, List.append_eq_nil_iff] at clean
      have first := explored_walk known e clean.1
      have others := explored_walkSeq known rest clean.2
      constructor
      · rw [← others.nullable, nullable_seq_iff, nullable_seq_iff]
        simp [first.nullable, nullable]
      · intro name h
        rcases leftRef_seq_cons_iff.mp h with h | ⟨-, h⟩
        · exact first.ends name h
        · exact others.ends name h
    · rename_i consuming
      simp only [consuming] at clean
      have first := explored_walk known e clean
      constructor
      · rw [nullable_seq_iff]
        simp [first.nullable, consuming]
      · intro name h
        rcases leftRef_seq_cons_iff.mp h with h | ⟨nullable, -⟩
        · exact first.ends name h
        · exact absurd (first.nullable.mp nullable) consuming

theorem explored_walkChoice
    (known : ∀ name, (rule name).loops = [] → g.Explored (.ref name) (rule name)) :
    (alternatives : List Expr) → (Expr.walkChoice rule alternatives).loops = [] →
      g.Explored (.choice alternatives) (Expr.walkChoice rule alternatives)
  | [], _ =>
    ⟨⟨fun h => by simpa using nullable_choice_iff.mp h, nofun⟩, fun name h => by
      cases h with | choice member => simp at member⟩
  | e :: rest, clean => by
    rw [Expr.walkChoice] at clean ⊢
    obtain ⟨clean, clean'⟩ := List.append_eq_nil_iff.mp clean
    have first := explored_walk known e clean
    have others := explored_walkChoice known rest clean'
    constructor
    · have rest_nullable := nullable_choice_iff.symm.trans others.nullable
      rw [nullable_choice_iff]
      simp [first.nullable, rest_nullable]
    · intro name h
      cases h with
      | choice member h =>
        rcases List.mem_cons.mp member with rfl | member
        · exact first.ends name h
        · exact others.ends name (.choice member h)

end

end Walk

theorem leftEnds_of_undefined {name : String} (missing : g.find? name = none) : g.LeftEnds name :=
  ⟨_, fun _ ⟨_, found, _⟩ => by simp [missing] at found⟩

theorem name_of_find? {name : String} {r : Rule V} (found : g.find? name = some r) :
    r.name = name := by
  simpa using List.find?_some found

theorem find?_of_mem {r : Rule V} (member : r ∈ g.rules) : g.find? r.name = some r := by
  cases found : g.find? r.name with
  | none => exact absurd (List.find?_eq_none.mp found r member) (by simp)
  | some r' =>
    have member' : r' ∈ g.rules := List.mem_of_find?_eq_some found
    exact congrArg some (List.inj_on_of_nodup_map g.distinct member' member (name_of_find? found))

theorem mem_names_of_find? {name : String} {r : Rule V} (found : g.find? name = some r) :
    name ∈ g.rules.map Rule.name :=
  List.mem_map.mpr ⟨r, List.mem_of_find?_eq_some found, name_of_find? found⟩

theorem not_mem_stack_of_clean {fuel : Nat} {stack : List String} {name : String}
    (clean : (g.walkRule fuel stack name).loops = []) : name ∉ stack := by
  intro member
  unfold walkRule at clean
  simp [member] at clean

theorem walkRule_missing {name : String} (missing : g.find? name = none) {stack : List String}
    (fresh : name ∉ stack) (fuel : Nat) : g.walkRule fuel stack name = ⟨false, []⟩ := by
  unfold walkRule
  simp [fresh, missing]

theorem walkRule_succ {name : String} {r : Rule V} (found : g.find? name = some r)
    {stack : List String} (fresh : name ∉ stack) (fuel : Nat) :
    g.walkRule (fuel + 1) stack name = r.body.walk (g.walkRule fuel (stack ++ [name])) := by
  unfold walkRule
  simp [fresh, found]

theorem explored_missing {name : String} (missing : g.find? name = none) {stack : List String}
    (fresh : name ∉ stack) (fuel : Nat) : g.Explored (.ref name) (g.walkRule fuel stack name) := by
  rw [walkRule_missing missing fresh]
  refine ⟨⟨?_, nofun⟩, ?_⟩
  · intro h
    cases h with | ref found => simp [missing] at found
  · intro other h
    cases h with | ref => exact leftEnds_of_undefined missing

/-- The stack never holds a name twice, so the fuel lasts until every rule has been entered. -/
theorem explored_walkRule (fuel : Nat) (stack : List String) (name : String)
    (apart : stack.Nodup) (defined : stack ⊆ g.rules.map Rule.name)
    (enough : g.rules.length ≤ fuel + stack.length)
    (clean : (g.walkRule fuel stack name).loops = []) :
    g.Explored (.ref name) (g.walkRule fuel stack name) := by
  have fresh := not_mem_stack_of_clean clean
  cases found : g.find? name with
  | none => exact explored_missing found fresh fuel
  | some r =>
    have apart' : (stack ++ [name]).Nodup := by
      rw [List.nodup_append]
      exact ⟨apart, by simp, fun a member b only => by
        rintro rfl
        exact fresh (List.mem_singleton.mp only ▸ member)⟩
    have defined' : stack ++ [name] ⊆ g.rules.map Rule.name :=
      List.append_subset.mpr ⟨defined, by simpa using mem_names_of_find? found⟩
    cases fuel with
    | zero =>
      have room := (List.subperm_of_subset apart' defined').length_le
      simp at room
      omega
    | succ fuel =>
      rw [walkRule_succ found fresh] at clean ⊢
      have inner := explored_walk (fun other => explored_walkRule fuel (stack ++ [name]) other
        apart' defined' (by simp; omega)) r.body clean
      refine ⟨(nullable_ref_iff found).trans inner.nullable, ?_⟩
      intro other h
      cases h with
      | ref =>
        refine ⟨_, fun used ⟨r', found', h⟩ => inner.ends used ?_⟩
        rwa [← Option.some.inj (found.symm.trans found')] at h

/-- If the walk finds no chain, every chain of left edges ends. -/
theorem wellFounded_leftEdge (clean : g.leftRecursions = []) :
    WellFounded fun used user => g.LeftEdge user used := by
  constructor
  intro name
  cases found : g.find? name with
  | none => exact leftEnds_of_undefined found
  | some r =>
    have member : r ∈ g.rules := List.mem_of_find?_eq_some found
    have clean' : (g.walkRule g.rules.length [] r.name).loops = [] :=
      List.flatMap_eq_nil_iff.mp clean r member
    rw [name_of_find? found] at clean'
    exact (explored_walkRule _ [] name .nil (by simp) (by simp) clean').ends name .ref

theorem acyclic_of_leftRecursions (clean : g.leftRecursions = []) (name : String) :
    ¬ Relation.TransGen g.LeftEdge name name := by
  intro cycle
  have wf := (wellFounded_leftEdge clean).transGen
  exact wf.irrefl.irrefl name (Relation.transGen_swap.mpr cycle)

theorem defects_of_check {start : String} (accepted : g.check start = none) : g.defects = [] := by
  unfold check at accepted
  split at accepted
  · simp at accepted
  · split at accepted
    · exact List.head?_eq_none_iff.mp accepted
    · simp at accepted

theorem bodyDefects_of_check {start : String} (accepted : g.check start = none) :
    g.bodyDefects = [] :=
  (List.append_eq_nil_iff.mp (defects_of_check accepted)).1

theorem defect?_of_check {start : String} (accepted : g.check start = none) {r : Rule V}
    (member : r ∈ g.rules) {e : Expr} (sub : e ∈ r.body.subexprs) : g.defect? r.name e = none :=
  List.filterMap_eq_nil_iff.mp
    (List.flatMap_eq_nil_iff.mp (bodyDefects_of_check accepted) r member) e sub

/-- In a grammar that passes the check, every reference in a body names a rule. -/
theorem defines_of_mem_refs {start : String} (accepted : g.check start = none) {r : Rule V}
    (member : r ∈ g.rules) {name : String} (used : name ∈ r.body.refs) : g.defines name := by
  obtain ⟨e, sub, named⟩ := List.mem_filterMap.mp used
  have sound := defect?_of_check accepted member sub
  cases e <;> simp only [Expr.ref?, reduceCtorEq, Option.some.injEq] at named
  subst named
  simpa [defect?] using sound

theorem leftRecursions_of_check {start : String} (accepted : g.check start = none) :
    g.leftRecursions = [] := by
  have closed : g.closed := by
    simp only [Grammar.closed, List.all_eq_true]
    exact fun r member name used => defines_of_mem_refs accepted member used
  have none_found := (List.append_eq_nil_iff.mp (defects_of_check accepted)).2
  rw [if_pos closed] at none_found
  simpa using none_found

/-- A grammar that passes the check has no cycle of left edges. -/
theorem acyclic_of_check {start : String} (accepted : g.check start = none) (name : String) :
    ¬ Relation.TransGen g.LeftEdge name name :=
  acyclic_of_leftRecursions (leftRecursions_of_check accepted) name

end Packrat.Grammar
