import Packrat.Grammar.Check
import Packrat.Proofs.Grammar.LeftEdges

/-! What the check reads of the rules: their bodies, each found by its name, and how many rules there are. So it
does not look at which rules are cached, and rules in another order have the same defects in another order. -/
namespace Packrat

variable {V W : Type}

namespace Grammar

variable {g : Grammar V} {g' : Grammar W}

structure SameBodies (g : Grammar V) (g' : Grammar W) : Prop where
  size : g'.rules.length = g.rules.length
  body : ∀ name, (g'.find? name).map Rule.body = (g.find? name).map Rule.body

namespace SameBodies

variable {name : String}

theorem missing (same : SameBodies g g') (missing : g.find? name = none) : g'.find? name = none := by
  have body := same.body name
  rwa [missing, Option.map_none, Option.map_eq_none_iff] at body

theorem found (same : SameBodies g g') {r : Rule V} (found : g.find? name = some r) :
    ∃ r', g'.find? name = some r' ∧ r'.body = r.body := by
  have body := same.body name
  rwa [found, Option.map_some, Option.map_eq_some_iff] at body

theorem defines_eq (same : SameBodies g g') : g'.defines = g.defines := by
  funext name
  rw [← isSome_find?, ← isSome_find?, ← Option.isSome_map, same.body name, Option.isSome_map]

theorem ruleAlwaysMatches_eq (same : SameBodies g g') (fuel : Nat) :
    g'.ruleAlwaysMatches fuel = g.ruleAlwaysMatches fuel := by
  induction fuel with
  | zero =>
    funext stack name
    unfold ruleAlwaysMatches
    cases g.find? name <;> cases g'.find? name <;> rfl
  | succ fuel ih =>
    funext stack name
    unfold ruleAlwaysMatches
    cases here : g.find? name with
    | none => simp [same.missing here]
    | some r =>
      obtain ⟨r', there, body⟩ := same.found here
      simp [there, body, ih]

theorem walkRule_eq (same : SameBodies g g') (fuel : Nat) : g'.walkRule fuel = g.walkRule fuel := by
  induction fuel with
  | zero =>
    funext stack name
    unfold walkRule
    cases g.find? name <;> cases g'.find? name <;> rfl
  | succ fuel ih =>
    funext stack name
    unfold walkRule
    cases here : g.find? name with
    | none => simp [same.missing here]
    | some r =>
      obtain ⟨r', there, body⟩ := same.found here
      simp [there, body, ih]

theorem defect?_eq (same : SameBodies g g') : g'.defect? = g.defect? := by
  have always : g'.alwaysMatches = g.alwaysMatches := by
    funext e
    simp [alwaysMatches, same.ruleAlwaysMatches_eq, same.size]
  funext rule e
  cases e <;> simp [defect?, unreachableAlternative, always, same.defines_eq]

end SameBodies

end Grammar

def Rule.uncached (r : Rule V) : Rule V := { r with cached := false }

namespace Rule

@[simp] theorem name_uncached (r : Rule V) : r.uncached.name = r.name := rfl

@[simp] theorem body_uncached (r : Rule V) : r.uncached.body = r.body := rfl

end Rule

namespace Grammar

def uncached (g : Grammar V) : Grammar V where
  rules := g.rules.map Rule.uncached
  duplicates := g.duplicates
  distinct := by simpa [List.map_map, Function.comp_def] using g.distinct

@[simp] theorem rules_uncached (g : Grammar V) :
    g.uncached.rules = g.rules.map Rule.uncached := rfl

@[simp] theorem duplicates_uncached (g : Grammar V) : g.uncached.duplicates = g.duplicates := rfl

@[simp] theorem defines_uncached (g : Grammar V) : g.uncached.defines = g.defines := by
  funext name
  simp [defines, List.any_map, Function.comp_def]

@[simp] theorem find?_uncached (g : Grammar V) (name : String) :
    g.uncached.find? name = (g.find? name).map Rule.uncached := by
  simp [find?, List.find?_map, Function.comp_def]

theorem add_uncached (g : Grammar V) (r : Rule V) : (g.add r).uncached = g.uncached.add r.uncached := by
  have same : g.uncached.defines r.uncached.name = g.defines r.name := by simp
  unfold add
  by_cases taken : g.defines r.name = true
  · rw [dif_pos taken, dif_pos (same.trans taken)]
    rfl
  · rw [dif_neg taken, dif_neg (by rwa [same])]
    simp [uncached]

theorem ofRules_uncached (rules : List (Rule V)) :
    (ofRules rules).uncached = ofRules (rules.map Rule.uncached) := by
  rw [ofRules, ofRules, List.foldl_map]
  exact (List.foldl_hom uncached fun g r => (add_uncached g r).symm).symm

section Check

variable (g : Grammar V)

theorem sameBodies_uncached : SameBodies g g.uncached where
  size := by simp
  body name := by simp [Function.comp_def]

/-- Caching is no matter of the check. -/
theorem check_uncached (start : String) : g.uncached.check start = g.check start := by
  have same := g.sameBodies_uncached
  have bodies : g.uncached.bodyDefects = g.bodyDefects := by
    simp [bodyDefects, List.flatMap_map, same.defect?_eq]
  have closed : g.uncached.closed = g.closed := by
    simp [Grammar.closed, List.all_map, Function.comp_def]
  have loops : g.uncached.leftRecursions = g.leftRecursions := by
    simp [leftRecursions, List.flatMap_map, same.walkRule_eq]
  simp [check, defects, bodies, closed, loops]

end Check

section Order

variable {g g' : Grammar V}

theorem find?_eq_some_iff {name : String} {r : Rule V} :
    g.find? name = some r ↔ r ∈ g.rules ∧ r.name = name := by
  constructor
  · exact fun found => ⟨List.mem_of_find?_eq_some found, name_of_find? found⟩
  · rintro ⟨member, rfl⟩
    exact find?_of_mem member

/-- A grammar is accepted if it has no defect at all. -/
theorem check_eq_none_iff {start : String} :
    g.check start = none ↔ g.duplicates = [] ∧ g.defines start ∧ g.defects = [] := by
  unfold check
  cases g.duplicates with
  | cons => simp
  | nil => by_cases defined : g.defines start = true <;> simp [defined]

section Perm

variable (perm : g'.rules.Perm g.rules)

include perm

theorem find?_perm : g'.find? = g.find? := by
  funext name
  apply Option.ext
  intro r
  rw [find?_eq_some_iff, find?_eq_some_iff, perm.mem_iff]

theorem sameBodies_of_perm : SameBodies g g' where
  size := perm.length_eq
  body name := by rw [find?_perm perm]

theorem bodyDefects_perm : g'.bodyDefects.Perm g.bodyDefects := by
  unfold bodyDefects
  rw [(sameBodies_of_perm perm).defect?_eq]
  exact perm.flatMap fun _ _ => .refl _

theorem leftRecursions_perm : g'.leftRecursions.Perm g.leftRecursions := by
  have same := sameBodies_of_perm perm
  unfold leftRecursions
  rw [same.size, same.walkRule_eq]
  exact perm.flatMap fun _ _ => .refl _

theorem closed_perm : g'.closed = g.closed := by
  unfold closed
  rw [(sameBodies_of_perm perm).defines_eq]
  exact perm.all_eq

theorem defects_perm : g'.defects.Perm g.defects := by
  unfold defects
  rw [closed_perm perm]
  refine (bodyDefects_perm perm).append ?_
  split
  · exact (leftRecursions_perm perm).map _
  · exact .refl _

theorem check_perm (duplicates : g'.duplicates = g.duplicates) (start : String) :
    g'.check start = none ↔ g.check start = none := by
  have clean : g'.defects = [] ↔ g.defects = [] := by
    rw [← List.perm_nil, ← List.perm_nil]
    exact (defects_perm perm).congr_left []
  rw [check_eq_none_iff, check_eq_none_iff, duplicates, clean, (sameBodies_of_perm perm).defines_eq]

end Perm

theorem foldl_add {rules : List (Rule V)} (distinct : ((g.rules ++ rules).map Rule.name).Nodup) :
    (rules.foldl add g).rules = g.rules ++ rules ∧
      (rules.foldl add g).duplicates = g.duplicates := by
  induction rules generalizing g with
  | nil => simp
  | cons r rules ih =>
    have fresh : ¬ g.defines r.name := by
      rw [List.map_append, List.map_cons] at distinct
      have apart := (List.nodup_append.mp distinct).2.2
      simp only [defines, List.any_eq_true, beq_iff_eq]
      rintro ⟨r', member, same⟩
      exact apart _ (List.mem_map_of_mem member) _ (List.mem_cons_self ..) same
    have added : (g.add r).rules = g.rules ++ [r] ∧ (g.add r).duplicates = g.duplicates := by
      unfold add
      rw [dif_neg fresh]
      exact ⟨rfl, rfl⟩
    obtain ⟨kept, none_twice⟩ := ih (g := g.add r) (by simpa [added.1] using distinct)
    rw [List.foldl_cons, kept, none_twice, added.1, added.2]
    exact ⟨by simp, rfl⟩

/-- Rules with distinct names are all kept, in their order. -/
theorem ofRules_of_distinct {rules : List (Rule V)} (distinct : (rules.map Rule.name).Nodup) :
    (ofRules rules).rules = rules ∧ (ofRules rules).duplicates = [] :=
  foldl_add (g := empty) (by simpa [empty] using distinct)

end Order

end Grammar

end Packrat
