import Packrat.Calculator
import Packrat.Proofs.Grammar.Bodies
import Packrat.Proofs.Parser

/-! Neither caching nor the order of rules shows: grammars whose rules differ only in which of them are cached, or
in the order of their declaration, are accepted alike and give the same answers. -/
namespace Packrat

variable {V : Type}

theorem Rule.alike_of_uncached [Value V] {r r' : Rule V} (same : r'.uncached = r.uncached) :
    r.Alike (.identity V) r' := by
  simp only [Rule.uncached, Rule.mk.injEq] at same
  obtain ⟨name, body, fold, label, silent, -⟩ := same
  exact alike_identity name body fold label silent

namespace Parser

theorem ofGrammar_eq_ok_iff {g : Grammar V} {start : String} {p : Parser V} :
    ofGrammar g start = .ok p ↔ p.grammar = g ∧ p.start = start ∧ p.allowPartial = false := by
  unfold ofGrammar
  split
  · constructor
    · intro ok
      cases ok
      exact ⟨rfl, rfl, rfl⟩
    · rintro ⟨rfl, rfl, whole⟩
      cases p
      cases whole
      rfl
  · rename_i defect refused
    refine ⟨nofun, ?_⟩
    rintro ⟨rfl, rfl, -⟩
    exact absurd (p.accepted.symm.trans refused) nofun

theorem exists_ofGrammar_iff {g : Grammar V} {start : String} :
    (∃ p, ofGrammar g start = .ok p) ↔ g.check start = none := by
  constructor
  · rintro ⟨p, built⟩
    obtain ⟨rfl, rfl, -⟩ := ofGrammar_eq_ok_iff.mp built
    exact p.accepted
  · intro accepted
    exact ⟨{ grammar := g, start, accepted }, ofGrammar_eq_ok_iff.mpr ⟨rfl, rfl, rfl⟩⟩

variable [Value V]

/-- What the runs agree on, the ways to parse do. -/
theorem entryPoints_congr {p p' : Parser V} {input : String}
    (runs : ∀ (file : Option String) (allowPartial : Bool),
      (p'.run input file allowPartial).result = (p.run input file allowPartial).result)
    (allowPartial : Bool) (file : String) :
    (p'.withPartial allowPartial).parse input = (p.withPartial allowPartial).parse input ∧
    (p'.withPartial allowPartial).parseFile input file =
      (p.withPartial allowPartial).parseFile input file ∧
    (p'.withPartial allowPartial).parsePartial input =
      (p.withPartial allowPartial).parsePartial input :=
  ⟨congrArg (Except.map Parsed.value) (runs none allowPartial),
    congrArg (Except.map Parsed.value) (runs (some file) allowPartial), runs none true⟩

/-- Parsers answer alike if their grammars are the same but for caching. -/
theorem run_congr {p p' : Parser V} (grammar : p'.grammar.uncached = p.grammar.uncached)
    (start : p'.start = p.start) (input : String) (file : Option String) (allowPartial : Bool) :
    (p'.run input file allowPartial).result = (p.run input file allowPartial).result := by
  refine run_eq_of_alike (fun name => ?_) start input file allowPartial
  have rules : (p'.grammar.find? name).map Rule.uncached = (p.grammar.find? name).map Rule.uncached := by
    rw [← Grammar.find?_uncached, ← Grammar.find?_uncached, grammar]
  exact Grammar.rel_find? rules fun _ _ _ _ => Rule.alike_of_uncached

/-- Which rules are cached makes no difference to whether their grammar is accepted, nor to any answer
of its parser. -/
theorem caching_transparent {rules rules' : List (Rule V)} {start : String} {p : Parser V}
    (same : rules'.map Rule.uncached = rules.map Rule.uncached)
    (accepted : ofGrammar (.ofRules rules) start = .ok p) :
    ∃ p', ofGrammar (.ofRules rules') start = .ok p' ∧ ∀ (allowPartial : Bool) (input file : String),
      (p'.withPartial allowPartial).parse input = (p.withPartial allowPartial).parse input ∧
      (p'.withPartial allowPartial).parseFile input file =
        (p.withPartial allowPartial).parseFile input file ∧
      (p'.withPartial allowPartial).parsePartial input =
        (p.withPartial allowPartial).parsePartial input := by
  have grammar : (Grammar.ofRules rules').uncached = (Grammar.ofRules rules).uncached := by
    rw [Grammar.ofRules_uncached, Grammar.ofRules_uncached, same]
  obtain ⟨rules_eq, rfl, -⟩ := ofGrammar_eq_ok_iff.mp accepted
  have accepted' : (Grammar.ofRules rules').check p.start = none := by
    rw [← Grammar.check_uncached, grammar, Grammar.check_uncached, ← rules_eq]
    exact p.accepted
  let p' : Parser V := { grammar := .ofRules rules', start := p.start, accepted := accepted' }
  have bare : p'.grammar.uncached = p.grammar.uncached := by rw [grammar, rules_eq]
  exact ⟨p', ofGrammar_eq_ok_iff.mpr ⟨rfl, rfl, rfl⟩, fun allowPartial input file =>
    entryPoints_congr (run_congr bare rfl input) allowPartial file⟩

theorem calculator_caching_transparent :
    let rules := Calculator.rules.map fun r => { r with cached := !r.cached }
    rules.map Rule.uncached = Calculator.rules.map Rule.uncached ∧
      ofGrammar (.ofRules Calculator.rules) "start" = .ok Calculator.parser ∧
      ∃ p', ofGrammar (.ofRules rules) "start" = .ok p' ∧
        (p'.withPartial false).parse "(1+2" = Calculator.parser.parse "(1+2" ∧
        (p'.withPartial true).parsePartial "(1+2)(" =
          (Calculator.parser.withPartial true).parsePartial "(1+2)(" := by
  have same : (Calculator.rules.map fun r => { r with cached := !r.cached }).map Rule.uncached =
      Calculator.rules.map Rule.uncached := rfl
  have accepted : ofGrammar (.ofRules Calculator.rules) "start" = .ok Calculator.parser :=
    ofGrammar_eq_ok_iff.mpr ⟨rfl, rfl, rfl⟩
  obtain ⟨p', accepted', alike⟩ := caching_transparent same accepted
  exact ⟨same, accepted, p', accepted', (alike false "(1+2" "").1, (alike true "(1+2)(" "").2.2⟩

/-- Parsers with the same start rule answer alike if they have the same rules in any order. -/
theorem run_perm {p p' : Parser V} (order : p'.grammar.rules.Perm p.grammar.rules)
    (start : p'.start = p.start) (input : String) (file : Option String) (allowPartial : Bool) :
    (p'.run input file allowPartial).result = (p.run input file allowPartial).result := by
  refine run_eq_of_alike (fun name => ?_) start input file allowPartial
  rw [Grammar.find?_perm order]
  exact Grammar.rel_find?_self (fun _ _ => Rule.alike_identity rfl rfl rfl rfl rfl) name

/-- Rules with distinct names make an accepted grammar in every order or in none, and if they do, their
parsers give the same values, leave the same input over and report the same errors. -/
theorem ruleOrder_irrelevant {rules rules' : List (Rule V)} (distinct : (rules.map Rule.name).Nodup)
    (order : rules'.Perm rules) (start : String) :
    ((∃ p', ofGrammar (.ofRules rules') start = .ok p') ↔
      ∃ p, ofGrammar (.ofRules rules) start = .ok p) ∧
    ∀ p p', ofGrammar (.ofRules rules) start = .ok p → ofGrammar (.ofRules rules') start = .ok p' →
      ∀ (allowPartial : Bool) (input file : String),
        (p'.withPartial allowPartial).parse input = (p.withPartial allowPartial).parse input ∧
        (p'.withPartial allowPartial).parseFile input file =
          (p.withPartial allowPartial).parseFile input file ∧
        (p'.withPartial allowPartial).parsePartial input =
          (p.withPartial allowPartial).parsePartial input := by
  have distinct' : (rules'.map Rule.name).Nodup := ((order.map Rule.name).nodup_iff).mpr distinct
  obtain ⟨kept, none_twice⟩ := Grammar.ofRules_of_distinct distinct
  obtain ⟨kept', none_twice'⟩ := Grammar.ofRules_of_distinct distinct'
  have perm : (Grammar.ofRules rules').rules.Perm (Grammar.ofRules rules).rules := by
    rwa [kept, kept']
  constructor
  · rw [exists_ofGrammar_iff, exists_ofGrammar_iff]
    exact Grammar.check_perm perm (none_twice'.trans none_twice.symm) start
  · intro p p' built built' allowPartial input file
    obtain ⟨grammar, rfl, -⟩ := ofGrammar_eq_ok_iff.mp built
    obtain ⟨grammar', start, -⟩ := ofGrammar_eq_ok_iff.mp built'
    rw [← grammar, ← grammar'] at perm
    exact entryPoints_congr (run_perm perm start input) allowPartial file

def lists : List (Rule String) := [
  { name := "list", body := .seq [.lit "[", .opt (.ref "items"), .lit "]"], cached := true },
  { name := "items"
    body := .seq [.ref "list", .star (.seq [.lit ",", .ref "list"])]
    fold := some fun children => .ok (String.ofList (children.flatMap Match.text))
    label := some "items" }]

def listParser : Parser String where
  grammar := .ofRules lists
  start := "list"
  accepted := by decide +kernel

theorem lists_reordered :
    (lists.map Rule.name).Nodup ∧ lists.reverse.Perm lists ∧
      ∃ p', ofGrammar (.ofRules lists.reverse) "list" = .ok p' ∧
        (p'.withPartial false).parse "[[],[[]],[]]" = .ok "[[],[[]],[]]" ∧
        (p'.withPartial false).parseFile "[[],]" "in.txt" =
          .error (.parse ⟨.expected ["["], ⟨4, 1, 5⟩, some "in.txt"⟩) := by
  have distinct : (lists.map Rule.name).Nodup := by decide
  have order : lists.reverse.Perm lists := lists.reverse_perm
  have built : ofGrammar (.ofRules lists) "list" = .ok listParser :=
    ofGrammar_eq_ok_iff.mpr ⟨rfl, rfl, rfl⟩
  obtain ⟨acceptance, alike⟩ := ruleOrder_irrelevant distinct order "list"
  obtain ⟨p', built'⟩ := acceptance.mpr ⟨_, built⟩
  obtain ⟨parsed, -, -⟩ := alike _ p' built built' false "[[],[[]],[]]" "in.txt"
  obtain ⟨-, refused, -⟩ := alike _ p' built built' false "[[],]" "in.txt"
  exact ⟨distinct, order, p', built', parsed.trans (by decide +kernel),
    refused.trans (by decide +kernel)⟩

end Parser

end Packrat
