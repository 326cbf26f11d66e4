import Mathlib.Data.List.Forall2
import Packrat.Proofs.Semantics

/-! Sessions in which evaluation goes alike: their rules have the same bodies and labels, and the same
input follows at places that correspond. Whatever is derived in one has its like in the other. Which
places and which matches count as alike is a matter of the use. -/
namespace Packrat

variable {V W : Type}

/-- What counts as alike in two evaluations. -/
structure Likeness (V W : Type) where
  place : Position → Position → Prop
  /-- Matches in the order of the input. There need not be as many in both lists. -/
  made : List (Match V) → List (Match W) → Prop
  offsets : ∀ {pos pos' stop stop' : Position}, place pos pos' → place stop stop' →
    pos.offset + stop'.offset = stop.offset + pos'.offset
  nil : made [] []
  append : ∀ {first first' second second'}, made first first' → made second second' →
    made (first ++ second) (first' ++ second')

variable {l : Likeness V W}

structure Miss.Alike (l : Likeness V W) (m m' : Miss) : Prop where
  place : l.place m.place m'.place
  label : m'.label = m.label

variable {pos pos' : Position}

namespace Failures

structure Alike (l : Likeness V W) (f f' : Failures) : Prop where
  furthest : Option.Rel l.place f.furthest f'.furthest
  expected : f'.expected = f.expected
  suppressed : f'.suppressed = f.suppressed

theorem alike_empty : empty.Alike l empty := ⟨.none, rfl, rfl⟩

theorem Alike.mark {f f' : Failures} (alike : f.Alike l f') (here : l.place pos pos')
    (label : String) : (f.mark pos label).Alike l (f'.mark pos' label) := by
  obtain ⟨far, labels, depth⟩ := f
  obtain ⟨far', labels', depth'⟩ := f'
  obtain ⟨furthest, rfl, rfl⟩ := alike
  by_cases suppressed : 0 < depth'
  · rw [mark_of_suppressed suppressed, mark_of_suppressed suppressed]
    exact ⟨furthest, rfl, rfl⟩
  · obtain rfl : depth' = 0 := by omega
    cases furthest with
    | none => exact ⟨.some here, rfl, rfl⟩
    | @some far far' there =>
      have apart := l.offsets here there
      rcases Nat.lt_trichotomy pos.offset far.offset with before | level | beyond
      · rw [mark_before rfl before, mark_before rfl (by omega)]
        exact ⟨.some there, rfl, rfl⟩
      · rw [mark_at rfl rfl level, mark_at rfl rfl (by omega)]
        exact ⟨.some there, rfl, rfl⟩
      · have beyond' : pos'.offset > far'.offset := by omega
        rw [mark_beyond rfl (by simpa using beyond), mark_beyond rfl (by simpa using beyond')]
        exact ⟨.some here, rfl, rfl⟩

theorem Alike.marks {f f' : Failures} {misses misses' : List Miss} (alike : f.Alike l f')
    (missed : List.Forall₂ (Miss.Alike l) misses misses') :
    (f.marks misses).Alike l (f'.marks misses') := by
  induction missed generalizing f f' with
  | nil => exact alike
  | cons first _ ih =>
    rw [marks_cons, marks_cons, first.label]
    exact ih (alike.mark first.place _)

end Failures

theorem Miss.alike_furthest? {misses misses' : List Miss}
    (missed : List.Forall₂ (Miss.Alike l) misses misses') :
    Option.Rel l.place (furthest? misses) (furthest? misses') := by
  have recorded := (Failures.alike_empty (l := l)).marks missed
  simp only [Failures.marks_empty] at recorded
  exact recorded.furthest

inductive Abort.Alike (l : Likeness V W) : Abort → Abort → Prop where
  | rejected {pos pos' : Position} {reason : String} : l.place pos pos' → Alike l (.rejected reason pos) (.rejected reason pos')
  | undefinedRule (name : String) : Alike l (.undefinedRule name) (.undefinedRule name)
  | inconsistent (rule reason : String) : Alike l (.inconsistent rule reason) (.inconsistent rule reason)

namespace Verdict

/-- The verdicts differ in places and matches only, and these are alike. -/
inductive Alike (l : Likeness V W) : Verdict V → Verdict W → Prop where
  | matched : l.place stop stop' → l.made made made' →
      List.Forall₂ (Miss.Alike l) misses misses' →
      Alike l (.matched stop made misses) (.matched stop' made' misses')
  | failed : List.Forall₂ (Miss.Alike l) misses misses' → Alike l (.failed misses) (.failed misses')
  | aborted : why.Alike l why' → Alike l (.aborted why) (.aborted why')

variable {v : Verdict V} {v' : Verdict W} {made : List (Match V)} {made' : List (Match W)}
  {misses misses' : List Miss}

theorem Alike.isMatched_eq (alike : v.Alike l v') : v'.isMatched = v.isMatched := by
  cases alike <;> rfl

theorem Alike.isFailed_eq (alike : v.Alike l v') : v'.isFailed = v.isFailed := by
  cases alike <;> rfl

theorem Alike.after (alike : v.Alike l v') (first : l.made made made')
    (missed : List.Forall₂ (Miss.Alike l) misses misses') :
    (v.after made misses).Alike l (v'.after made' misses') := by
  cases alike with
  | matched stop others missed' =>
    exact .matched stop (l.append first others) (List.rel_append missed missed')
  | failed missed' => exact .failed (List.rel_append missed missed')
  | aborted why => exact .aborted why

theorem Alike.ahead (alike : v.Alike l v') (here : l.place pos pos') :
    (v.ahead pos).Alike l (v'.ahead pos') := by
  cases alike with
  | matched => exact .matched here l.nil .nil
  | failed => exact .failed .nil
  | aborted why => exact .aborted why

theorem Alike.notAhead (alike : v.Alike l v') (here : l.place pos pos') :
    (v.notAhead pos).Alike l (v'.notAhead pos') := by
  cases alike with
  | matched => exact .failed .nil
  | failed => exact .matched here l.nil .nil
  | aborted why => exact .aborted why

theorem alike_ofCount (least count : Nat) (here : l.place pos pos') (kept : l.made made made')
    (missed : List.Forall₂ (Miss.Alike l) misses misses') :
    (ofCount least count pos made misses).Alike l (ofCount least count pos' made' misses') := by
  simp only [ofCount]
  split
  · exact .matched here kept missed
  · exact .failed missed

end Verdict

namespace Rule

variable [Value V] [Value W]

/-- The rules have the same name, body and label, and from matches that are alike they make such. -/
structure Alike (l : Likeness V W) (r : Rule V) (r' : Rule W) : Prop where
  name : r'.name = r.name
  body : r'.body = r.body
  label : r'.label = r.label
  silence : ∀ {made made'}, l.made made made' →
    l.made (if r.silent then [] else made) (if r'.silent then [] else made')
  value : ∀ {pos pos' text made made' value}, l.place pos pos' → l.made made made' →
    r.value text made = .ok value → ∃ value', r'.value text made' = .ok value' ∧
      l.made [⟨text, value, pos⟩] [⟨text, value', pos'⟩]
  error : ∀ {text made made' e}, l.made made made' → r.value text made = .error e →
    r'.value text made' = .error e

variable {r : Rule V} {r' : Rule W}

theorem Alike.tells (alike : r.Alike l r') (here : l.place pos pos') {misses misses' : List Miss}
    (missed : List.Forall₂ (Miss.Alike l) misses misses') :
    List.Forall₂ (Miss.Alike l) (r.tells pos misses) (r'.tells pos' misses') := by
  simp only [Rule.tells, alike.label]
  cases r.label with
  | none => exact missed
  | some label =>
    refine .cons ⟨?_, rfl⟩ .nil
    have furthest := Miss.alike_furthest? missed
    generalize Miss.furthest? misses = far at furthest ⊢
    generalize Miss.furthest? misses' = far' at furthest ⊢
    cases furthest with
    | none => exact here
    | some there => exact there

theorem Alike.refusal (alike : r.Alike l r') (here : l.place pos pos') (e : FoldError) :
    (r.refusal pos e).Alike l (r'.refusal pos' e) := by
  cases e with
  | reject => exact .rejected here
  | inconsistent =>
    simp only [Rule.refusal, alike.name]
    exact .inconsistent ..

end Rule

/-- Where two grammars agree on some part of each rule, rules of one name are related if that part is
all it takes. -/
theorem Grammar.rel_find? {κ : Type} {g : Grammar V} {g' : Grammar W} {name : String} {key : Rule V → κ}
    {key' : Rule W → κ} {R : Rule V → Rule W → Prop}
    (same : (g'.find? name).map key' = (g.find? name).map key)
    (related : ∀ r r', g.find? name = some r → g'.find? name = some r' → key' r' = key r → R r r') :
    Option.Rel R (g.find? name) (g'.find? name) := by
  cases here : g.find? name with
  | none =>
    rw [here, Option.map_none, Option.map_eq_none_iff] at same
    rw [same]
    exact .none
  | some r =>
    rw [here, Option.map_some, Option.map_eq_some_iff] at same
    obtain ⟨r', there, agree⟩ := same
    rw [there]
    exact .some (related r r' here there agree)

theorem Grammar.rel_find?_self {g : Grammar V} {R : Rule V → Rule V → Prop}
    (related : ∀ r ∈ g.rules, R r r) (name : String) : Option.Rel R (g.find? name) (g.find? name) := by
  cases found : g.find? name with
  | none => exact .none
  | some r => exact .some (related r (List.mem_of_find?_eq_some found))

variable [Value V] [Value W]

structure Session.Alike (l : Likeness V W) (s : Session V) (s' : Session W) : Prop where
  rest : ∀ {pos pos'}, l.place pos pos' → s'.source.rest? pos' = s.source.rest? pos
  advance : ∀ {pos pos' text rest}, l.place pos pos' → s.source.rest? pos = some (text ++ rest) →
    l.place (pos.advanceOver text) (pos'.advanceOver text)
  leaf : ∀ {pos pos'} (text : List Char), l.place pos pos' →
    l.made [⟨text, Value.ofText text, pos⟩] [⟨text, Value.ofText text, pos'⟩]
  rules : ∀ name, Option.Rel (Rule.Alike l) (s.grammar.find? name) (s'.grammar.find? name)

namespace Session.Alike

variable {s : Session V} {s' : Session W}

theorem slice (alike : s.Alike l s') {stop stop' : Position} (here : l.place pos pos')
    (there : l.place stop stop') : s'.source.slice? pos' stop' = s.source.slice? pos stop := by
  have apart := l.offsets here there
  have order : pos'.offset ≤ stop'.offset ↔ pos.offset ≤ stop.offset := by omega
  have size : stop'.offset - pos'.offset = stop.offset - pos.offset := by omega
  simp only [Source.slice?, order, size, alike.rest here]

theorem exists_rule (alike : s.Alike l s') {name : String} {r : Rule V}
    (found : s.grammar.find? name = some r) :
    ∃ r', s'.grammar.find? name = some r' ∧ r.Alike l r' := by
  have rule := alike.rules name
  rw [found] at rule
  generalize s'.grammar.find? name = found' at rule ⊢
  cases rule with
  | some same => exact ⟨_, rfl, same⟩

theorem missing (alike : s.Alike l s') {name : String} (missing : s.grammar.find? name = none) :
    s'.grammar.find? name = none := by
  have rule := alike.rules name
  rw [missing] at rule
  generalize s'.grammar.find? name = found' at rule ⊢
  cases rule
  rfl

end Session.Alike

variable {s : Session V} {s' : Session W} {t : Task} {v : Verdict V}

/-- What is derived in a session has its like in every session that is alike, at every place that
corresponds. -/
theorem Derives.alike (alike : s.Alike l s') (d : Derives s t pos v) (here : l.place pos pos') :
    ∃ v', Derives s' t pos' v' ∧ v.Alike l v' := by
  induction d generalizing pos' with
  | literal rest size =>
    exact ⟨_, .literal ((alike.rest here).trans rest) size,
      .matched (alike.advance here rest) (alike.leaf _ here) .nil⟩
  | literal_failed rest none =>
    exact ⟨_, .literal_failed ((alike.rest here).trans rest) none, .failed (.cons ⟨here, rfl⟩ .nil)⟩
  | @charClass _ c _ _ rest member =>
    exact ⟨_, .charClass ((alike.rest here).trans rest) member,
      .matched (alike.advance here rest) (alike.leaf _ here) .nil⟩
  | charClass_failed rest apart =>
    exact ⟨_, .charClass_failed ((alike.rest here).trans rest) apart,
      .failed (.cons ⟨here, rfl⟩ .nil)⟩
  | endOfInput rest =>
    exact ⟨_, .endOfInput ((alike.rest here).trans rest), .matched here l.nil .nil⟩
  | endOfInput_failed rest =>
    exact ⟨_, .endOfInput_failed ((alike.rest here).trans rest), .failed (.cons ⟨here, rfl⟩ .nil)⟩
  | seq_nil => exact ⟨_, .seq_nil, .matched here l.nil .nil⟩
  | seq_cons _ _ ih ih' =>
    obtain ⟨_, first, matched⟩ := ih here
    cases matched with
    | matched next made missed =>
      obtain ⟨_, others, same⟩ := ih' next
      exact ⟨_, .seq_cons first others, same.after made missed⟩
  | seq_stop _ stop ih =>
    obtain ⟨_, first, same⟩ := ih here
    exact ⟨_, .seq_stop first (same.isMatched_eq.trans stop), same⟩
  | choice_nil => exact ⟨_, .choice_nil, .failed .nil⟩
  | choice_take _ took ih =>
    obtain ⟨_, first, same⟩ := ih here
    exact ⟨_, .choice_take first (same.isFailed_eq.trans took), same⟩
  | choice_next _ _ ih ih' =>
    obtain ⟨_, first, failed⟩ := ih here
    cases failed with
    | failed missed =>
      obtain ⟨_, others, same⟩ := ih' here
      exact ⟨_, .choice_next first others, same.after l.nil missed⟩
  | repeated _ ih =>
    obtain ⟨_, rounds, same⟩ := ih here
    exact ⟨_, .repeated rounds, same⟩
  | rounds_full full =>
    exact ⟨_, .rounds_full full, Verdict.alike_ofCount _ _ here l.nil .nil⟩
  | rounds_failed room _ ih =>
    obtain ⟨_, body, failed⟩ := ih here
    cases failed with
    | failed missed =>
      exact ⟨_, .rounds_failed room body, Verdict.alike_ofCount _ _ here l.nil missed⟩
  | rounds_still room _ still ih =>
    obtain ⟨_, body, matched⟩ := ih here
    cases matched with
    | matched next made missed =>
      have apart := l.offsets here next
      exact ⟨_, .rounds_still room body (by omega), Verdict.alike_ofCount _ _ here made missed⟩
  | rounds_more room _ moved _ ih ih' =>
    obtain ⟨_, body, matched⟩ := ih here
    cases matched with
    | matched next made missed =>
      have apart := l.offsets here next
      obtain ⟨_, others, same⟩ := ih' next
      exact ⟨_, .rounds_more room body (by omega) others, same.after made missed⟩
  | rounds_aborted room _ ih =>
    obtain ⟨_, body, aborted⟩ := ih here
    cases aborted with
    | aborted why => exact ⟨_, .rounds_aborted room body, .aborted why⟩
  | ahead _ ih =>
    obtain ⟨_, body, same⟩ := ih here
    exact ⟨_, .ahead body, same.ahead here⟩
  | notAhead _ ih =>
    obtain ⟨_, body, same⟩ := ih here
    exact ⟨_, .notAhead body, same.notAhead here⟩
  | ref found _ ih =>
    obtain ⟨r', found', rule⟩ := alike.exists_rule found
    obtain ⟨_, call, same⟩ := ih here
    refine ⟨_, .ref found' call, ?_⟩
    cases same with
    | matched stop made missed => exact .matched stop (rule.silence made) missed
    | failed missed => exact .failed missed
    | aborted why => exact .aborted why
  | ref_undefined missing =>
    exact ⟨_, .ref_undefined (alike.missing missing), .aborted (.undefinedRule _)⟩
  | call_matched found _ slice value ih =>
    obtain ⟨r', found', rule⟩ := alike.exists_rule found
    obtain ⟨_, body, matched⟩ := ih here
    cases matched with
    | matched stop made missed =>
      obtain ⟨value', value, made'⟩ := rule.value here made value
      exact ⟨_, .call_matched found' (rule.body ▸ body) ((alike.slice here stop).trans slice) value,
        .matched stop made' missed⟩
  | call_refused found _ slice error ih =>
    obtain ⟨r', found', rule⟩ := alike.exists_rule found
    obtain ⟨_, body, matched⟩ := ih here
    cases matched with
    | matched stop made missed =>
      exact ⟨_, .call_refused found' (rule.body ▸ body) ((alike.slice here stop).trans slice)
        (rule.error made error), .aborted (rule.refusal here _)⟩
  | call_failed found _ ih =>
    obtain ⟨r', found', rule⟩ := alike.exists_rule found
    obtain ⟨_, body, failed⟩ := ih here
    cases failed with
    | failed missed =>
      exact ⟨_, .call_failed found' (rule.body ▸ body), .failed (rule.tells here missed)⟩
  | call_aborted found _ ih =>
    obtain ⟨r', found', rule⟩ := alike.exists_rule found
    obtain ⟨_, body, aborted⟩ := ih here
    cases aborted with
    | aborted why => exact ⟨_, .call_aborted found' (rule.body ▸ body), .aborted why⟩

section SamePlace

/-! Two sessions over one source can be compared place for place. -/

variable (same : l.place = Eq)

include same

omit [Value V] [Value W] in
theorem Miss.Alike.eq {m m' : Miss} (alike : m.Alike l m') : m = m' := by
  obtain ⟨place, label⟩ := m
  obtain ⟨place', label'⟩ := m'
  obtain ⟨here, spelled⟩ := alike
  rw [same] at here
  obtain rfl : place = place' := here
  obtain rfl : label' = label := spelled
  rfl

omit [Value V] [Value W] in
theorem Miss.all_eq {misses misses' : List Miss} (missed : List.Forall₂ (Miss.Alike l) misses misses') :
    misses = misses' := by
  rw [← List.forall₂_eq_eq_eq]
  exact missed.imp fun _ _ => Miss.Alike.eq same

theorem Session.alike_of_source (source : s'.source = s.source)
    (leaf : ∀ pos text, l.made [⟨text, Value.ofText text, pos⟩] [⟨text, Value.ofText text, pos⟩])
    (rules : ∀ name, Option.Rel (Rule.Alike l) (s.grammar.find? name) (s'.grammar.find? name)) :
    s.Alike l s' where
  rest := by
    rw [same, source]
    rintro pos _ rfl
    rfl
  advance := by
    rw [same]
    rintro pos _ text rest rfl _
    rfl
  leaf := by
    rw [same]
    rintro pos _ text rfl
    exact leaf pos text
  rules

end SamePlace

section Identity

theorem Likeness.offsets_of_eq {pos pos' stop stop' : Position} (here : pos = pos') (there : stop = stop') :
    pos.offset + stop'.offset = stop.offset + pos'.offset := by
  rw [here, there]
  exact Nat.add_comm ..

def Likeness.identity (V : Type) : Likeness V V where
  place := Eq
  made := Eq
  offsets := offsets_of_eq
  nil := rfl
  append := by
    rintro _ _ _ _ rfl rfl
    rfl

omit [Value V] in
theorem Verdict.Alike.eq {v v' : Verdict V} (alike : v.Alike (.identity V) v') : v' = v := by
  cases alike with
  | matched stop made missed =>
    obtain rfl : _ = _ := stop
    obtain rfl : _ = _ := made
    rw [Miss.all_eq rfl missed]
  | failed missed => rw [Miss.all_eq rfl missed]
  | aborted why =>
    cases why with
    | rejected here =>
      obtain rfl : _ = _ := here
      rfl
    | undefinedRule | inconsistent => rfl

/-- How a rule is cached and noted has no part in what it means. -/
theorem Rule.alike_identity {r r' : Rule V} (name : r'.name = r.name) (body : r'.body = r.body)
    (fold : r'.fold = r.fold) (label : r'.label = r.label) (silent : r'.silent = r.silent) :
    r.Alike (.identity V) r' where
  name
  body
  label
  silence := by
    rintro made _ rfl
    rw [silent]
    rfl
  value := by
    rintro pos _ text made _ value rfl rfl ok
    exact ⟨value, by rwa [Rule.value, fold], rfl⟩
  error := by
    rintro text made _ e rfl refused
    rwa [Rule.value, fold]

/-- Sessions over one source, whose rules mean the same, derive the same. -/
theorem Derives.congr {s s' : Session V} {v : Verdict V} (source : s'.source = s.source)
    (rules : ∀ name, Option.Rel (Rule.Alike (.identity V)) (s.grammar.find? name)
      (s'.grammar.find? name)) (d : Derives s t pos v) : Derives s' t pos v := by
  have alike := Session.alike_of_source (l := .identity V) rfl source (fun _ _ => rfl) rules
  obtain ⟨v', d', same⟩ := d.alike alike rfl
  rwa [← same.eq]

end Identity

end Packrat
