import Mathlib.Data.List.Induction
import Packrat.Proofs.Grammar.Bodies
import Std.Data.HashMap

/-! Rules declared one after another, in a table that notes the place of each name beside them. Rules and
places are written apart and always agree: the first rule of a name stays where it is, whatever is
declared later, and of a later one only the name is noted. -/
namespace Packrat

variable {V : Type}

structure RuleTable (V : Type) where
  rules : Array (Rule V) := #[]
  places : Std.HashMap String Nat := {}
  duplicates : Array String := #[]

namespace RuleTable

/-- Declare a rule. Only the places are asked whether its name is taken. -/
def declare (t : RuleTable V) (r : Rule V) : RuleTable V :=
  if t.places.contains r.name then
    { t with duplicates := t.duplicates.push r.name }
  else
    { t with
      rules := t.rules.push r
      places := t.places.insert r.name t.rules.size }

def ofRules (rules : List (Rule V)) : RuleTable V := rules.foldl declare {}

def index? (t : RuleTable V) (name : String) : Option Nat := t.places[name]?

def find? (t : RuleTable V) (name : String) : Option (Option (Rule V)) :=
  (t.index? name).map (t.rules[·]?)

/-- The table has the rules of the grammar, and notes for each name where it stands among them. -/
structure Represents (t : RuleTable V) (g : Grammar V) : Prop where
  rules : t.rules.toList = g.rules
  index : ∀ name, t.index? name = g.index? name
  duplicates : t.duplicates.toList = g.duplicates

theorem contains_places (t : RuleTable V) (name : String) :
    t.places.contains name = (t.index? name).isSome := Std.HashMap.contains_eq_isSome_getElem?

theorem rules_declare (t : RuleTable V) (r : Rule V) :
    (t.declare r).rules.toList = t.rules.toList ++ if (t.index? r.name).isSome then [] else [r] := by
  rw [declare, contains_places]
  split <;> simp

theorem duplicates_declare (t : RuleTable V) (r : Rule V) :
    (t.declare r).duplicates.toList =
      t.duplicates.toList ++ if (t.index? r.name).isSome then [r.name] else [] := by
  rw [declare, contains_places]
  split <;> simp

theorem index?_declare (t : RuleTable V) (r : Rule V) (name : String) :
    (t.declare r).index? name =
      (t.index? name).or (if r.name = name then some t.rules.size else none) := by
  rw [declare, contains_places]
  cases noted : t.index? r.name with
  | none =>
    change (t.places.insert r.name t.rules.size)[name]? = _
    rw [Std.HashMap.getElem?_insert]
    by_cases named : r.name = name
    · subst named
      simp [noted]
    · simp [named, index?]
  | some place =>
    change t.index? name = _
    by_cases named : r.name = name
    · subst named
      simp [noted]
    · simp [named]

end RuleTable

namespace Grammar

variable {g g' : Grammar V} {declared : List (Rule V)} {name : String} {place : Nat}

def FirstAt (declared : List (Rule V)) (place : Nat) : Prop :=
  ∀ earlier < place, declared[earlier]?.map Rule.name ≠ declared[place]?.map Rule.name

instance : DecidablePred (FirstAt declared) :=
  fun place => inferInstanceAs (Decidable (∀ earlier < place, _ ≠ _))

/-- The rules declared at the chosen places, in the order of their declaration. -/
def declaredAt (declared : List (Rule V)) (chosen : Nat → Prop) [DecidablePred chosen] : List (Rule V) :=
  ((List.range declared.length).filter (chosen ·)).filterMap (declared[·]?)

section Lookup

theorem isSome_index? (g : Grammar V) (name : String) :
    (g.index? name).isSome = g.defines name := List.findIdx?_isSome

theorem index?_eq_some_iff :
    g.index? name = some place ↔ g.rules[place]?.map Rule.name = some name := by
  rw [index?, List.findIdx?_eq_some_iff_getElem]
  constructor
  · rintro ⟨inside, named, -⟩
    simpa [inside] using named
  · intro named
    obtain ⟨r, here, rfl⟩ := Option.map_eq_some_iff.mp named
    obtain ⟨inside, rfl⟩ := List.getElem?_eq_some_iff.mp here
    refine ⟨inside, by simp, fun earlier before => ?_⟩
    have apart := List.pairwise_iff_getElem.mp g.distinct earlier place
      (by simpa using before.trans inside) (by simpa using inside) before
    simpa using apart

/-- The place of a name is never beyond the rules. -/
theorem map_index? (g : Grammar V) (name : String) :
    (g.index? name).map (g.rules[·]?) = (g.find? name).map some := by
  rw [find?, List.find?_eq_bind_findIdx?_getElem?, ← index?]
  cases noted : g.index? name with
  | none => rfl
  | some place =>
    obtain ⟨r, here, -⟩ := Option.map_eq_some_iff.mp (index?_eq_some_iff.mp noted)
    simp [here]

/-- Rules added behind the others change nothing for a name that is taken. -/
theorem lookup_of_prefix (kept : g.rules <+: g'.rules) (defined : g.defines name) :
    g'.index? name = g.index? name ∧ g'.find? name = g.find? name := by
  obtain ⟨added, all⟩ := kept
  constructor
  · rw [index?, ← all, List.findIdx?_append]
    exact Option.or_of_isSome ((isSome_index? g name).trans defined)
  · rw [find?, ← all, List.find?_append]
    exact Option.or_of_isSome ((isSome_find? g name).trans defined)

end Lookup

section Add

theorem rules_add (g : Grammar V) (r : Rule V) :
    (g.add r).rules = g.rules ++ if g.defines r.name then [] else [r] := by
  unfold add
  split <;> simp [*]

theorem duplicates_add (g : Grammar V) (r : Rule V) :
    (g.add r).duplicates = g.duplicates ++ if g.defines r.name then [r.name] else [] := by
  unfold add
  split <;> simp [*]

/-- A name that is taken is not given to another rule. -/
theorem or_of_taken {α : Type} {held : Option α} {r : Rule V} (other : α)
    (holds : held.isSome = g.defines name) (taken : g.defines r.name) :
    held.or (if r.name = name then some other else none) = held := by
  by_cases named : r.name = name
  · exact Option.or_of_isSome (holds.trans (named ▸ taken))
  · rw [if_neg named, Option.or_none]

theorem index?_add (g : Grammar V) (r : Rule V) (name : String) :
    (g.add r).index? name =
      (g.index? name).or (if r.name = name then some g.rules.length else none) := by
  by_cases taken : g.defines r.name
  · rw [or_of_taken _ (isSome_index? g name) taken, index?, rules_add, if_pos taken, List.append_nil,
      ← index?]
  · rw [index?, rules_add, if_neg taken, List.findIdx?_append, ← index?, List.findIdx?_singleton]
    by_cases named : r.name = name <;> simp [named]

theorem find?_add (g : Grammar V) (r : Rule V) (name : String) :
    (g.add r).find? name = (g.find? name).or (if r.name = name then some r else none) := by
  by_cases taken : g.defines r.name
  · rw [or_of_taken _ (isSome_find? g name) taken, find?, rules_add, if_pos taken, List.append_nil,
      ← find?]
  · rw [find?, rules_add, if_neg taken, List.find?_append, ← find?, List.find?_singleton]
    simp

theorem rules_prefix (g : Grammar V) (rules : List (Rule V)) :
    g.rules <+: (rules.foldl add g).rules := by
  induction rules generalizing g with
  | nil => exact List.prefix_refl _
  | cons r rules ih =>
    have more : g.rules <+: (g.add r).rules := by
      rw [rules_add]
      exact List.prefix_append ..
    exact more.trans (ih (g.add r))

end Add

section Declared

theorem ofRules_append (declared later : List (Rule V)) :
    ofRules (declared ++ later) = later.foldl add (ofRules declared) := List.foldl_append

theorem ofRules_concat (declared : List (Rule V)) (r : Rule V) :
    ofRules (declared ++ [r]) = (ofRules declared).add r := ofRules_append declared [r]

theorem find?_ofRules (declared : List (Rule V)) (name : String) :
    (ofRules declared).find? name = declared.find? fun r => r.name == name := by
  induction declared using List.reverseRecOn with
  | nil => rfl
  | append_singleton declared r ih =>
    rw [ofRules_concat, find?_add, ih, List.find?_append, List.find?_singleton]
    simp

theorem defines_ofRules (declared : List (Rule V)) (name : String) :
    (ofRules declared).defines name ↔ name ∈ declared.map Rule.name := by
  rw [← isSome_find?, find?_ofRules, List.find?_isSome]
  simp

theorem firstAt_concat (r : Rule V) (before : place < declared.length) :
    FirstAt (declared ++ [r]) place ↔ FirstAt declared place := by
  have same (place : Nat) (inside : place < declared.length) :
      (declared ++ [r])[place]? = declared[place]? := List.getElem?_append_left inside
  refine forall₂_congr fun earlier sooner => ?_
  rw [same earlier (sooner.trans before), same place before]

theorem firstAt_last (declared : List (Rule V)) (r : Rule V) :
    FirstAt (declared ++ [r]) declared.length ↔ r.name ∉ declared.map Rule.name := by
  simp only [FirstAt, List.getElem?_concat_length, Option.map_some, List.mem_iff_getElem?,
    List.getElem?_map, not_exists]
  constructor
  · intro first earlier named
    have sooner : earlier < declared.length := by
      by_contra beyond
      simp [Nat.not_lt.mp beyond] at named
    exact first earlier sooner (by rwa [List.getElem?_append_left sooner])
  · intro fresh earlier sooner
    rw [List.getElem?_append_left sooner]
    exact fresh earlier

/-- One more declaration, with a choice of places that is the same before it. -/
theorem declaredAt_concat {chosen chosen' : Nat → Prop} [DecidablePred chosen] [DecidablePred chosen']
    (r : Rule V) (same : ∀ place < declared.length, (chosen' place ↔ chosen place)) :
    declaredAt (declared ++ [r]) chosen' =
      declaredAt declared chosen ++ if chosen' declared.length then [r] else [] := by
  have before : ((List.range declared.length).filter (chosen' ·)).filterMap ((declared ++ [r])[·]?) =
      declaredAt declared chosen := by
    rw [declaredAt, List.filter_congr fun place inside =>
      decide_eq_decide.mpr (same place (List.mem_range.mp inside))]
    refine List.filterMap_congr fun place kept => List.getElem?_append_left ?_
    exact List.mem_range.mp (List.mem_of_mem_filter kept)
  rw [declaredAt, List.length_append, List.length_singleton, List.range_succ, List.filter_append,
    List.filterMap_append, before]
  congr 1
  by_cases here : chosen' declared.length <;> simp [here]

/-- What is kept of each declaration: the rule if it is the first of its name, else the name. The
induction takes the last declaration off, which leaves the places of all others as they are. -/
theorem ofRules_kept (declared : List (Rule V)) :
    (ofRules declared).rules = declaredAt declared (FirstAt declared) ∧
    (ofRules declared).duplicates = (declaredAt declared (¬ FirstAt declared ·)).map Rule.name := by
  induction declared using List.reverseRecOn with
  | nil => exact ⟨rfl, rfl⟩
  | append_singleton declared r ih =>
    have last : FirstAt (declared ++ [r]) declared.length ↔ ¬ (ofRules declared).defines r.name :=
      (firstAt_last declared r).trans (not_congr (defines_ofRules declared r.name).symm)
    rw [ofRules_concat, rules_add, duplicates_add, ih.1, ih.2,
      declaredAt_concat r fun _ before => firstAt_concat r before,
      declaredAt_concat r fun _ before => not_congr (firstAt_concat r before)]
    by_cases taken : (ofRules declared).defines r.name <;> simp [last, taken]

end Declared

section Table

variable {t : RuleTable V}

/-- The table goes on as the grammar does, though it asks its places whether a name is taken, where the
grammar looks through its rules. -/
theorem represents_add (same : t.Represents g) (r : Rule V) : (t.declare r).Represents (g.add r) := by
  have asked : (t.index? r.name).isSome = g.defines r.name := by rw [same.index, isSome_index?]
  exact {
    rules := by rw [RuleTable.rules_declare, rules_add, asked, same.rules]
    index := fun name => by
      rw [RuleTable.index?_declare, index?_add, same.index, ← same.rules, Array.length_toList]
    duplicates := by rw [RuleTable.duplicates_declare, duplicates_add, asked, same.duplicates] }

theorem represents_ofRules (declared : List (Rule V)) :
    (RuleTable.ofRules declared).Represents (ofRules declared) := by
  induction declared using List.reverseRecOn with
  | nil => exact ⟨rfl, fun _ => Std.HashMap.getElem?_empty, rfl⟩
  | append_singleton declared r ih =>
    rw [ofRules_concat, RuleTable.ofRules, List.foldl_concat]
    exact represents_add ih r

theorem find?_of_represents (same : t.Represents g) (name : String) :
    t.find? name = (g.find? name).map some := by
  rw [RuleTable.find?, same.index, ← map_index?]
  simp only [← same.rules, Array.getElem?_toList]

end Table

/-- Whatever is declared, the grammar keeps the first rule of each name, in the order of declaration. A
name has the place where its rule stands, and leads to the first rule declared under it. The names of all
other declarations are noted, in order. A table that asks its own places holds the same, and no name leads
beyond its rules. No rule is replaced or moved by what is declared later. -/
theorem declarations_kept (declared : List (Rule V)) :
    (ofRules declared).rules = declaredAt declared (FirstAt declared) ∧
    ((ofRules declared).rules.map Rule.name).Nodup ∧
    (∀ name place, (ofRules declared).index? name = some place ↔
      (ofRules declared).rules[place]?.map Rule.name = some name) ∧
    (∀ name, (ofRules declared).find? name = declared.find? fun r => r.name == name) ∧
    (ofRules declared).duplicates = (declaredAt declared (¬ FirstAt declared ·)).map Rule.name ∧
    (RuleTable.ofRules declared).Represents (ofRules declared) ∧
    (∀ name, (RuleTable.ofRules declared).find? name = ((ofRules declared).find? name).map some) ∧
    ∀ later, (ofRules declared).rules <+: (ofRules (declared ++ later)).rules ∧
      ∀ name, (ofRules declared).defines name →
        (ofRules (declared ++ later)).index? name = (ofRules declared).index? name ∧
        (ofRules (declared ++ later)).find? name = (ofRules declared).find? name := by
  obtain ⟨rules, duplicates⟩ := ofRules_kept declared
  have same := represents_ofRules declared
  refine ⟨rules, (ofRules declared).distinct, fun _ _ => index?_eq_some_iff, find?_ofRules declared,
    duplicates, same, find?_of_represents same, fun later => ?_⟩
  have kept : (ofRules declared).rules <+: (ofRules (declared ++ later)).rules := by
    rw [ofRules_append]
    exact rules_prefix (ofRules declared) later
  exact ⟨kept, fun _ => lookup_of_prefix kept⟩

def amounts : List (Rule String) := [
  { name := "amount", body := .plus (.ref "digit") },
  { name := "digit", body := .charClass (CharClass.empty.addRange '0' '9'), cached := true },
  { name := "amount", body := .lit "none", silent := true }]

theorem amounts_kept :
    let later : List (Rule String) :=
      [{ name := "sign", body := .lit "-" }, { name := "digit", body := .lit "0" }]
    (ofRules amounts).rules = amounts.take 2 ∧ (ofRules amounts).duplicates = ["amount"] ∧
      (ofRules amounts).defines "digit" ∧ (ofRules amounts).index? "digit" = some 1 ∧
      (RuleTable.ofRules amounts).find? "digit" = some amounts[1]? ∧
      (ofRules (amounts ++ later)).index? "digit" = some 1 ∧
      (ofRules (amounts ++ later)).find? "digit" = amounts[1]? := by
  intro later
  obtain ⟨rules, -, index, found, duplicates, -, within, apart⟩ := declarations_kept amounts
  obtain ⟨-, unmoved⟩ := apart later
  have defined : (ofRules amounts).defines "digit" := by decide
  have placed : (ofRules amounts).index? "digit" = some 1 := (index _ _).mpr (by decide)
  have digit : (ofRules amounts).find? "digit" = amounts[1]? := (found _).trans rfl
  refine ⟨rules.trans rfl, duplicates.trans (by decide), defined, placed, ?_, ?_, ?_⟩
  · rw [within, digit]
    rfl
  · rw [(unmoved _ defined).1, placed]
  · rw [(unmoved _ defined).2, digit]

end Grammar

end Packrat
