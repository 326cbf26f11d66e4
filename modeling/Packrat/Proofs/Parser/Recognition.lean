import Packrat.Proofs.Parser
import Packrat.Proofs.Semantics.Aborts

/-! What an input is recognised as does not depend on values: folds that never give an error, silent
rules and notes in the journal have no part in whether a parse matches, where it ends and which error
it reports. -/
namespace Packrat

variable {V W : Type}

/-- The part of a rule that decides what it recognises. -/
def Rule.outline (r : Rule V) : String × Expr × Option String := (r.name, r.body, r.label)

def Grammar.outline (g : Grammar V) : List (String × Expr × Option String) := g.rules.map Rule.outline

/-- Matches are not compared, nor how many there are. -/
def Likeness.recognition (V W : Type) : Likeness V W where
  place := Eq
  made _ _ := True
  offsets := offsets_of_eq
  nil := trivial
  append _ _ := trivial

theorem Grammar.find?_outline (g : Grammar V) (name : String) :
    (g.find? name).map Rule.outline = g.outline.find? fun o => o.1 == name := by
  rw [outline, List.find?_map]
  rfl

theorem Rule.alike_of_outline [Value V] [Value W] {r : Rule V} {r' : Rule W}
    (outline : r'.outline = r.outline) (permissive : r.Permissive) (permissive' : r'.Permissive) :
    r.Alike (.recognition V W) r' := by
  simp only [Rule.outline, Prod.mk.injEq] at outline
  obtain ⟨name, body, label⟩ := outline
  exact {
    name
    body
    label
    silence := fun _ => trivial
    value := by
      rintro pos _ text made made' value rfl - -
      obtain ⟨value', ok⟩ := permissive'.exists_value text made'
      exact ⟨value', ok, trivial⟩
    error := by
      rintro text made made' e - refused
      obtain ⟨value, ok⟩ := permissive.exists_value text made
      cases refused.symm.trans ok }

namespace Parser

/-- The parses matched and left the same input over, or failed with the same error. -/
inductive SameRecognition : Except Error (Parsed V) → Except Error (Parsed W) → Prop where
  | matched (value : V) (value' : W) (unconsumed : String) :
      SameRecognition (.ok ⟨value, unconsumed⟩) (.ok ⟨value', unconsumed⟩)
  | failed (e : ParseError) : SameRecognition (.error (.parse e)) (.error (.parse e))

variable [Value V] [Value W] {p : Parser V} {p' : Parser W}

theorem alike_of_outline (outline : p'.grammar.outline = p.grammar.outline)
    (permissive : p.grammar.Permissive) (permissive' : p'.grammar.Permissive) (input : String) :
    (Session.ofText p.grammar input.toList).Alike (.recognition V W)
      (Session.ofText p'.grammar input.toList) := by
  refine Session.alike_of_source rfl rfl (fun _ _ => trivial) fun name => ?_
  have outlines : (p'.grammar.find? name).map Rule.outline = (p.grammar.find? name).map Rule.outline := by
    rw [Grammar.find?_outline, Grammar.find?_outline, outline]
  refine Grammar.rel_find? outlines fun r r' here there same => ?_
  exact Rule.alike_of_outline same (permissive r (List.mem_of_find?_eq_some here))
    (permissive' r' (List.mem_of_find?_eq_some there))

/-- Two parsers recognise the same if their rules have the same names, bodies and labels in the same
order and none of their folds gives an error, whatever their values are. -/
theorem recognition_valueless (outline : p'.grammar.outline = p.grammar.outline)
    (start : p'.start = p.start) (permissive : p.grammar.Permissive)
    (permissive' : p'.grammar.Permissive) (input : String) (file : Option String)
    (allowPartial : Bool) :
    SameRecognition (p.run input file allowPartial).result
      (p'.run input file allowPartial).result := by
  obtain ⟨v, d, answer⟩ := p.run_answer input file allowPartial
  obtain ⟨v', d', answer'⟩ := p'.run_answer input file allowPartial
  obtain ⟨v'', d'', alike⟩ := d.alike (alike_of_outline outline permissive permissive' input) rfl
  rw [start] at d'
  obtain rfl := d''.unique d'
  rw [answer, answer']
  cases alike with
  | matched stop made missed =>
    obtain rfl : _ = _ := stop
    obtain ⟨value, rest, cut, ends⟩ := d.answer_of_matched
    obtain ⟨value', rest', cut', ends'⟩ := d''.answer_of_matched
    obtain rfl : rest' = rest := Option.some.inj (cut'.symm.trans cut)
    simp only [Session.ofText] at ends ends'
    rw [ends, ends']
    split
    · exact .matched value value' _
    · exact .failed _
  | failed missed =>
    rw [Miss.all_eq rfl missed]
    exact .failed _
  | aborted =>
    obtain ⟨name, used, missing, -⟩ := d.undefined_of_aborted p.accepted permissive
    obtain rfl := List.mem_singleton.mp used
    cases missing.symm.trans (Grammar.defines_of_check p.accepted)

def settingRules : List (Rule String) := [
  { name := "settings"
    body := .seq [.ref "setting", .star (.seq [.ref "comma", .ref "setting"]), .endOfInput]
    fold := some fun made => .ok (" ".intercalate (made.map Match.value)) },
  { name := "setting"
    body := .seq [.ref "name", .opt (.seq [.lit "=", .ref "name"])]
    fold := some fun made => .ok (String.ofList (made.flatMap Match.text))
    cached := true },
  { name := "comma", body := .lit ",", silent := true },
  { name := "name"
    body := .plus (.charClass (CharClass.empty.addRange 'a' 'z'))
    label := some "name"
    trace := .all }]

def bareRules : List (Rule Unit) := [
  { name := "settings"
    body := .seq [.ref "setting", .star (.seq [.ref "comma", .ref "setting"]), .endOfInput] },
  { name := "setting", body := .seq [.ref "name", .opt (.seq [.lit "=", .ref "name"])] },
  { name := "comma", body := .lit "," },
  { name := "name"
    body := .plus (.charClass (CharClass.empty.addRange 'a' 'z'))
    label := some "name"
    silent := true
    cached := true }]

def settings : Parser String where
  grammar := .ofRules settingRules
  start := "settings"
  accepted := by decide +kernel

def bareSettings : Parser Unit where
  grammar := .ofRules bareRules
  start := "settings"
  accepted := by decide +kernel

theorem settings_recognised :
    bareSettings.grammar.outline = settings.grammar.outline ∧ bareSettings.start = settings.start ∧
      settings.grammar.Permissive ∧ bareSettings.grammar.Permissive ∧
      (settings.run "a=b,c" none false).result = .ok ⟨"a=b c", ""⟩ ∧
      (bareSettings.run "a=b,c" none false).result = .ok ⟨(), ""⟩ ∧
      (bareSettings.run "a=b,=" none false).result =
        .error (.parse ⟨.expected ["name"], ⟨4, 1, 5⟩, none⟩) := by
  have outline : bareSettings.grammar.outline = settings.grammar.outline := rfl
  have permissive : settings.grammar.Permissive :=
    Grammar.permissive_ofRules (by simp [settingRules, Rule.Permissive])
  have permissive' : bareSettings.grammar.Permissive :=
    Grammar.permissive_ofRules (by simp [bareRules, Rule.Permissive])
  have recognised := recognition_valueless outline rfl permissive permissive'
  have matched : (settings.run "a=b,c" none false).result = .ok ⟨"a=b c", ""⟩ := by decide +kernel
  have failed : (settings.run "a=b,=" none false).result =
      .error (.parse ⟨.expected ["name"], ⟨4, 1, 5⟩, none⟩) := by decide +kernel
  have same := recognised "a=b,c" none false
  have same' := recognised "a=b,=" none false
  rw [matched] at same
  rw [failed] at same'
  refine ⟨outline, rfl, permissive, permissive', matched, ?_, ?_⟩
  · generalize (bareSettings.run "a=b,c" none false).result = result at same ⊢
    cases same
    rfl
  · generalize (bareSettings.run "a=b,=" none false).result = result at same' ⊢
    cases same'
    rfl

end Parser

end Packrat
