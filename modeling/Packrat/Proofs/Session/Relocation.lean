import Packrat.Proofs.Semantics.Aborts
import Packrat.Proofs.Semantics.Likeness
import Packrat.Proofs.Session.Termination

/-! Evaluation looks at the input from its place on only. Put before the input, a text shifts what an
evaluation comes to by its size and changes nothing else. -/
namespace Packrat

variable {V : Type} {before text : List Char} {pos pos' : Position}

/-- `pos'` is a place of the text, and `pos` is where it lies with `before` in front of the text. -/
def Position.Shifted (before text : List Char) (pos pos' : Position) : Prop :=
  ∃ passed, passed <+: text ∧ pos = start.advanceOver (before ++ passed) ∧
    pos' = start.advanceOver passed

namespace Position.Shifted

theorem offset (shifted : Shifted before text pos pos') :
    pos.offset = pos'.offset + Text.byteSize before := by
  obtain ⟨passed, -, rfl, rfl⟩ := shifted
  simp only [offset_advanceOver, Text.byteSize_append]
  omega

theorem start (before text : List Char) :
    Shifted before text (start.advanceOver before) Position.start :=
  ⟨[], List.nil_prefix, by simp, rfl⟩

theorem rest? (shifted : Shifted before text pos pos') :
    (Source.ofText text).rest? pos' = (Source.ofText (before ++ text)).rest? pos := by
  obtain ⟨passed, ⟨rest, rfl⟩, rfl, rfl⟩ := shifted
  have whole : (Source.ofText (before ++ (passed ++ rest))).text = before ++ passed ++ rest :=
    (List.append_assoc ..).symm
  rw [Source.rest?_of_split whole, Source.rest?_of_split rfl]

theorem advance {piece rest : List Char} (shifted : Shifted before text pos pos')
    (here : (Source.ofText text).rest? pos' = some (piece ++ rest)) :
    Shifted before text (pos.advanceOver piece) (pos'.advanceOver piece) := by
  obtain ⟨passed, ⟨rest', rfl⟩, rfl, rfl⟩ := shifted
  obtain rfl := Option.some.inj ((Source.rest?_of_split rfl).symm.trans here)
  refine ⟨passed ++ piece, ⟨rest, by simp⟩, ?_, (advanceOver_append ..).symm⟩
  rw [← List.append_assoc, advanceOver_append _ (before ++ passed)]

end Position.Shifted

def Match.Shifted (before text : List Char) (m m' : Match V) : Prop :=
  m.text = m'.text ∧ Position.Shifted before text m.start m'.start

def Likeness.relocation (V : Type) (before text : List Char) : Likeness V V where
  place := Position.Shifted before text
  made := List.Forall₂ (Match.Shifted before text)
  offsets here there := by
    have shift := here.offset
    have shift' := there.offset
    omega
  nil := .nil
  append first second := List.rel_append first second

/-- Whatever a fold without errors makes of its matches, it makes a match of the same text. -/
theorem Rule.alike_relocation [Value V] {r : Rule V} (permissive : r.Permissive) :
    r.Alike (.relocation V before text) r where
  name := rfl
  body := rfl
  label := rfl
  silence := by
    intro made made' alike
    cases r.silent
    · exact alike
    · exact .nil
  value := by
    intro pos pos' piece made made' value here _ _
    obtain ⟨value', ok⟩ := permissive.exists_value piece made'
    exact ⟨value', ok, .cons ⟨rfl, here⟩ .nil⟩
  error := by
    intro piece made made' e _ refused
    obtain ⟨value, ok⟩ := permissive.exists_value piece made
    cases refused.symm.trans ok

theorem Session.alike_relocation [Value V] {g : Grammar V} (permissive : g.Permissive)
    (before text : List Char) :
    (ofText g (before ++ text)).Alike (.relocation V before text) (ofText g text) where
  rest here := here.rest?
  advance here rest := here.advance (here.rest?.trans rest)
  leaf _ here := .cons ⟨rfl, here⟩ .nil
  rules := Grammar.rel_find?_self fun r member => Rule.alike_relocation (permissive r member)

structure Failures.Shifted (shift : Nat) (f f' : Failures) : Prop where
  expected : f.expected = f'.expected
  furthest : Option.Rel (fun far far' => far.offset = far'.offset + shift) f.furthest f'.furthest

theorem Failures.shifted_of_alike {f f' : Failures} (alike : f.Alike (.relocation V before text) f') :
    f.Shifted (Text.byteSize before) f' where
  expected := alike.expected.symm
  furthest := by
    have furthest := alike.furthest
    generalize f.furthest = far at furthest ⊢
    generalize f'.furthest = far' at furthest ⊢
    cases furthest with
    | none => exact .none
    | some here => exact .some here.offset

namespace Session

/-- The evaluations matched the same pieces of their inputs or both failed, so many bytes apart. -/
structure Relocated (shift : Nat) (result result' : Outcome Position × State V) : Prop where
  outcome : (∃ stop stop', result.1 = .matched stop ∧ result'.1 = .matched stop' ∧
      stop.offset = stop'.offset + shift) ∨ result.1 = .failed ∧ result'.1 = .failed
  out : List.Forall₂ (fun m m' => m.text = m'.text ∧ m.start.offset = m'.start.offset + shift)
    result.2.out result'.2.out
  failures : result.2.failures.Shifted shift result'.2.failures

theorem relocated_of_alike {v v' : Verdict V} {result result' : Outcome Position × State V}
    (alike : v.Alike (.relocation V before text) v') (ended : ∀ why, v ≠ .aborted why)
    (shows : Shows .initial v result) (shows' : Shows .initial v' result') :
    Relocated (Text.byteSize before) result result' := by
  cases alike with
  | matched there made missed =>
    have failures := Failures.shifted_of_alike (Failures.alike_empty.marks missed)
    cases shows with
    | matched out recorded =>
      cases shows' with
      | matched out' recorded' =>
        refine ⟨.inl ⟨_, _, rfl, rfl, there.offset⟩, ?_, by rw [recorded, recorded']; exact failures⟩
        rw [out, out']
        simp only [State.initial, List.append_nil]
        exact List.forall₂_reverse_iff.mpr (made.imp fun _ _ => .imp_right Position.Shifted.offset)
  | failed missed =>
    have failures := Failures.shifted_of_alike (Failures.alike_empty.marks missed)
    cases shows with
    | failed out recorded =>
      cases shows' with
      | failed out' recorded' =>
        refine ⟨.inr ⟨rfl, rfl⟩, ?_, by rw [recorded, recorded']; exact failures⟩
        rw [out, out']
        exact .nil
  | @aborted why => exact (ended why rfl).elim

variable [Value V]

/-- An evaluation without fold errors comes to the same after a text as without it, shifted by the size
of the text. It is aborted only at a reference to a name without a rule, and then without the text too. -/
theorem eval_relocated {g : Grammar V} {start : String} (accepted : g.check start = none)
    (permissive : g.Permissive) (e : Expr) (before text : List Char) :
    let whole := (ofText g (before ++ text)).eval e (Position.start.advanceOver before) .initial
    let alone := (ofText g text).eval e Position.start .initial
    Relocated (Text.byteSize before) whole alone ∨
      ∃ name ∈ e.refs, g.defines name = false ∧
        whole.1 = .aborted (.undefinedRule name) ∧ alone.1 = .aborted (.undefinedRule name) := by
  intro whole alone
  have fresh (s : Session V) : (State.initial : State V).memo.Coherent s := .empty
  have reached : (ofText g (before ++ text)).source.Reached (Position.start.advanceOver before) :=
    ⟨before, ⟨text, rfl⟩, rfl⟩
  have reached' : (ofText g text).source.Reached Position.start := Source.reached_start _
  obtain ⟨v, d, shows⟩ := evalExpr_shows_anyhow accepted le_rfl reached (fresh _) e
  obtain ⟨v', d', shows'⟩ := evalExpr_shows_anyhow accepted le_rfl reached' (fresh _) e
  obtain ⟨v'', d'', alike⟩ := d.alike (alike_relocation permissive before text) (.start before text)
  obtain rfl := d''.unique d'
  by_cases aborted : ∃ why, v = .aborted why
  · obtain ⟨why, rfl⟩ := aborted
    obtain ⟨name, used, missing, rfl⟩ := d.undefined_of_aborted accepted permissive
    cases alike with
    | aborted why =>
      cases why
      exact .inr ⟨name, used, missing, shows.aborted_iff.mpr rfl, shows'.aborted_iff.mpr rfl⟩
  · exact .inl (relocated_of_alike alike (fun why same => aborted ⟨why, same⟩) shows shows')

def rows : Grammar String := .ofRules [
  { name := "row"
    body := .seq [.ref "cell", .star (.seq [.lit ",", .ref "cell"])]
    fold := some fun made => .ok (" ".intercalate (made.map fun m => String.ofList m.text)) },
  { name := "cell"
    body := .plus (.charClass (CharClass.empty.addRange 'a' 'z'))
    label := some "cell"
    cached := true }]

theorem rows_permissive : rows.Permissive :=
  Grammar.permissive_ofRules (by simp [Rule.Permissive])

/-- The row stands in the first line, and in the second. -/
theorem rows_relocated :
    let before := "é\n".toList
    let text := "ab,c,".toList
    let whole := (ofText rows (before ++ text)).eval (.ref "row") (Position.start.advanceOver before) .initial
    let alone := (ofText rows text).eval (.ref "row") Position.start .initial
    rows.check "row" = none ∧ rows.Permissive ∧ whole.1 = .matched ⟨7, 2, 5⟩ ∧
      alone.1 = .matched ⟨4, 1, 5⟩ ∧ Relocated 3 whole alone ∧
      alone.2.failures.expected = ["cell"] ∧ alone.2.failures.furthest = some ⟨5, 1, 6⟩ := by
  intro before text whole alone
  have accepted : rows.check "row" = none := by decide +kernel
  have matched : whole.1 = .matched ⟨7, 2, 5⟩ := by decide +kernel
  have relocated : Relocated (Text.byteSize before) whole alone := by
    rcases eval_relocated accepted rows_permissive (.ref "row") before text with
      relocated | ⟨_, _, _, aborted, _⟩
    · exact relocated
    · cases matched.symm.trans aborted
  exact ⟨accepted, rows_permissive, matched, by decide +kernel, relocated, by decide +kernel,
    by decide +kernel⟩

/-- A reference to a name without a rule neither matches nor fails. -/
theorem rows_without_line :
    let before := "é\n".toList
    let text := "ab".toList
    let whole := (ofText rows (before ++ text)).eval (.ref "line") (Position.start.advanceOver before) .initial
    let alone := (ofText rows text).eval (.ref "line") Position.start .initial
    rows.check "row" = none ∧ rows.Permissive ∧
      ¬ ((∃ stop stop', whole.1 = .matched stop ∧ alone.1 = .matched stop') ∨
        whole.1 = .failed ∧ alone.1 = .failed) := by
  intro before text whole alone
  have aborted : whole.1 = .aborted (.undefinedRule "line") := by decide +kernel
  refine ⟨by decide +kernel, rows_permissive, ?_⟩
  rintro (⟨stop, stop', matched, -⟩ | ⟨failed, -⟩)
  · cases aborted.symm.trans matched
  · cases aborted.symm.trans failed

end Session

end Packrat
