import Packrat.Proofs.Grammar.LeftEdges
import Packrat.Proofs.Semantics

/-! What an evaluation is aborted for: the error of a fold, or a reference to a name without a rule. Under
a grammar that passes the check only the expression itself can refer to such a name, not the rules. -/
namespace Packrat

variable {V : Type}

def Task.refs : Task → List String
  | expr e => e.refs
  | rounds body .. => body.refs
  | call name => [name]

def Rule.Permissive (r : Rule V) : Prop :=
  ∀ fold, r.fold = some fold → ∀ made, ∃ value, fold made = .ok value

def Grammar.Permissive (g : Grammar V) : Prop := ∀ r ∈ g.rules, r.Permissive

theorem Grammar.Permissive.add {g : Grammar V} (permissive : g.Permissive) {r : Rule V}
    (here : r.Permissive) : (g.add r).Permissive := by
  unfold Grammar.add
  split
  · exact permissive
  · intro r' member
    rcases List.mem_append.mp member with old | new
    · exact permissive r' old
    · obtain rfl := List.mem_singleton.mp new
      exact here

theorem Grammar.permissive_ofRules {rules : List (Rule V)} (permissive : ∀ r ∈ rules, r.Permissive) :
    (Grammar.ofRules rules).Permissive :=
  List.foldlRecOn rules Grammar.add (fun _ none => nomatch none) fun _ before r member =>
    before.add (permissive r member)

variable [Value V]

theorem Rule.Permissive.exists_value {r : Rule V} (permissive : r.Permissive) (text : List Char)
    (made : List (Match V)) : ∃ value, r.value text made = .ok value := by
  unfold Rule.value
  cases folds : r.fold with
  | none => exact ⟨_, rfl⟩
  | some fold => exact permissive fold folds made

/-- The abort comes of the fold of a rule of the grammar. -/
def Grammar.FoldAborts (g : Grammar V) (why : Abort) : Prop :=
  ∃ r ∈ g.rules, ∃ text made start e, r.value text made = .error e ∧ why = r.refusal start e

theorem Grammar.Permissive.not_foldAborts {g : Grammar V} (permissive : g.Permissive) (why : Abort) :
    ¬ g.FoldAborts why := by
  rintro ⟨r, member, text, made, start, e, refused, -⟩
  obtain ⟨value, accepted⟩ := (permissive r member).exists_value text made
  cases refused.symm.trans accepted

variable {s : Session V} {t : Task} {pos : Position} {v : Verdict V}

theorem Derives.abort_origin {start : String} (accepted : s.grammar.check start = none)
    (d : Derives s t pos v) {why : Abort} (aborted : v = .aborted why) :
    (∃ name ∈ t.refs, s.grammar.find? name = none ∧ why = .undefinedRule name) ∨
      s.grammar.FoldAborts why := by
  induction d with
  | seq_cons _ _ _ ih | choice_next _ _ _ ih =>
    refine (ih (Verdict.after_eq_aborted aborted)).imp_left ?_
    rintro ⟨name, used, rest⟩
    refine ⟨name, ?_, rest⟩
    simp only [Task.refs] at used ⊢
    simp [used]
  | seq_stop _ _ ih | choice_take _ _ ih =>
    refine (ih aborted).imp_left ?_
    rintro ⟨name, used, rest⟩
    refine ⟨name, ?_, rest⟩
    simp only [Task.refs] at used ⊢
    simp [used]
  | repeated _ ih => simpa [Task.refs] using ih aborted
  | rounds_more _ _ _ _ _ ih => exact ih (Verdict.after_eq_aborted aborted)
  | rounds_aborted _ _ ih => exact ih aborted
  | rounds_full | rounds_failed | rounds_still => exact (Verdict.ofCount_ne_aborted aborted).elim
  | @ahead _ _ v _ ih | @notAhead _ _ v _ ih | @ref _ _ v _ _ _ ih =>
    cases v <;> cases aborted
    simpa [Task.refs] using ih rfl
  | @ref_undefined name _ missing =>
    cases aborted
    exact .inl ⟨name, by simp [Task.refs], missing, rfl⟩
  | call_refused found _ _ error =>
    cases aborted
    exact .inr ⟨_, List.mem_of_find?_eq_some found, _, _, _, _, error, rfl⟩
  | call_aborted found _ ih =>
    refine .inr ((ih aborted).resolve_left ?_)
    rintro ⟨name, used, missing, -⟩
    have defined := Grammar.defines_of_mem_refs accepted (List.mem_of_find?_eq_some found) used
    rw [← Grammar.isSome_find?, missing] at defined
    cases defined
  | _ => cases aborted

theorem Derives.ne_undefined {start : String} (accepted : s.grammar.check start = none)
    (d : Derives s t pos v) (defined : ∀ name ∈ t.refs, s.grammar.defines name) (missing : String) :
    v ≠ .aborted (.undefinedRule missing) := by
  intro undefined
  rcases d.abort_origin accepted undefined with ⟨name, used, absent, -⟩ | ⟨_, _, _, _, _, e, _, refusal⟩
  · have present := defined name used
    rw [← Grammar.isSome_find?, absent] at present
    cases present
  · cases e <;> cases refusal

/-- Without fold errors, an evaluation is aborted only for a name without a rule. -/
theorem Derives.undefined_of_aborted {start : String} (accepted : s.grammar.check start = none)
    (permissive : s.grammar.Permissive) {why : Abort} (d : Derives s t pos (.aborted why)) :
    ∃ name ∈ t.refs, s.grammar.defines name = false ∧ why = .undefinedRule name := by
  obtain ⟨name, used, missing, rfl⟩ :=
    (d.abort_origin accepted rfl).resolve_right (permissive.not_foldAborts why)
  exact ⟨name, used, by rw [← Grammar.isSome_find?, missing, Option.isSome_none], rfl⟩

end Packrat
