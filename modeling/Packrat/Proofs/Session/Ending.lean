import Mathlib.Data.List.ProdSigma
import Packrat.Proofs.Grammar.LeftEdges
import Packrat.Proofs.Journal
import Packrat.Proofs.Session.Following
import Packrat.Session

/-! Evaluation of expressions ends, if the invocations do that they lead to: those of the rules that an expression
refers to, at a greater offset or at its left edge. In a stack of invocations each lies beyond the ones below it,
so that without a cycle of left edges none is on it twice, and the budget of a session bounds its height. -/
namespace Packrat

section Stack

variable {V : Type} {s : Session V} {stack : List (String × Nat)} {name : String} {offset : Nat}

def Grammar.Beyond (g : Grammar V) (under top : String × Nat) : Prop :=
  under.2 < top.2 ∨ under.2 = top.2 ∧ Relation.TransGen g.LeftEdge under.1 top.1

theorem Grammar.Beyond.trans {g : Grammar V} {a b c : String × Nat} (lower : g.Beyond a b)
    (upper : g.Beyond b c) : g.Beyond a c := by
  rcases lower with lt | ⟨eq, chain⟩ <;> rcases upper with lt' | ⟨eq', chain'⟩
  · exact .inl (lt.trans lt')
  · exact .inl (eq' ▸ lt)
  · exact .inl (eq ▸ lt')
  · exact .inr ⟨eq.trans eq', chain.trans chain'⟩

namespace Session

/-- The innermost invocation comes first. -/
structure Stacked (s : Session V) (stack : List (String × Nat)) : Prop where
  beyond : stack.Pairwise fun top under => s.grammar.Beyond under top
  placed : ∀ x ∈ stack, x.1 ∈ s.grammar.rules.map Rule.name ∧ x.2 ≤ s.source.size

/-- A rule that may be entered at this offset on top of the stack. -/
structure Fits (s : Session V) (stack : List (String × Nat)) (name : String) (offset : Nat) : Prop where
  defined : s.grammar.defines name
  beyond : ∀ under ∈ stack, s.grammar.Beyond under (name, offset)

theorem Stacked.nil : s.Stacked [] := ⟨.nil, by simp⟩

theorem Fits.exists_rule (fits : s.Fits stack name offset) : ∃ r, s.grammar.find? name = some r := by
  rw [← Option.isSome_iff_exists, Grammar.isSome_find?]
  exact fits.defined

theorem Stacked.push (stacked : s.Stacked stack) (fits : s.Fits stack name offset)
    (inside : offset ≤ s.source.size) : s.Stacked ((name, offset) :: stack) where
  beyond := .cons fits.beyond stacked.beyond
  placed x member := by
    rcases List.mem_cons.mp member with rfl | member
    · obtain ⟨r, found⟩ := fits.exists_rule
      exact ⟨Grammar.mem_names_of_find? found, inside⟩
    · exact stacked.placed x member

/-- On top of a rule, further invocations fit that lie beyond its own. -/
theorem Fits.over {user used : String} {start : Nat} (fits : s.Fits stack user start)
    (defined : s.grammar.defines used) (beyond : s.grammar.Beyond (user, start) (used, offset)) :
    s.Fits ((user, start) :: stack) used offset where
  defined := defined
  beyond := List.forall_mem_cons.mpr ⟨beyond, fun under member => (fits.beyond under member).trans beyond⟩

theorem Stacked.nodup (acyclic : ∀ name, ¬ Relation.TransGen s.grammar.LeftEdge name name)
    (stacked : s.Stacked stack) : stack.Nodup := by
  apply stacked.beyond.imp
  rintro top under beyond rfl
  rcases beyond with lt | ⟨-, cycle⟩
  · exact lt.false
  · exact acyclic _ cycle

theorem Stacked.length_le (acyclic : ∀ name, ¬ Relation.TransGen s.grammar.LeftEdge name name)
    (stacked : s.Stacked stack) : stack.length ≤ s.budget := by
  have places : stack ⊆ s.grammar.rules.map Rule.name ×ˢ List.range (s.source.size + 1) := by
    rintro ⟨name, offset⟩ member
    have placed := stacked.placed _ member
    exact List.mem_product.mpr ⟨placed.1, List.mem_range.mpr (Nat.lt_succ_of_le placed.2)⟩
  calc stack.length
      ≤ (s.grammar.rules.map Rule.name ×ˢ List.range (s.source.size + 1)).length :=
        (List.subperm_of_subset (stacked.nodup acyclic) places).length_le
    _ = s.budget := by simp [budget, List.length_product]

/-- A journal that was `base` when the evaluation began. Since then the active invocations were stacked
at every moment, and now these are open. -/
def Tracks (s : Session V) (base : Journal) (stack : List (String × Nat)) (j : Journal) : Prop :=
  ∃ recent, j = recent ++ base ∧ Journal.Orderly s.Stacked recent ∧ Journal.opened recent = stack

namespace Tracks

variable {base j : Journal}

theorem refl (s : Session V) (base : Journal) : s.Tracks base [] base :=
  ⟨[], rfl, .nil .nil, rfl⟩

theorem attempted {rule : String} {start : Position} (tracks : s.Tracks base stack j)
    (stacked : s.Stacked ((rule, start.offset) :: stack)) :
    s.Tracks base ((rule, start.offset) :: stack) (.attempted rule start :: j) := by
  obtain ⟨recent, rfl, orderly, rfl⟩ := tracks
  exact ⟨.attempted rule start :: recent, rfl, orderly.record stacked nofun, rfl⟩

/-- A record written by an invocation before its body begins or after it has ended. -/
theorem note {x : String × Nat} {r : Record} (tracks : s.Tracks base stack j)
    (stacked : s.Stacked (x :: stack)) (active : ∀ j, Journal.active (r :: j) = x :: Journal.opened j)
    (opened : ∀ j, Journal.opened (r :: j) = Journal.opened j) (closes : r.closes? = none) :
    s.Tracks base stack (r :: j) := by
  obtain ⟨recent, rfl, orderly, rfl⟩ := tracks
  exact ⟨r :: recent, rfl, orderly.record (active recent ▸ stacked) (by simp [closes]), opened recent⟩

/-- The end of the innermost body. -/
theorem close {x : String × Nat} {r : Record} (tracks : s.Tracks base (x :: stack) j)
    (stacked : s.Stacked (x :: stack)) (closes : r.closes? = some x) : s.Tracks base stack (r :: j) := by
  obtain ⟨recent, rfl, orderly, innermost⟩ := tracks
  obtain ⟨orderly, opened⟩ := orderly.close innermost stacked r closes
  exact ⟨r :: recent, rfl, orderly, opened⟩

end Tracks

end Session

end Stack

section Ending

variable {V : Type} [Value V] {s : Session V} {pos : Position} {st : State V}
  {base : Journal} {stack : List (String × Nat)} {call : Call V}

namespace Session

structure Standing (s : Session V) (base : Journal) (stack : List (String × Nat)) (st : State V) :
    Prop where
  memo : st.memo.Coherent s
  tracks : s.Tracks base stack st.journal

/-- The evaluation came to an end within its budget, and unless it was aborted it has left the
invocations open that were open before. -/
inductive Ends {α : Type} (s : Session V) (base : Journal) (stack : List (String × Nat)) :
    Outcome α × State V → Prop where
  | matched : s.Tracks base stack st'.journal → s.Ends base stack (.matched value, st')
  | failed : s.Tracks base stack st'.journal → s.Ends base stack (.failed, st')
  | aborted : s.Tracks base stack' st'.journal → why ≠ .fault .runaway →
      s.Ends base stack (.aborted why, st')

/-- Every rule that the expression may enter from the position on fits on the stack. At the position
itself it enters those only that it refers to at its left edge. -/
def Leads (s : Session V) (stack : List (String × Nat)) (e : Expr) (pos : Position) : Prop :=
  ∀ name ∈ e.refs, s.grammar.defines name → ∀ offset, pos.offset ≤ offset →
    (offset = pos.offset → s.grammar.LeftRef e name) → s.Fits stack name offset

omit [Value V] in
theorem Leads.part {e part : Expr} {next : Position} (leads : s.Leads stack e pos)
    (used : ∀ name ∈ part.refs, name ∈ e.refs) (le : pos.offset ≤ next.offset)
    (edges : next.offset = pos.offset → ∀ name, s.grammar.LeftRef part name → s.grammar.LeftRef e name) :
    s.Leads stack part next := fun name member defined offset le' edge =>
  leads name (used name member) defined offset (le.trans le') fun still =>
    edges (by omega) name (edge (by omega))

def Finishes (s : Session V) (base : Journal) (stack : List (String × Nat)) (e : Expr)
    (body : Position → Eval V Position) : Prop :=
  ∀ pos st, s.source.Reached pos → s.Leads stack e pos → s.Standing base stack st →
    s.Ends base stack (body pos st)

def FinishesCall (s : Session V) (base : Journal) (stack : List (String × Nat)) (call : Call V) : Prop :=
  ∀ name r pos st, s.grammar.find? name = some r → s.source.Reached pos →
    s.Fits stack name pos.offset → s.Standing base stack st → s.Ends base stack (call r pos st)

theorem leaf_ends (standing : s.Standing base stack st) (rest : List Char) (size : Nat) :
    s.Ends base stack (leaf rest size pos st) := by
  simp only [leaf]
  split
  · exact .aborted standing.tracks (by simp)
  · exact .matched standing.tracks

theorem evalLiteral_ends (standing : s.Standing base stack st) (l : Literal) :
    s.Ends base stack (s.evalLiteral l pos st) := by
  simp only [evalLiteral]
  split
  · exact .aborted standing.tracks (by simp)
  · split
    · exact leaf_ends standing _ _
    · exact .failed standing.tracks

theorem evalClass_ends (standing : s.Standing base stack st) (k : CharClass) :
    s.Ends base stack (s.evalClass k pos st) := by
  simp only [evalClass]
  split
  · exact .aborted standing.tracks (by simp)
  · exact .failed standing.tracks
  · split
    · exact leaf_ends standing _ _
    · exact .failed standing.tracks

theorem evalEnd_ends (standing : s.Standing base stack st) : s.Ends base stack (s.evalEnd pos st) := by
  simp only [evalEnd]
  split
  · exact .matched standing.tracks
  · exact .failed standing.tracks

section Lookahead

variable {body : Eval V Position}

theorem lookahead_ends (ends : ∀ st, s.Standing base stack st → s.Ends base stack (body st))
    (standing : s.Standing base stack st) : s.Ends base stack (lookahead body st) := by
  have inside := ends { st with failures := st.failures.suppress } ⟨standing.memo, standing.tracks⟩
  simp only [lookahead]
  generalize body { st with failures := st.failures.suppress } = result at inside ⊢
  cases inside with
  | matched tracks => exact .matched tracks
  | failed tracks => exact .failed tracks
  | aborted tracks bounded => exact .aborted tracks bounded

theorem evalAhead_ends (ends : ∀ st, s.Standing base stack st → s.Ends base stack (body st))
    (standing : s.Standing base stack st) : s.Ends base stack (evalAhead body pos st) := by
  have ahead := lookahead_ends ends standing
  simp only [evalAhead]
  generalize lookahead body st = result at ahead ⊢
  cases ahead with
  | matched tracks => exact .matched tracks
  | failed tracks => exact .failed tracks
  | aborted tracks bounded => exact .aborted tracks bounded

theorem evalNotAhead_ends (ends : ∀ st, s.Standing base stack st → s.Ends base stack (body st))
    (standing : s.Standing base stack st) : s.Ends base stack (evalNotAhead body pos st) := by
  have ahead := lookahead_ends ends standing
  simp only [evalNotAhead]
  generalize lookahead body st = result at ahead ⊢
  cases ahead with
  | matched tracks => exact .failed tracks
  | failed tracks => exact .matched tracks
  | aborted tracks bounded => exact .aborted tracks bounded

end Lookahead

/-- Each round but the last moves on, so the rounds end before the input does. -/
theorem evalRounds_ends {e : Expr} {body : Position → Eval V Position} (faithful : Faithful s e body)
    (finishes : s.Finishes base stack e body) (most : Option Nat) (gas count : Nat)
    (enough : s.source.size - pos.offset < gas) (reached : s.source.Reached pos)
    (leads : s.Leads stack e pos) (standing : s.Standing base stack st) :
    s.Ends base stack (evalRounds body most gas count pos st) := by
  induction gas generalizing count pos st with
  | zero => omega
  | succ gas ih =>
    rw [evalRounds]
    split
    · exact .matched standing.tracks
    · have follows := faithful pos st reached standing.memo
      have first := finishes pos st reached leads standing
      generalize body pos st = result at follows first ⊢
      cases first with
      | aborted tracks bounded => exact .aborted tracks bounded
      | failed tracks => exact .matched tracks
      | matched tracks =>
        obtain ⟨_, _, d⟩ := follows.derives_matched
        dsimp only
        split
        · exact .matched tracks
        · have le := d.le reached
          have inside := (d.reached reached).offset_le
          exact ih (count + 1) (by omega) (d.reached reached)
            (leads.part (fun _ used => used) le fun _ _ edge => edge) ⟨follows.memo, tracks⟩

theorem evalRepeated_ends {e : Expr} {body : Position → Eval V Position} (faithful : Faithful s e body)
    (finishes : s.Finishes base stack e body) (least : Nat) (most : Option Nat)
    (reached : s.source.Reached pos) (leads : s.Leads stack e pos) (standing : s.Standing base stack st) :
    s.Ends base stack (s.evalRepeated body least most pos st) := by
  have rounds := evalRounds_ends faithful finishes most (s.source.size - pos.offset + 1) 0
    (Nat.lt_succ_self _) reached leads standing
  simp only [evalRepeated]
  generalize evalRounds body most (s.source.size - pos.offset + 1) 0 pos st = result at rounds ⊢
  cases rounds with
  | aborted tracks bounded => exact .aborted tracks bounded
  | failed tracks => exact .failed tracks
  | matched tracks =>
    dsimp only
    split
    · exact .matched tracks
    · exact .failed tracks

theorem evalRef_ends (finishes : s.FinishesCall base stack call) (name : String)
    (reached : s.source.Reached pos) (leads : s.Leads stack (.ref name) pos)
    (standing : s.Standing base stack st) : s.Ends base stack (s.evalRef call name pos st) := by
  simp only [evalRef]
  cases found : s.grammar.find? name with
  | none => exact .aborted standing.tracks (by simp)
  | some r =>
    have defined : s.grammar.defines name := by rw [← Grammar.isSome_find?, found]; rfl
    have fits := leads name (by simp) defined pos.offset le_rfl fun _ => .ref
    have inner := finishes name r pos st found reached fits standing
    dsimp only
    generalize call r pos st = result at inner ⊢
    cases inner with
    | aborted tracks bounded => exact .aborted tracks bounded
    | failed tracks => exact .failed tracks
    | matched tracks => cases r.silent <;> exact .matched tracks

mutual

theorem evalExpr_ends (faithful : FaithfulCall s call) (finishes : s.FinishesCall base stack call) :
    (e : Expr) → s.Finishes base stack e (s.evalExpr call e)
  | .literal l, _, _, _, _, standing => evalLiteral_ends standing l
  | .charClass k, _, _, _, _, standing => evalClass_ends standing k
  | .endOfInput, _, _, _, _, standing => evalEnd_ends standing
  | .ref name, _, _, reached, leads, standing => by
    rw [evalExpr]
    exact evalRef_ends finishes name reached leads standing
  | .ahead body, pos, _, reached, leads, standing => by
    have leads' : s.Leads stack body pos := leads.part (by simp) le_rfl fun _ _ => .ahead
    rw [evalExpr]
    exact evalAhead_ends (fun _ => evalExpr_ends faithful finishes body _ _ reached leads') standing
  | .notAhead body, pos, _, reached, leads, standing => by
    have leads' : s.Leads stack body pos := leads.part (by simp) le_rfl fun _ _ => .notAhead
    rw [evalExpr]
    exact evalNotAhead_ends (fun _ => evalExpr_ends faithful finishes body _ _ reached leads') standing
  | .repeated body least most, pos, _, reached, leads, standing => by
    have leads' : s.Leads stack body pos := leads.part (by simp) le_rfl fun _ _ => .repeated
    rw [evalExpr]
    exact evalRepeated_ends (evalExpr_follows faithful body) (evalExpr_ends faithful finishes body)
      least most reached leads' standing
  | .choice alternatives, pos, st, reached, leads, standing => by
    rw [evalExpr]
    exact evalChoice_ends faithful finishes alternatives pos st reached leads standing
  | .seq parts, pos, st, reached, leads, standing => by
    have inner := evalSeq_ends faithful finishes parts pos st reached leads standing
    rw [evalExpr_seq]
    generalize s.evalSeq call parts pos st = result at inner ⊢
    cases inner with
    | matched tracks => exact .matched tracks
    | failed tracks => exact .failed tracks
    | aborted tracks bounded => exact .aborted tracks bounded

theorem evalSeq_ends (faithful : FaithfulCall s call) (finishes : s.FinishesCall base stack call) :
    (parts : List Expr) → s.Finishes base stack (.seq parts) (s.evalSeq call parts)
  | [], _, _, _, _, standing => .matched standing.tracks
  | e :: rest, pos, st, reached, leads, standing => by
    have follows := evalExpr_follows faithful e pos st reached standing.memo
    have first := evalExpr_ends faithful finishes e pos st reached
      (leads.part (fun _ used => by simp [used]) le_rfl
        fun _ _ edge => Grammar.leftRef_seq_cons_iff.mpr (.inl edge)) standing
    rw [evalSeq]
    generalize s.evalExpr call e pos st = result at follows first ⊢
    cases first with
    | aborted tracks bounded => exact .aborted tracks bounded
    | failed tracks => exact .failed tracks
    | @matched next _ tracks =>
      obtain ⟨_, _, d⟩ := follows.derives_matched
      -- Where the first part did not move, it is nullable, and the left edges go on behind it.
      have leads' : s.Leads stack (.seq rest) next :=
        leads.part (fun _ used => by simp [used]) (d.le reached)
          fun still _ edge => Grammar.leftRef_seq_cons_iff.mpr (.inr ⟨d.nullable reached still, edge⟩)
      exact evalSeq_ends faithful finishes rest next _ (d.reached reached) leads'
        ⟨follows.memo, tracks⟩

theorem evalChoice_ends (faithful : FaithfulCall s call) (finishes : s.FinishesCall base stack call) :
    (alternatives : List Expr) → s.Finishes base stack (.choice alternatives) (s.evalChoice call alternatives)
  | [], _, _, _, _, standing => .failed standing.tracks
  | e :: rest, pos, st, reached, leads, standing => by
    have follows := evalExpr_follows faithful e pos st reached standing.memo
    have first := evalExpr_ends faithful finishes e pos st reached
      (leads.part (fun _ used => by simp [used]) le_rfl
        fun _ _ edge => .choice (List.mem_cons_self ..) edge) standing
    rw [evalChoice]
    generalize s.evalExpr call e pos st = result at follows first ⊢
    cases first with
    | matched tracks => exact .matched tracks
    | aborted tracks bounded => exact .aborted tracks bounded
    | failed tracks =>
      refine evalChoice_ends faithful finishes rest pos _ reached ?_ ⟨follows.memo, tracks⟩
      apply leads.part (fun _ used => by simp [used]) le_rfl
      intro _ _ edge
      cases edge with
      | choice member edge => exact .choice (List.mem_cons_of_mem _ member) edge

end

end Session

end Ending

end Packrat
