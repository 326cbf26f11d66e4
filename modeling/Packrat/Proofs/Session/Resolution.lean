import Packrat.Proofs.Expr.Paths
import Packrat.Proofs.Grammar.LeftEdges
import Packrat.Proofs.Session.Heredity

/-! Names are resolved. An evaluation all of whose references are defined does not come to a name without
a rule, in whatever state it begins, if neither do the rules. -/
namespace Packrat

variable {V : Type}

def Eval.Resolves {α : Type} (body : Eval V α) : Prop :=
  ∀ (st : State V) (name : String), (body st).1 ≠ .aborted (.undefinedRule name)

/-- In the bodies of rules, and so wherever they lead, every reference names a rule. -/
def Grammar.Resolves (g : Grammar V) : Prop :=
  ∀ r ∈ g.rules, ∀ name ∈ r.body.refs, g.defines name

namespace Session

open Eval (Resolves)

variable {s : Session V} {pos : Position}

section Lookahead

variable {body : Eval V Position}

theorem lookahead_resolves (resolves : Resolves body) : Resolves (lookahead body) :=
  fun st => resolves { st with failures := st.failures.suppress }

theorem evalAhead_resolves (resolves : Resolves body) (pos : Position) :
    Resolves (evalAhead body pos) := by
  intro st name
  have inside := lookahead_resolves resolves st name
  unfold evalAhead
  generalize lookahead body st = result at inside ⊢
  rcases result with ⟨_ | _ | why, _⟩
  · simp
  · simp
  · exact inside

theorem evalNotAhead_resolves (resolves : Resolves body) (pos : Position) :
    Resolves (evalNotAhead body pos) := by
  intro st name
  have inside := lookahead_resolves resolves st name
  unfold evalNotAhead
  generalize lookahead body st = result at inside ⊢
  rcases result with ⟨_ | _ | why, _⟩
  · simp
  · simp
  · exact inside

end Lookahead

section Repetition

variable {body : Position → Eval V Position}

theorem evalRounds_resolves (resolves : ∀ pos, Resolves (body pos)) (most : Option Nat)
    (gas count : Nat) (pos : Position) : Resolves (evalRounds body most gas count pos) := by
  induction gas generalizing count pos with
  | zero =>
    intro st name
    rw [evalRounds]
    split <;> simp
  | succ gas ih =>
    intro st name
    have round := resolves pos st name
    rw [evalRounds]
    split
    · simp
    · generalize body pos st = result at round ⊢
      rcases result with ⟨next | _ | why, st'⟩
      · dsimp only
        split
        · simp
        · exact ih (count + 1) next st' name
      · simp
      · simpa using round

theorem evalRepeated_resolves (s : Session V) (resolves : ∀ pos, Resolves (body pos)) (least : Nat)
    (most : Option Nat) (pos : Position) : Resolves (s.evalRepeated body least most pos) := by
  intro st name
  have rounds := evalRounds_resolves resolves most (s.source.size - pos.offset + 1) 0 pos st name
  unfold evalRepeated
  generalize evalRounds body most (s.source.size - pos.offset + 1) 0 pos st = result at rounds ⊢
  rcases result with ⟨_ | _ | why, _⟩
  · dsimp only
    split <;> simp
  · simp
  · simpa using rounds

end Repetition

theorem evalRef_resolves {call : Call V} {name : String} {r : Rule V}
    (found : s.grammar.find? name = some r) (resolves : Resolves (call r pos)) :
    Resolves (s.evalRef call name pos) := by
  intro st missing
  have called := resolves st missing
  unfold evalRef
  simp only [found]
  generalize call r pos st = result at called ⊢
  rcases result with ⟨_ | _ | why, _⟩
  · simp
  · simp
  · simpa using called

theorem evalEnd_resolves (s : Session V) (pos : Position) : Resolves (s.evalEnd pos) := by
  intro st name
  unfold evalEnd
  split <;> simp

section Expression

variable [Value V] {call : Call V}

theorem leaf_resolves (rest : List Char) (size : Nat) (pos : Position) :
    Resolves (leaf (V := V) rest size pos) := by
  intro st name
  unfold leaf
  split <;> simp

theorem evalLiteral_resolves (s : Session V) (l : Literal) (pos : Position) :
    Resolves (s.evalLiteral l pos) := by
  intro st name
  unfold evalLiteral
  split
  · simp
  · split
    · exact leaf_resolves _ _ pos st name
    · simp

theorem evalClass_resolves (s : Session V) (k : CharClass) (pos : Position) :
    Resolves (s.evalClass k pos) := by
  intro st name
  unfold evalClass
  split
  · simp
  · simp
  · split
    · exact leaf_resolves _ _ pos st name
    · simp

mutual

theorem evalExpr_resolves
    (calls : ∀ name r pos, s.grammar.find? name = some r → Resolves (call r pos)) :
    (e : Expr) → (∀ name ∈ e.refs, s.grammar.defines name) → (pos : Position) →
    Resolves (s.evalExpr call e pos)
  | .literal l, _, pos => evalLiteral_resolves s l pos
  | .charClass k, _, pos => evalClass_resolves s k pos
  | .endOfInput, _, pos => evalEnd_resolves s pos
  | .ref name, defined, pos => by
    have known : (s.grammar.find? name).isSome := by
      rw [Grammar.isSome_find?]
      exact defined name (by simp)
    obtain ⟨r, found⟩ := Option.isSome_iff_exists.mp known
    intro st missing
    rw [evalExpr]
    exact evalRef_resolves found (calls name r pos found) st missing
  | .ahead body, defined, pos => by
    intro st missing
    rw [evalExpr]
    exact evalAhead_resolves (evalExpr_resolves calls body (by simpa using defined) pos) pos st missing
  | .notAhead body, defined, pos => by
    intro st missing
    rw [evalExpr]
    exact evalNotAhead_resolves (evalExpr_resolves calls body (by simpa using defined) pos) pos st missing
  | .repeated body least most, defined, pos => by
    intro st missing
    rw [evalExpr]
    exact evalRepeated_resolves s (evalExpr_resolves calls body (by simpa using defined)) least most
      pos st missing
  | .choice alternatives, defined, pos => by
    intro st missing
    rw [evalExpr]
    exact evalChoice_resolves calls alternatives defined pos st missing
  | .seq parts, defined, pos => by
    intro st missing
    have all := evalSeq_resolves calls parts defined pos st missing
    rw [evalExpr]
    generalize s.evalSeq call parts pos st = result at all ⊢
    rcases result with ⟨_ | _ | why, _⟩
    · simp
    · simp
    · exact all

theorem evalSeq_resolves
    (calls : ∀ name r pos, s.grammar.find? name = some r → Resolves (call r pos)) :
    (parts : List Expr) → (∀ name ∈ (Expr.seq parts).refs, s.grammar.defines name) →
    (pos : Position) → Resolves (s.evalSeq call parts pos)
  | [], _, pos => by
    intro st missing
    simp [evalSeq]
  | e :: rest, defined, pos => by
    intro st missing
    have here : ∀ name ∈ e.refs, s.grammar.defines name := fun name used => defined name (by simp [used])
    have later : ∀ name ∈ (Expr.seq rest).refs, s.grammar.defines name :=
      fun name used => defined name (by simp [used])
    have first := evalExpr_resolves calls e here pos st missing
    rw [evalSeq]
    generalize s.evalExpr call e pos st = result at first ⊢
    rcases result with ⟨next | _ | why, st'⟩
    · exact evalSeq_resolves calls rest later next st' missing
    · simp
    · exact first

theorem evalChoice_resolves
    (calls : ∀ name r pos, s.grammar.find? name = some r → Resolves (call r pos)) :
    (alternatives : List Expr) → (∀ name ∈ (Expr.choice alternatives).refs, s.grammar.defines name) →
    (pos : Position) → Resolves (s.evalChoice call alternatives pos)
  | [], _, _ => by
    intro st missing
    simp [evalChoice]
  | e :: rest, defined, pos => by
    intro st missing
    have here : ∀ name ∈ e.refs, s.grammar.defines name := fun name used => defined name (by simp [used])
    have later : ∀ name ∈ (Expr.choice rest).refs, s.grammar.defines name :=
      fun name used => defined name (by simp [used])
    have first := evalExpr_resolves calls e here pos st missing
    rw [evalChoice]
    generalize s.evalExpr call e pos st = result at first ⊢
    rcases result with ⟨next | _ | why, st'⟩
    · simp
    · exact evalChoice_resolves calls rest later pos (st'.backTo st) missing
    · exact first

end

end Expression

section Invocation

variable {r : Rule V}

theorem replay_resolves (entry : Memo.Entry V) : Resolves (replay r pos entry) := by
  intro st name
  unfold replay
  cases entry.result <;> simp

variable [Value V]

theorem complete_resolves (s : Session V) (r : Rule V) (pos stop : Position) (children : List (Match V)) :
    Resolves (s.complete r pos stop children) := by
  intro st name
  simp only [complete, foldValue]
  split
  · simp
  · cases r.fold with
    | none => simp
    | some fold =>
      dsimp only
      rcases fold children with (_ | _) | value <;> simp

theorem conclude_resolves {outcome : Outcome Position} {before st' : State V}
    (body : ∀ name, outcome ≠ .aborted (.undefinedRule name)) (name : String) :
    (s.conclude r pos before outcome st').1 ≠ .aborted (.undefinedRule name) := by
  cases outcome with
  | aborted why => simpa [conclude] using body name
  | failed => simp [conclude]
  | matched stop =>
    simp only [conclude]
    generalize (if r.trace.notesMatches then
      ((leave r before st').record (.matched r.name pos stop)).record (.matchNoted r.name pos stop)
      else (leave r before st').record (.matched r.name pos stop)) = noted
    have completed := s.complete_resolves r pos stop st'.out.reverse noted name
    generalize s.complete r pos stop st'.out.reverse noted = result at completed ⊢
    rcases result with ⟨_ | _ | why, _⟩
    · simp
    · simp
    · simpa using completed

theorem invoke_resolves (resolves : s.grammar.Resolves) (budget : Nat) (name : String) (r : Rule V)
    (pos : Position) (found : s.grammar.find? name = some r) : Resolves (s.invoke budget r pos) := by
  induction budget generalizing name r pos with
  | zero =>
    intro st missing
    simp [invoke]
  | succ budget ih =>
    intro st missing
    rw [invoke]
    cases kept? r pos st with
    | some entry => exact replay_resolves entry st missing
    | none =>
      have body := evalExpr_resolves ih r.body (resolves r (List.mem_of_find?_eq_some found)) pos
        (enter r pos st)
      exact conclude_resolves body missing

end Invocation

end Session

section Evaluations

variable [Value V] {s : Session V} {x y : Evaluation V}

theorem Evaluation.resolves (resolves : s.grammar.Resolves)
    (defined : ∀ name ∈ x.expr.refs, s.grammar.defines name) (name : String) :
    (x.result s).1 ≠ .aborted (.undefinedRule name) :=
  Session.evalExpr_resolves (s.invoke_resolves resolves x.budget) x.expr defined x.start x.before name

theorem Session.Part.defined (part : s.Part x y) (resolves : s.grammar.Resolves)
    (defined : ∀ name ∈ x.expr.refs, s.grammar.defines name) :
    ∀ name ∈ y.expr.refs, s.grammar.defines name := by
  have of_part (member : y.expr ∈ x.expr.parts) : ∀ name ∈ y.expr.refs, s.grammar.defines name :=
    fun name used => defined name (Expr.refs_subset_of_mem_parts member used)
  cases part with
  | ref found => exact resolves _ (List.mem_of_find?_eq_some found)
  | _ => exact of_part (by simp [Expr.parts])

theorem Session.Within.defined (within : s.Within x y) (resolves : s.grammar.Resolves)
    (defined : ∀ name ∈ x.expr.refs, s.grammar.defines name) :
    ∀ name ∈ y.expr.refs, s.grammar.defines name := by
  induction within with
  | refl => exact defined
  | tail _ part ih => exact part.defined resolves ih

end Evaluations

end Packrat
