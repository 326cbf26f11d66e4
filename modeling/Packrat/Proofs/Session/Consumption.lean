import Packrat.Proofs.Grammar.LeftLoops
import Packrat.Proofs.Grammar.Survey.Returns
import Packrat.Proofs.Session.Motion

/-! What an expression consumes. If the search for left recursion has found no chain, a walk with rules on the
stack finds of an expression what a walk with an empty stack does; and if every reference is defined, a match of
what it has not found nullable ends beyond its beginning, wherever the expression is evaluated and whatever has
been kept of earlier evaluations. -/
namespace Packrat

variable {V : Type}

namespace Grammar

def walkFrom (g : Grammar V) (stack : List String) (e : Expr) : Walk :=
  e.walk (g.walkRule (g.rules.length - stack.length) stack)

/-- A walk comes to the expression with these rules on the stack. It may begin at any expression, with an
empty stack; the search begins at the references to the rules. What is left of a sequence or of a choice
counts as a part of it. -/
inductive Walked (g : Grammar V) : List String → Expr → Prop where
  | start (e : Expr) : Walked g [] e
  | ref : Walked g stack (.ref name) → name ∉ stack → g.find? name = some r →
      Walked g (stack ++ [name]) r.body
  | seq_first : Walked g stack (.seq (e :: rest)) → Walked g stack e
  | seq_rest : Walked g stack (.seq (e :: rest)) → (g.walkFrom stack e).nullable →
      Walked g stack (.seq rest)
  | choice_first : Walked g stack (.choice (e :: rest)) → Walked g stack e
  | choice_rest : Walked g stack (.choice (e :: rest)) → Walked g stack (.choice rest)
  | repeated : Walked g stack (.repeated body least most) → Walked g stack body
  | ahead : Walked g stack (.ahead body) → Walked g stack body
  | notAhead : Walked g stack (.notAhead body) → Walked g stack body

variable {g : Grammar V} {r : Rule V} {stack : List String} {name : String} {e : Expr}

theorem Walked.tidy (walked : g.Walked stack e) : g.Tidy stack := by
  induction walked with
  | start => exact .nil g
  | ref _ fresh found ih => exact ih.push fresh found
  | _ => assumption

theorem walkFrom_ref (tidy : g.Tidy stack) (fresh : name ∉ stack) (found : g.find? name = some r) :
    g.walkFrom stack (.ref name) = g.walkFrom (stack ++ [name]) r.body := by
  have lt := tidy.lt fresh found
  obtain ⟨fuel, room⟩ : ∃ fuel, g.rules.length - stack.length = fuel + 1 :=
    Nat.exists_eq_add_one.mpr (by omega)
  have less : g.rules.length - (stack ++ [name]).length = fuel := by
    rw [List.length_append, List.length_singleton]
    omega
  rw [walkFrom, walkFrom, Expr.walk, room, less, walkRule_succ found fresh]

/-- The chains that a walk finds of an expression are among those of the walk that has come to it. -/
theorem Walked.loops_eq_nil (clean : g.leftRecursions = []) (walked : g.Walked stack e) :
    (g.walkFrom stack e).loops = [] := by
  induction walked with
  | start e => exact loops_walk_eq_nil clean e
  | ref walked fresh found ih => rwa [walkFrom_ref walked.tidy fresh found] at ih
  | @seq_first stack e rest _ ih =>
    rw [walkFrom, Expr.walk, Expr.walkSeq] at ih
    dsimp only at ih
    split at ih
    · exact (List.append_eq_nil_iff.mp ih).1
    · exact ih
  | seq_rest _ nullable ih =>
    rw [walkFrom, Expr.walk, Expr.walkSeq] at ih
    rw [walkFrom] at nullable
    simp only [nullable, if_true] at ih
    exact (List.append_eq_nil_iff.mp ih).2
  | choice_first _ ih => exact (List.append_eq_nil_iff.mp ih).1
  | choice_rest _ ih => exact (List.append_eq_nil_iff.mp ih).2
  | repeated _ ih | ahead _ ih | notAhead _ ih => exact ih

theorem Walked.nullable_iff (clean : g.leftRecursions = []) (walked : g.Walked stack e) :
    (g.walkFrom stack e).nullable ↔ g.Nullable e := by
  have tidy := walked.tidy
  have enough : g.rules.length ≤ g.rules.length - stack.length + stack.length := by omega
  have rules (name : String)
      (clean : (g.walkRule (g.rules.length - stack.length) stack name).loops = []) :
      g.Explored (.ref name) (g.walkRule (g.rules.length - stack.length) stack name) :=
    explored_walkRule _ stack name tidy.distinct tidy.defined enough clean
  exact (explored_walk rules e (walked.loops_eq_nil clean)).nullable.symm

/-- Where no reference is reported as undefined, all are defined. -/
theorem closed_of_defects (defined : ∀ name user, .undefinedRule name user ∉ g.defects) : g.closed := by
  simp only [closed, List.all_eq_true]
  intro r member name used
  obtain ⟨e, sub, named⟩ := List.mem_filterMap.mp used
  obtain rfl : e = .ref name := by
    cases e <;> simp only [Expr.ref?, reduceCtorEq, Option.some.injEq] at named
    rw [named]
  by_contra unknown
  have defect : g.defect? r.name (.ref name) = some (.undefinedRule name r.name) := by
    simp [defect?, unknown]
  have reported : .undefinedRule name r.name ∈ g.bodyDefects :=
    List.mem_flatMap.mpr ⟨r, member, List.mem_filterMap.mpr ⟨_, sub, defect⟩⟩
  exact defined name r.name (List.mem_append_left _ reported)

theorem leftRecursions_of_defects (defined : ∀ name user, .undefinedRule name user ∉ g.defects)
    (ended : ∀ path, .leftRecursion path ∉ g.defects) : g.leftRecursions = [] := by
  refine List.eq_nil_iff_forall_not_mem.mpr fun path found => ?_
  exact ended path ((leftRecursion_mem_defects_iff (closed_of_defects defined)).mpr found)

end Grammar

variable [Value V] {s : Session V} {x y : Evaluation V}

/-- The outcomes that are kept after evaluations and invocations one after the other, begun wherever one
likes, whatever their budgets. -/
inductive Memo.Amasses (s : Session V) : Memo V → Prop where
  | empty : Amasses s .empty
  | evaluation {x : Evaluation V} : Amasses s x.before.memo → Amasses s (x.result s).2.memo
  | invocation : Amasses s before.memo → s.grammar.find? called = some r →
      Amasses s (s.invoke budget r start before).2.memo

theorem Memo.Amasses.moves {memo : Memo V} (amasses : memo.Amasses s) : memo.Moves s.grammar := by
  induction amasses with
  | empty => exact .empty s.grammar
  | @evaluation x _ ih =>
    exact (Session.evalExpr_advances (s.invoke_advances x.budget) x.expr x.start x.before ih).memo
  | invocation _ found ih => exact (s.invoke_advances _ _ _ _ _ found ih).memo

theorem Session.Rounds.amasses {most : Option Nat} {count : Nat} {pos : Position} {st : State V}
    (rounds : s.Rounds x most count pos st) (amasses : x.before.memo.Amasses s) : st.memo.Amasses s := by
  induction rounds with
  | first => exact amasses
  | @next count pos st _ _ _ matched _ _ ih =>
    have round : (Evaluation.result s { x with start := pos, before := st }).2.memo.Amasses s :=
      .evaluation ih
    rwa [matched] at round

/-- What is kept in the midst of an evaluation is what the parts of it that have ended have left. -/
theorem Session.Part.amasses (part : s.Part x y) (amasses : x.before.memo.Amasses s) :
    y.before.memo.Amasses s := by
  cases part with
  | @seq n earlier start before next st e later matched =>
    have left : (Evaluation.result s ⟨n, .seq earlier, start, before⟩).2.memo.Amasses s :=
      .evaluation amasses
    rwa [Evaluation.result, Session.evalExpr_seq, matched] at left
  | @choice n earlier start before st e later failed =>
    have left : (Evaluation.result s ⟨n, .choice earlier, start, before⟩).2.memo.Amasses s :=
      .evaluation amasses
    rwa [Evaluation.result, Session.evalExpr, failed] at left
  | repeated rounds => exact rounds.amasses amasses
  | ahead | notAhead | ref => exact amasses

theorem Session.Within.amasses (within : s.Within x y) (amasses : x.before.memo.Amasses s) :
    y.before.memo.Amasses s := by
  induction within with
  | refl => exact amasses
  | tail _ part ih => exact part.amasses ih

namespace Grammar

/-- Whatever the input, wherever an evaluation begins and whatever has been evaluated before: in the course
of it, a match of the expression ends beyond its beginning. -/
def Consumes (g : Grammar V) (e : Expr) : Prop :=
  ∀ (input : List Char) (x y : Evaluation V),
    let s := Session.ofText g input
    x.before.memo.Amasses s → s.Within x y → y.expr = e →
      ∀ stop, (y.result s).1 = .matched stop → y.start.offset < stop.offset

variable {g : Grammar V} {stack : List String} {e : Expr}

/-- If neither an undefined reference nor left recursion is reported, then what a walk does not take for
nullable, whichever rules the walk has entered, consumes. -/
theorem consumes_of_not_nullable (defined : ∀ name user, .undefinedRule name user ∉ g.defects)
    (ended : ∀ path, .leftRecursion path ∉ g.defects) (walked : g.Walked stack e)
    (consuming : (g.walkFrom stack e).nullable = false) : g.Consumes e := by
  rintro input x y s amasses within rfl stop matched
  have clean : g.leftRecursions = [] := leftRecursions_of_defects defined ended
  have advances : Advances g y.expr y.start (y.result s) :=
    Session.evalExpr_advances (s.invoke_advances y.budget) y.expr y.start y.before
      (within.amasses amasses).moves
  have moves : g.Moves y.expr y.start.offset stop.offset := advances.moves stop matched
  refine lt_of_le_of_ne moves.onward fun still => ?_
  have nullable := (walked.nullable_iff clean).mpr (moves.still still.symm)
  simp [consuming] at nullable

/-- Switches with gaps between them. The last alternative of a key is never tried. -/
def switches : Grammar String := .ofRules [
  { name := "switches", body := .star (.ref "switch") },
  { name := "switch", body := .seq [.ref "gap", .ref "key"] },
  { name := "gap", body := .star (.lit " "), silent := true },
  { name := "key"
    body := .choice [.ilit "on", .charClass (CharClass.empty.addRange 'a' 'z'), .lit "once"]
    cached := true }]

/-- The walk from the rule of all switches comes to a switch, which begins with what may be nothing. -/
theorem switches_consume :
    let s := Session.ofText switches " ON".toList
    switches.defects = [.unreachableAlternative "key"] ∧
      switches.Walked ["switches"] (.ref "switch") ∧
      (switches.walkFrom ["switches"] (.ref "switch")).nullable = false ∧
      switches.Consumes (.ref "switch") ∧
      (s.eval (.ref "switch") Position.start .initial).1 = .matched ⟨3, 1, 4⟩ := by
  intro s
  have defects : switches.defects = [.unreachableAlternative "key"] := by decide +kernel
  have found : switches.find? "switches" = some { name := "switches", body := .star (.ref "switch") } := rfl
  have entered := Walked.ref (.start (.ref "switches")) List.not_mem_nil found
  have consuming : (switches.walkFrom ["switches"] (.ref "switch")).nullable = false := by decide +kernel
  exact ⟨defects, entered.repeated, consuming,
    consumes_of_not_nullable (by simp [defects]) (by simp [defects]) entered.repeated consuming,
    by decide +kernel⟩

end Grammar

end Packrat
