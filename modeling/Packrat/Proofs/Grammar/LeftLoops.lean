import Mathlib.Data.List.Chain
import Packrat.Proofs.Grammar.LeftEdges

/-! The chains that the walk reports. Each is a loop of left edges, since the walk answers for less than
it might: it takes for nullable only what is, and goes on only behind what it takes for nullable. In a grammar
without left recursion it never meets a rule that it is already in, and what it finds is exact. -/
namespace Packrat.Grammar

variable {V : Type} {g : Grammar V} {stack : List String} {name : String} {path : List String}

/-- A way along left edges back to its first rule, with no rule on it twice before. -/
structure Loop (g : Grammar V) (path : List String) : Prop where
  moves : 2 ≤ path.length
  closes : path.head? = path.getLast?
  distinct : path.dropLast.Nodup
  edges : path.IsChain g.LeftEdge

theorem Loop.cycle (loop : g.Loop path) : ∃ name, Relation.TransGen g.LeftEdge name name := by
  obtain ⟨moves, closes, -, edges⟩ := loop
  match path, moves with
  | first :: second :: rest, _ =>
    have back : (second :: rest).getLast (by simp) = first := by
      simpa [List.getLast?_cons_cons, List.getLast?_eq_some_getLast] using closes.symm
    obtain ⟨edge, edges⟩ := List.isChain_cons_cons.mp edges
    exact ⟨first, .head' edge (List.relationReflTransGen_of_exists_isChain_cons rest edges back)⟩

/-- A way along left edges closes where it comes back to one of its rules. -/
theorem loop_of_mem (member : name ∈ stack) (apart : stack.Nodup)
    (edges : (stack ++ [name]).IsChain g.LeftEdge) :
    g.Loop (stack.dropWhile (· != name) ++ [name]) := by
  obtain ⟨before, after, rfl, fresh⟩ := List.eq_append_cons_of_mem member
  have others : ∀ other ∈ before, (other != name) = true := by
    intro other member
    have : other ≠ name := fun same => fresh (same ▸ member)
    simpa using this
  have closing : (before ++ name :: after).dropWhile (· != name) = name :: after := by
    rw [List.dropWhile_append_of_pos others]
    simp
  rw [closing]
  refine ⟨by simp, by rw [List.getLast?_concat]; rfl, ?_, ?_⟩
  · rw [List.dropLast_concat]
    exact apart.sublist (List.sublist_append_right ..)
  · exact edges.suffix ⟨before, by simp⟩

section Walk

variable {rule : String → Walk}

mutual

/-- What the walk takes for nullable is, if this holds of the walks of rules. -/
theorem nullable_of_walk (sound : ∀ name, (rule name).nullable → g.Nullable (.ref name)) :
    (e : Expr) → (e.walk rule).nullable → g.Nullable e
  | .literal _, empty => .literal empty
  | .charClass _, empty => nomatch empty
  | .endOfInput, _ => .endOfInput
  | .ahead _, _ => .ahead
  | .notAhead _, _ => .notAhead
  | .ref name, nullable => sound name nullable
  | .repeated body min _, nullable => by
    simp only [Expr.walk, Bool.or_eq_true, beq_iff_eq] at nullable
    rcases nullable with nullable | rfl
    · exact .repeated (nullable_of_walk sound body nullable)
    · exact .optional
  | .seq parts, nullable => .seq (nullable_of_walkSeq sound parts nullable)
  | .choice alternatives, nullable =>
    have ⟨_, member, nullable⟩ := nullable_of_walkChoice sound alternatives nullable
    .choice member nullable

theorem nullable_of_walkSeq (sound : ∀ name, (rule name).nullable → g.Nullable (.ref name)) :
    (parts : List Expr) → (Expr.walkSeq rule parts).nullable → ∀ e ∈ parts, g.Nullable e
  | [], _ => by simp
  | e :: rest, nullable => by
    rw [Expr.walkSeq] at nullable
    split at nullable
    · rename_i first
      exact List.forall_mem_cons.mpr
        ⟨nullable_of_walk sound e first, nullable_of_walkSeq sound rest nullable⟩
    · rename_i consuming
      exact absurd nullable consuming

theorem nullable_of_walkChoice (sound : ∀ name, (rule name).nullable → g.Nullable (.ref name)) :
    (alternatives : List Expr) → (Expr.walkChoice rule alternatives).nullable →
      ∃ e ∈ alternatives, g.Nullable e
  | [], empty => nomatch empty
  | e :: rest, nullable => by
    rw [Expr.walkChoice, Bool.or_eq_true] at nullable
    rcases nullable with first | others
    · exact ⟨e, List.mem_cons_self .., nullable_of_walk sound e first⟩
    · obtain ⟨e', member, nullable⟩ := nullable_of_walkChoice sound rest others
      exact ⟨e', List.mem_cons_of_mem _ member, nullable⟩

end

mutual

/-- A chain that closes in an expression was found in the walk of a rule to which the expression refers
at its left edge. -/
theorem leftRef_of_walk (sound : ∀ name, (rule name).nullable → g.Nullable (.ref name)) :
    (e : Expr) → path ∈ (e.walk rule).loops →
    ∃ name, g.LeftRef e name ∧ path ∈ (rule name).loops
  | .literal _, found | .charClass _, found | .endOfInput, found => by simp [Expr.walk] at found
  | .ref name, found => ⟨name, .ref, found⟩
  | .ahead body, found =>
    have ⟨name, edge, found⟩ := leftRef_of_walk sound body found
    ⟨name, .ahead edge, found⟩
  | .notAhead body, found =>
    have ⟨name, edge, found⟩ := leftRef_of_walk sound body found
    ⟨name, .notAhead edge, found⟩
  | .repeated body _ _, found =>
    have ⟨name, edge, found⟩ := leftRef_of_walk sound body found
    ⟨name, .repeated edge, found⟩
  | .seq parts, found => leftRef_of_walkSeq sound parts found
  | .choice alternatives, found =>
    have ⟨_, member, name, edge, found⟩ := leftRef_of_walkChoice sound alternatives found
    ⟨name, .choice member edge, found⟩

theorem leftRef_of_walkSeq (sound : ∀ name, (rule name).nullable → g.Nullable (.ref name)) :
    (parts : List Expr) → path ∈ (Expr.walkSeq rule parts).loops →
    ∃ name, g.LeftRef (.seq parts) name ∧ path ∈ (rule name).loops
  | [], found => by simp [Expr.walkSeq] at found
  | e :: rest, found => by
    have first (found : path ∈ (e.walk rule).loops) :
        ∃ name, g.LeftRef (.seq (e :: rest)) name ∧ path ∈ (rule name).loops := by
      obtain ⟨name, edge, found⟩ := leftRef_of_walk sound e found
      exact ⟨name, leftRef_seq_cons_iff.mpr (.inl edge), found⟩
    rw [Expr.walkSeq] at found
    split at found
    · rename_i nullable
      rcases List.mem_append.mp found with found | found
      · exact first found
      · obtain ⟨name, edge, found⟩ := leftRef_of_walkSeq sound rest found
        exact ⟨name, leftRef_seq_cons_iff.mpr (.inr ⟨nullable_of_walk sound e nullable, edge⟩), found⟩
    · exact first found

theorem leftRef_of_walkChoice (sound : ∀ name, (rule name).nullable → g.Nullable (.ref name)) :
    (alternatives : List Expr) →
    path ∈ (Expr.walkChoice rule alternatives).loops →
    ∃ e ∈ alternatives, ∃ name, g.LeftRef e name ∧ path ∈ (rule name).loops
  | [], found => by simp [Expr.walkChoice] at found
  | e :: rest, found => by
    rw [Expr.walkChoice, List.mem_append] at found
    rcases found with found | found
    · exact ⟨e, List.mem_cons_self .., leftRef_of_walk sound e found⟩
    · obtain ⟨e', member, found⟩ := leftRef_of_walkChoice sound rest found
      exact ⟨e', List.mem_cons_of_mem _ member, found⟩

end

end Walk

theorem walkRule_mem (member : name ∈ stack) (fuel : Nat) :
    g.walkRule fuel stack name = ⟨false, [stack.dropWhile (· != name) ++ [name]]⟩ := by
  unfold walkRule
  simp [member]

theorem walkRule_zero (fresh : name ∉ stack) : g.walkRule 0 stack name = ⟨false, []⟩ := by
  unfold walkRule
  cases g.find? name <;> simp [fresh]

/-- A rule on the stack counts as consuming, so the walk errs on the safe side. -/
theorem nullable_of_walkRule (fuel : Nat) (stack : List String) (name : String)
    (nullable : (g.walkRule fuel stack name).nullable) : g.Nullable (.ref name) := by
  induction fuel generalizing stack name with
  | zero =>
    by_cases member : name ∈ stack
    · simp [walkRule_mem member] at nullable
    · simp [walkRule_zero member] at nullable
  | succ fuel ih =>
    by_cases member : name ∈ stack
    · simp [walkRule_mem member] at nullable
    · cases found : g.find? name with
      | none => simp [walkRule_missing found member] at nullable
      | some r =>
        rw [walkRule_succ found member] at nullable
        exact .ref found (nullable_of_walk (ih _) r.body nullable)

/-- The rules on the stack lead along left edges to the rule that the walk enters next. -/
theorem loop_of_walkRule (fuel : Nat) (stack : List String) (name : String) (apart : stack.Nodup)
    (edges : (stack ++ [name]).IsChain g.LeftEdge) (found : path ∈ (g.walkRule fuel stack name).loops) :
    g.Loop path := by
  induction fuel generalizing stack name with
  | zero =>
    by_cases member : name ∈ stack
    · simp only [walkRule_mem member, List.mem_singleton] at found
      exact found ▸ loop_of_mem member apart edges
    · simp [walkRule_zero member] at found
  | succ fuel ih =>
    by_cases member : name ∈ stack
    · simp only [walkRule_mem member, List.mem_singleton] at found
      exact found ▸ loop_of_mem member apart edges
    · cases rule : g.find? name with
      | none => simp [walkRule_missing rule member] at found
      | some r =>
        rw [walkRule_succ rule member] at found
        obtain ⟨used, edge, found⟩ :=
          leftRef_of_walk (nullable_of_walkRule fuel _) r.body found
        refine ih _ used ?_ ?_ found
        · simpa [List.nodup_append] using ⟨apart, fun a mem same => member (same ▸ mem)⟩
        · exact edges.append (.singleton used) (by simpa using ⟨r, rule, edge⟩)

theorem loop_of_mem_leftRecursions (found : path ∈ g.leftRecursions) : g.Loop path := by
  obtain ⟨r, -, found⟩ := List.mem_flatMap.mp found
  exact loop_of_walkRule _ [] r.name .nil (.singleton _) found

theorem defect?_ne_leftRecursion (rule : String) (e : Expr) :
    g.defect? rule e ≠ some (.leftRecursion path) := by
  unfold defect?
  split
  · split <;> simp
  · split <;> simp
  · simp
  · split <;> simp
  · simp

/-- No defect of a single expression is a left recursion. -/
theorem leftRecursion_mem_defects_iff (closed : g.closed) :
    .leftRecursion path ∈ g.defects ↔ path ∈ g.leftRecursions := by
  have elsewhere : .leftRecursion path ∉ g.bodyDefects := by
    intro member
    obtain ⟨r, -, member⟩ := List.mem_flatMap.mp member
    obtain ⟨e, -, defect⟩ := List.mem_filterMap.mp member
    exact defect?_ne_leftRecursion r.name e defect
  simp [defects, closed, elsewhere]

/-- The check finds left recursion exactly in the grammars with a cycle of left edges, and each chain
that it reports is such a cycle. -/
theorem leftRecursion_exact (closed : g.closed) :
    ((∃ path, .leftRecursion path ∈ g.defects) ↔
      ∃ name, Relation.TransGen g.LeftEdge name name) ∧
    ∀ path, .leftRecursion path ∈ g.defects → g.Loop path := by
  simp only [leftRecursion_mem_defects_iff closed]
  refine ⟨⟨?_, ?_⟩, fun path => loop_of_mem_leftRecursions⟩
  · rintro ⟨path, found⟩
    exact (loop_of_mem_leftRecursions found).cycle
  · rintro ⟨name, cycle⟩
    by_contra clean
    have clean : g.leftRecursions = [] :=
      List.eq_nil_iff_forall_not_mem.mpr fun path found => clean ⟨path, found⟩
    exact acyclic_of_leftRecursions clean name cycle

/-- Sums of terms with optional signs. Where no sign stands, a sum begins with a term and a term with a
sum. -/
def signedSums : Grammar String := .ofRules [
  { name := "sum", body := .seq [.ref "sign", .ref "term", .star (.seq [.lit "+", .ref "term"])] },
  { name := "sign", body := .opt (.lit "-") },
  { name := "term", body := .choice [.lit "1", .seq [.ref "sign", .ref "sum"]] }]

theorem signedSums_leftRecursive :
    signedSums.closed ∧ .leftRecursion ["sum", "term", "sum"] ∈ signedSums.defects ∧
      (∃ name, Relation.TransGen signedSums.LeftEdge name name) ∧
      signedSums.Loop ["sum", "term", "sum"] := by
  have closed : signedSums.closed := by decide +kernel
  have found : .leftRecursion ["sum", "term", "sum"] ∈ signedSums.defects := by decide +kernel
  obtain ⟨recursive, loops⟩ := leftRecursion_exact closed
  exact ⟨closed, found, recursive.mp ⟨_, found⟩, loops _ found⟩

def nullable (g : Grammar V) (e : Expr) : Bool := (e.walk (g.walkRule g.rules.length [])).nullable

/-- A chain that closes in the walk of any expression is a cycle, and the grammar has none. -/
theorem loops_walk_eq_nil (clean : g.leftRecursions = []) (e : Expr) :
    (e.walk (g.walkRule g.rules.length [])).loops = [] := by
  refine List.eq_nil_iff_forall_not_mem.mpr fun path found => ?_
  obtain ⟨name, -, found⟩ := leftRef_of_walk (nullable_of_walkRule _ []) e found
  have loop : g.Loop path := loop_of_walkRule _ [] name .nil (.singleton _) found
  obtain ⟨user, cycle⟩ := loop.cycle
  exact acyclic_of_leftRecursions clean user cycle

theorem nullable_iff (clean : g.leftRecursions = []) {e : Expr} : g.nullable e ↔ g.Nullable e := by
  have rules (name : String) (clean : (g.walkRule g.rules.length [] name).loops = []) :
      g.Explored (.ref name) (g.walkRule g.rules.length [] name) :=
    explored_walkRule _ [] name .nil (by simp) (by simp) clean
  exact (explored_walk rules e (loops_walk_eq_nil clean e)).nullable.symm

end Packrat.Grammar
