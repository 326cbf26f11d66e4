import Packrat.Proofs.Grammar.Certainty
import Packrat.Proofs.Grammar.LeftLoops
import Packrat.Proofs.Grammar.Survey

/-! Every run of the check returns. A rule is entered only where it is not on the stack yet, so there are
never more rules on it than the grammar has, and each call gives the stack back as it found it. With every
rule on the stack there is one rule less to enter, and with every other call a smaller expression to look at:
this bounds the depth of the calls. What the runs come to is what the bounded searches of the check
compute. -/
namespace Packrat

variable {V : Type} {g : Grammar V} {stack : List String} {name : String} {r : Rule V} {fuel least : Nat}

namespace Expr

variable {rule : String → Bool} {e e' part : Expr}

theorem allAlwaysMatch_eq (parts : List Expr) :
    allAlwaysMatch rule parts = parts.all (alwaysMatches rule) := by
  rw [Bool.eq_iff_iff, allAlwaysMatch_iff, List.all_eq_true]

theorem anyAlwaysMatches_eq (alternatives : List Expr) :
    anyAlwaysMatches rule alternatives = alternatives.any (alwaysMatches rule) := by
  rw [Bool.eq_iff_iff, anyAlwaysMatches_iff, List.any_eq_true]

def size (e : Expr) : Nat := e.subexprs.length

theorem length_le_length_flatMap {α β : Type} (f : α → List β) {x : α} {items : List α}
    (member : x ∈ items) : (f x).length ≤ (items.flatMap f).length := by
  obtain ⟨before, after, rfl⟩ := List.append_of_mem member
  simp only [List.flatMap_append, List.flatMap_cons, List.length_append]
  omega

theorem size_pos (e : Expr) : 0 < e.size := List.length_pos_of_mem (self_mem_subexprs e)

theorem size_lt_of_mem_parts (member : part ∈ e.parts) : part.size < e.size := by
  rw [size, size, subexprs_eq e, List.length_cons, Nat.lt_succ_iff]
  exact length_le_length_flatMap subexprs member

theorem size_le_of_mem_subexprs (sub : e' ∈ e.subexprs) : e'.size ≤ e.size := by
  induction e using parts_induction with
  | step e ih =>
    rcases mem_subexprs.mp sub with rfl | ⟨part, member, sub⟩
    · exact le_rfl
    · exact (ih part member sub).trans (size_lt_of_mem_parts member).le

end Expr

namespace Grammar

structure Tidy (g : Grammar V) (stack : List String) : Prop where
  distinct : stack.Nodup
  defined : stack ⊆ g.rules.map Rule.name

def size (g : Grammar V) : Nat := (g.rules.flatMap fun r => r.body.subexprs).length

theorem size_le_of_mem_subexprs {e : Expr} (member : r ∈ g.rules) (sub : e ∈ r.body.subexprs) :
    e.size ≤ g.size := by
  have body : r.body.size ≤ g.size :=
    Expr.length_le_length_flatMap (fun r : Rule V => r.body.subexprs) member
  exact (Expr.size_le_of_mem_subexprs sub).trans body

theorem Tidy.nil (g : Grammar V) : g.Tidy [] := ⟨.nil, List.nil_subset _⟩

theorem Tidy.length_le (tidy : g.Tidy stack) : stack.length ≤ g.rules.length := by
  simpa using (List.subperm_of_subset tidy.distinct tidy.defined).length_le

theorem Tidy.push (tidy : g.Tidy stack) (fresh : name ∉ stack) (found : g.find? name = some r) :
    g.Tidy (stack ++ [name]) where
  distinct := by simpa [List.nodup_append] using ⟨tidy.distinct, fun a member same => fresh (same ▸ member)⟩
  defined := List.append_subset.mpr ⟨tidy.defined, by simpa using mem_names_of_find? found⟩

/-- Where a rule can be entered, not all rules are on the stack. -/
theorem Tidy.lt (tidy : g.Tidy stack) (fresh : name ∉ stack) (found : g.find? name = some r) :
    stack.length < g.rules.length := by
  simpa [Nat.succ_le_iff] using (tidy.push fresh found).length_le

/-- From the expression, with these rules on the stack, calls lie at most `least` deep: `fuel` rules are still
to be entered, each with no more expressions than the grammar has, after those in this expression. -/
structure Room (g : Grammar V) (stack : List String) (fuel least : Nat) (e : Expr) : Prop where
  tidy : g.Tidy stack
  rules : g.rules.length = fuel + stack.length
  enough : e.size + fuel * g.size ≤ least

variable {e e' : Expr}

theorem Room.descend (room : g.Room stack fuel (least + 1) e) (member : e' ∈ e.parts) :
    g.Room stack fuel least e' where
  tidy := room.tidy
  rules := room.rules
  enough := by
    have smaller := Expr.size_lt_of_mem_parts member
    have enough := room.enough
    omega

theorem Room.enter (room : g.Room stack fuel (least + 1) (.ref name)) (fresh : name ∉ stack)
    (found : g.find? name = some r) :
    ∃ deeper, fuel = deeper + 1 ∧ g.Room (stack ++ [name]) deeper least r.body := by
  have lt := room.tidy.lt fresh found
  have rules := room.rules
  obtain ⟨deeper, rfl⟩ : ∃ deeper, fuel = deeper + 1 := Nat.exists_eq_add_one.mpr (by omega)
  have body : r.body.size ≤ g.size :=
    size_le_of_mem_subexprs (List.mem_of_find?_eq_some found) (Expr.self_mem_subexprs _)
  have enough : 1 + (deeper + 1) * g.size ≤ least + 1 := room.enough
  rw [Nat.succ_mul] at enough
  exact ⟨deeper, rfl, room.tidy.push fresh found, by simp; omega, by omega⟩

def depth (g : Grammar V) : Nat := (g.rules.length + 1) * g.size

theorem Room.start (small : e.size ≤ g.size) : g.Room [] g.rules.length g.depth e where
  tidy := .nil g
  rules := rfl
  enough := by
    rw [depth, Nat.succ_mul]
    omega

theorem Room.start_ref (g : Grammar V) (name : String) :
    g.Room [] g.rules.length (g.depth + 1) (.ref name) where
  tidy := .nil g
  rules := rfl
  enough := by
    have alone : (Expr.ref name).size = 1 := rfl
    rw [depth, Nat.succ_mul]
    omega

theorem Room.not_zero (room : g.Room stack fuel 0 e) : False := by
  have enough := room.enough
  have positive := e.size_pos
  omega

end Grammar

namespace Survey

/-- The call gave the stack back as it found it: different rules of the grammar. -/
structure Passage.Orderly (g : Grammar V) (call : Passage) : Prop where
  kept : call.after = call.before
  distinct : call.before.Nodup
  defined : call.before ⊆ g.rules.map Rule.name
  depth : call.before.length ≤ g.rules.length

variable {α β : Type} {x y : Nat → Survey α} {k : Nat → α → Survey β} {a : α} {b : β}
  {found found' : List Defect}

/-- Begun with this stack, the run comes to this answer, with `least` and any greater depth of calls, leaves
the stack as it was and reports these defects. All its calls are orderly, and the stack is empty around
those from outside of all others. -/
def Returns (g : Grammar V) (least : Nat) (x : Nat → Survey α) (stack : List String) (a : α)
    (found : List Defect) : Prop :=
  ∀ notes : Notes, notes.stack = stack → ∃ calls queries,
    (∀ depth, least ≤ depth → x depth notes =
      some (a, ⟨stack, notes.calls ++ calls, notes.queries ++ queries, notes.defects ++ found⟩)) ∧
    (∀ call ∈ calls, call.Orderly g) ∧ ∀ query ∈ queries, query = ⟨[], []⟩

section Rules

theorem returns_pure (a : α) : Returns g least (fun _ => pure a) stack a [] := by
  rintro notes rfl
  have ran : (pure a : Survey α) notes = some (a, notes) := rfl
  exact ⟨[], [], by simp [ran], by simp, by simp⟩

theorem Returns.bind (first : Returns g least x stack a found)
    (second : Returns g least (fun depth => k depth a) stack b found') :
    Returns g least (fun depth => x depth >>= k depth) stack b (found ++ found') := by
  intro notes begun
  obtain ⟨calls, queries, ran, orderly, idle⟩ := first notes begun
  obtain ⟨calls', queries', ran', orderly', idle'⟩ := second
    ⟨stack, notes.calls ++ calls, notes.queries ++ queries, notes.defects ++ found⟩ rfl
  refine ⟨calls ++ calls', queries ++ queries', fun depth enough => ?_,
    List.forall_mem_append.mpr ⟨orderly, orderly'⟩, List.forall_mem_append.mpr ⟨idle, idle'⟩⟩
  have both : (x depth >>= k depth) notes =
      (x depth notes).bind fun result => k depth result.1 result.2 := rfl
  simp [both, ran depth enough, ran' depth enough]

/-- A run goes on after one that reports nothing. -/
theorem Returns.then (first : Returns g least x stack a [])
    (second : Returns g least (fun depth => k depth a) stack b found) :
    Returns g least (fun depth => x depth >>= k depth) stack b found := first.bind second

theorem Returns.map (returns : Returns g least x stack a found) (f : α → β) :
    Returns g least (fun depth => x depth >>= fun a => pure (f a)) stack (f a) found := by
  have mapped : Returns g least (fun depth => x depth >>= fun a => pure (f a)) stack (f a) (found ++ []) :=
    returns.bind (returns_pure (f a))
  rwa [List.append_nil] at mapped

/-- A run that makes calls needs room for them. -/
theorem Returns.deeper (returns : Returns g least x stack a found) (calls : ∀ depth, y (depth + 1) = x depth) :
    Returns g (least + 1) y stack a found := by
  intro notes begun
  obtain ⟨made, queries, ran, orderly, idle⟩ := returns notes begun
  refine ⟨made, queries, fun depth enough => ?_, orderly, idle⟩
  obtain ⟨depth, rfl⟩ : ∃ less, depth = less + 1 := Nat.exists_eq_add_one.mpr (by omega)
  rw [calls]
  exact ran depth (by omega)

theorem returns_stack : Returns g least (fun _ => Survey.stack) stack stack [] := by
  rintro notes rfl
  have ran : Survey.stack notes = some (notes.stack, notes) := rfl
  exact ⟨[], [], by simp [ran], by simp, by simp⟩

theorem returns_report (defect : Defect) : Returns g least (fun _ => report defect) stack () [defect] := by
  rintro notes rfl
  have ran : report defect notes = some ((), { notes with defects := notes.defects ++ [defect] }) := rfl
  exact ⟨[], [], by simp [ran], by simp, by simp⟩

/-- A call adds itself to those inside it. -/
theorem Returns.call (returns : Returns g least x stack a found) (tidy : g.Tidy stack) :
    Returns g least (fun depth => do let before ← Survey.stack; let a ← x depth; returned before; return a)
      stack a found := by
  have noted : Returns g least (fun _ => returned stack) stack () [] := by
    rintro notes rfl
    have ran : returned notes.stack notes =
        some ((), { notes with calls := notes.calls ++ [⟨notes.stack, notes.stack⟩] }) := rfl
    have orderly : Passage.Orderly g ⟨notes.stack, notes.stack⟩ :=
      ⟨rfl, tidy.distinct, tidy.defined, tidy.length_le⟩
    exact ⟨[⟨notes.stack, notes.stack⟩], [], by simp [ran], by simpa using orderly, by simp⟩
  have rest : Returns g least (fun depth => x depth >>= fun a => returned stack >>= fun _ => pure a) stack a
      (found ++ []) :=
    returns.bind (noted.then (returns_pure a))
  rw [List.append_nil] at rest
  exact returns_stack.then rest

/-- What is done with a rule on the stack leaves it to be popped. -/
theorem Returns.inside (returns : Returns g least x (stack ++ [name]) a found) :
    Returns g least (fun depth => do push name; let a ← x depth; pop; return a) stack a found := by
  rintro notes rfl
  obtain ⟨calls, queries, ran, orderly, idle⟩ :=
    returns { notes with stack := notes.stack ++ [name] } rfl
  refine ⟨calls, queries, fun depth enough => ?_, orderly, idle⟩
  have whole : (do push name; let a ← x depth; pop; return a : Survey α) notes =
      (x depth { notes with stack := notes.stack ++ [name] }).bind fun result =>
        some (result.1, { result.2 with stack := result.2.stack.dropLast }) := rfl
  refine whole.trans ?_
  rw [ran depth enough]
  simp

/-- A call from outside of all others. -/
theorem Returns.query {x : Nat → Survey Bool} {a : Bool} (returns : Returns g least x [] a found) :
    Returns g least (fun depth => query (x depth)) [] a found := by
  intro notes begun
  obtain ⟨calls, queries, ran, orderly, idle⟩ := returns notes begun
  refine ⟨calls, queries ++ [⟨[], []⟩], fun depth enough => ?_, orderly,
    List.forall_mem_append.mpr ⟨idle, by simp⟩⟩
  have whole : Survey.query (x depth) notes = (x depth notes).bind fun result => some (result.1,
      { result.2 with queries := result.2.queries ++ [⟨notes.stack, result.2.stack⟩] }) := rfl
  simp [whole, ran depth enough, begun]

end Rules

section Search

variable {rule : String → Bool} {visit : Nat → Expr → Survey Bool}

theorem returns_all {answer : Expr → Bool} {parts : List Expr}
    (each : ∀ e ∈ parts, Returns g least (fun depth => visit depth e) stack (answer e) []) :
    Returns g least (fun depth => parts.allM (visit depth)) stack (parts.all answer) [] := by
  induction parts with
  | nil => exact returns_pure true
  | cons e rest ih =>
    obtain ⟨first, others⟩ := List.forall_mem_cons.mp each
    simp only [List.allM, List.all_cons]
    refine first.then ?_
    cases answer e
    · exact returns_pure false
    · exact ih others

theorem returns_any {answer : Expr → Bool} {alternatives : List Expr}
    (each : ∀ e ∈ alternatives, Returns g least (fun depth => visit depth e) stack (answer e) []) :
    Returns g least (fun depth => alternatives.anyM (visit depth)) stack (alternatives.any answer) [] := by
  induction alternatives with
  | nil => exact returns_pure false
  | cons e rest ih =>
    obtain ⟨first, others⟩ := List.forall_mem_cons.mp each
    simp only [List.anyM, List.any_cons]
    refine first.then ?_
    cases answer e
    · exact ih others
    · exact returns_pure true

/-- The search goes on into the direct parts of an expression, or into a rule. -/
theorem searchForm_returns {e : Expr}
    (parts : ∀ part ∈ e.parts,
      Returns g least (fun depth => visit depth part) stack (part.alwaysMatches rule) [])
    (refs : ∀ name, e = .ref name →
      Returns g least (fun depth => searchForm g (visit depth) (.ref name)) stack (rule name) []) :
    Returns g least (fun depth => searchForm g (visit depth) e) stack (e.alwaysMatches rule) [] := by
  cases e with
  | ref name => exact refs name rfl
  | seq =>
    rw [Expr.alwaysMatches, Expr.allAlwaysMatch_eq]
    exact returns_all parts
  | choice =>
    rw [Expr.alwaysMatches, Expr.anyAlwaysMatches_eq]
    exact returns_any parts
  | ahead body =>
    rw [Expr.alwaysMatches]
    exact parts body (List.mem_singleton_self body)
  | repeated body min max =>
    simp only [searchForm, Expr.alwaysMatches]
    cases min == 0 || max == some 0
    · cases min == 1
      · exact returns_pure false
      · exact parts body (List.mem_singleton_self body)
    · exact returns_pure true
  | literal | charClass | notAhead | endOfInput => exact returns_pure _

theorem searchForm_ref_returns
    (inside : ∀ r, name ∉ stack → g.find? name = some r → ∃ deeper, fuel = deeper + 1 ∧
      Returns g least (fun depth => visit depth r.body) (stack ++ [name])
        (r.body.alwaysMatches (g.ruleAlwaysMatches deeper (stack ++ [name]).reverse)) []) :
    Returns g least (fun depth => searchForm g (visit depth) (.ref name)) stack
      (g.ruleAlwaysMatches fuel stack.reverse name) [] := by
  simp only [searchForm]
  refine returns_stack.then ?_
  unfold Grammar.ruleAlwaysMatches
  by_cases member : name ∈ stack
  · simpa [member] using returns_pure false
  · cases found : g.find? name with
    | none => simpa [member] using returns_pure false
    | some r =>
      obtain ⟨deeper, rfl, returns⟩ := inside r member found
      rw [List.reverse_concat] at returns
      rw [← Grammar.name_of_find? found] at returns member ⊢
      simpa [member] using returns.inside

/-- On the depth of calls: each leads to a part, or into a rule that was not on the stack. -/
theorem search_returns {e : Expr} (room : g.Room stack fuel least e) :
    Returns g least (fun depth => search g depth e) stack
      (e.alwaysMatches (g.ruleAlwaysMatches fuel stack.reverse)) [] := by
  induction least generalizing stack fuel e with
  | zero => exact room.not_zero.elim
  | succ least ih =>
    refine Returns.deeper (Returns.call ?_ room.tidy) fun _ => rfl
    refine searchForm_returns (fun part member => ih (room.descend member)) ?_
    rintro name rfl
    refine searchForm_ref_returns fun r fresh found => ?_
    obtain ⟨deeper, less, room⟩ := room.enter fresh found
    exact ⟨deeper, less, ih room⟩

end Search

section Walk

variable {rule : String → Walk} {visit : Nat → Expr → Survey Bool}

def ReturnsWalk (g : Grammar V) (least : Nat) (x : Nat → Survey Bool) (stack : List String) (w : Walk) :
    Prop :=
  Returns g least x stack w.nullable (w.loops.map .leftRecursion)

theorem returns_walkSeq {parts : List Expr}
    (each : ∀ e ∈ parts, ReturnsWalk g least (fun depth => visit depth e) stack (e.walk rule)) :
    ReturnsWalk g least (fun depth => parts.allM (visit depth)) stack (Expr.walkSeq rule parts) := by
  induction parts with
  | nil => exact returns_pure true
  | cons e rest ih =>
    obtain ⟨first, others⟩ := List.forall_mem_cons.mp each
    simp only [List.allM, Expr.walkSeq]
    split
    · rename_i nullable
      rw [ReturnsWalk, List.map_append]
      refine first.bind ?_
      rw [nullable]
      exact ih others
    · rename_i consuming
      rw [ReturnsWalk, ← List.append_nil (List.map ..)]
      refine first.bind ?_
      rw [Bool.eq_false_iff.mpr consuming]
      exact returns_pure false

theorem returns_walkChoice {alternatives : List Expr}
    (each : ∀ e ∈ alternatives, ReturnsWalk g least (fun depth => visit depth e) stack (e.walk rule))
    (before : Bool) :
    Returns g least
      (fun depth =>
        alternatives.foldlM (fun nullable e => do return nullable || (← visit depth e)) before) stack
      (before || (Expr.walkChoice rule alternatives).nullable)
      ((Expr.walkChoice rule alternatives).loops.map .leftRecursion) := by
  induction alternatives generalizing before with
  | nil => simpa [Expr.walkChoice] using returns_pure before
  | cons e rest ih =>
    obtain ⟨first, others⟩ := List.forall_mem_cons.mp each
    simp only [List.foldlM_cons]
    rw [Expr.walkChoice, List.map_append, ← Bool.or_assoc]
    exact (first.map _).bind (ih others _)

/-- The walk goes on into the direct parts of an expression, or into a rule. -/
theorem walkForm_returns {e : Expr}
    (parts : ∀ part ∈ e.parts, ReturnsWalk g least (fun depth => visit depth part) stack (part.walk rule))
    (refs : ∀ name, e = .ref name →
      ReturnsWalk g least (fun depth => walkForm g (visit depth) (.ref name)) stack (rule name)) :
    ReturnsWalk g least (fun depth => walkForm g (visit depth) e) stack (e.walk rule) := by
  cases e with
  | ref name => exact refs name rfl
  | seq => exact returns_walkSeq parts
  | choice =>
    have walked := returns_walkChoice parts false
    rwa [Bool.false_or] at walked
  | ahead body | notAhead body => exact (parts body (List.mem_singleton_self body)).map _
  | repeated body min max => exact (parts body (List.mem_singleton_self body)).map _
  | literal | charClass | endOfInput => exact returns_pure _

theorem walkRule_returns {w : Walk} (tidy : g.Tidy stack)
    (body : ReturnsWalk g least (fun depth => visit depth r.body) (stack ++ [r.name]) w) :
    ReturnsWalk g least (fun depth => walkRule (visit depth) r) stack w := by
  have nested (depth : Nat) : walkRule (visit depth) r = (do
      let before ← Survey.stack
      let nullable ← (do push r.name; let nullable ← visit depth r.body; pop; pure nullable : Survey Bool)
      returned before
      return nullable) := by
    rw [walkRule]
    simp only [bind_assoc, pure_bind]
  simp only [nested]
  exact body.inside.call tidy

theorem walkForm_ref_returns (tidy : g.Tidy stack)
    (inside : ∀ r, name ∉ stack → g.find? name = some r → ∃ deeper, fuel = deeper + 1 ∧
      ReturnsWalk g least (fun depth => visit depth r.body) (stack ++ [name])
        (r.body.walk (g.walkRule deeper (stack ++ [name])))) :
    ReturnsWalk g least (fun depth => walkForm g (visit depth) (.ref name)) stack
      (g.walkRule fuel stack name) := by
  simp only [walkForm]
  refine returns_stack.then ?_
  by_cases member : name ∈ stack
  · rw [Grammar.walkRule_mem member]
    simp only [List.contains_iff_mem.mpr member, if_true]
    exact (returns_report _).bind (returns_pure false)
  · have fresh : stack.contains name = false := by simpa using member
    simp only [fresh]
    cases found : g.find? name with
    | none =>
      rw [Grammar.walkRule_missing found member]
      exact returns_pure false
    | some r =>
      obtain ⟨deeper, rfl, returns⟩ := inside r member found
      rw [Grammar.walkRule_succ found member]
      exact walkRule_returns tidy (by rwa [Grammar.name_of_find? found])

/-- On the depth of calls, as the search returns. -/
theorem walk_returns {e : Expr} (room : g.Room stack fuel least e) :
    ReturnsWalk g least (fun depth => walk g depth e) stack (e.walk (g.walkRule fuel stack)) := by
  induction least generalizing stack fuel e with
  | zero => exact room.not_zero.elim
  | succ least ih =>
    refine Returns.deeper (Returns.call ?_ room.tidy) fun _ => rfl
    refine walkForm_returns (fun part member => ih (room.descend member)) ?_
    rintro name rfl
    refine walkForm_ref_returns room.tidy fun r fresh found => ?_
    obtain ⟨deeper, less, room⟩ := room.enter fresh found
    exact ⟨deeper, less, ih room⟩

end Walk

section Check

theorem returns_forM {ι : Type} {items : List ι} {run : Nat → ι → Survey Unit} {found : ι → List Defect}
    (each : ∀ item ∈ items, Returns g least (fun depth => run depth item) stack () (found item)) :
    Returns g least (fun depth => items.forM (run depth)) stack () (items.flatMap found) := by
  induction items with
  | nil => exact returns_pure ()
  | cons item rest ih =>
    obtain ⟨first, others⟩ := List.forall_mem_cons.mp each
    exact first.bind (ih others)

theorem returns_report_if (condition : Prop) [Decidable condition] (defect : Defect) :
    Returns g least (fun _ => if condition then report defect else pure ()) stack ()
      (if condition then some defect else none).toList := by
  split
  · exact returns_report defect
  · exact returns_pure ()

theorem unreachableAlternative_returns {alternatives : List Expr}
    (small : (Expr.choice alternatives).size ≤ g.size) :
    Returns g g.depth (fun depth => unreachableAlternative g depth alternatives) []
      (g.unreachableAlternative alternatives) [] := by
  have each (e : Expr) (kept : e ∈ alternatives.dropLast) :
      Returns g g.depth (fun depth => query (search g depth e)) [] (g.alwaysMatches e) [] := by
    have smaller : e.size < (Expr.choice alternatives).size :=
      Expr.size_lt_of_mem_parts ((List.dropLast_sublist _).subset kept)
    exact (search_returns (.start (smaller.le.trans small))).query
  simp only [unreachableAlternative, Grammar.unreachableAlternative]
  refine (returns_any each).then ?_
  cases alternatives.dropLast.any g.alwaysMatches <;> exact returns_pure _

theorem examine_returns {e : Expr} (small : e.size ≤ g.size) (rule : String) :
    Returns g g.depth (fun depth => examine g depth rule e) [] () (g.defect? rule e).toList := by
  cases e with
  | ref name =>
    simp only [examine, Grammar.defect?]
    cases g.defines name
    · exact returns_report _
    · exact returns_pure ()
  | repeated body min max =>
    cases max with
    | none => exact returns_pure ()
    | some max => exact returns_report_if _ _
  | charClass k =>
    simp only [examine, Grammar.defect?]
    cases k.backwardsRange? with
    | none => exact returns_pure ()
    | some r => exact returns_report _
  | choice alternatives =>
    exact (unreachableAlternative_returns small).then (returns_report_if _ _)
  | literal | seq | ahead | notAhead | endOfInput => exact returns_pure ()

theorem walkRule_query_returns (member : r ∈ g.rules) :
    ReturnsWalk g g.depth (fun depth => query (walkRule (walk g depth) r)) []
      (g.walkRule g.rules.length [] r.name) := by
  have fresh : r.name ∉ ([] : List String) := List.not_mem_nil
  have found := Grammar.find?_of_mem member
  obtain ⟨deeper, less, room⟩ := (Grammar.Room.start_ref g r.name).enter fresh found
  rw [less, Grammar.walkRule_succ found fresh]
  exact (walkRule_returns (.nil g) (walk_returns room)).query

theorem check_returns (g : Grammar V) : Returns g g.depth (fun depth => check g depth) [] () g.defects := by
  have bodies : Returns g g.depth
      (fun depth => g.rules.forM fun r => r.body.subexprs.forM (examine g depth r.name)) [] ()
      g.bodyDefects := by
    simp only [Grammar.bodyDefects, List.filterMap_eq_flatMap_toList]
    exact returns_forM fun r member => returns_forM fun e sub =>
      examine_returns (Grammar.size_le_of_mem_subexprs member sub) r.name
  have chains : Returns g g.depth
      (fun depth => g.rules.forM fun r => discard (query (walkRule (walk g depth) r))) [] ()
      (g.leftRecursions.map .leftRecursion) := by
    simp only [Grammar.leftRecursions, List.map_flatMap]
    exact returns_forM fun r member => (walkRule_query_returns member).map _
  have renewed : Returns g g.depth (fun _ => modify fun notes : Notes => { notes with stack := [] }) []
      () [] := by
    intro notes begun
    have ran : (modify fun notes : Notes => { notes with stack := [] } : Survey Unit) notes =
        some ((), { notes with stack := [] }) := rfl
    exact ⟨[], [], by simp [ran], by simp, by simp⟩
  simp only [check, Grammar.defects]
  refine bodies.bind ?_
  split
  · exact renewed.then chains
  · exact returns_pure ()

/-- Of every grammar, however its rules lead to each other, whether or not they are defined and used and
their repetitions make sense, the check returns, with the defects that are computed: its calls never lie
deeper in each other than the rules and the expressions in them allow. All the way the stack holds
different rules of the grammar, so never more than there are. Each call gives it back as it found it, and
between the calls from outside of all others it is empty. -/
theorem check_orderly (g : Grammar V) : ∃ notes,
    (∀ depth, g.depth ≤ depth → (check g depth).run {} = some ((), notes)) ∧
    notes.defects = g.defects ∧ notes.stack = [] ∧ (∀ call ∈ notes.calls, call.Orderly g) ∧
    ∀ query ∈ notes.queries, query = ⟨[], []⟩ := by
  obtain ⟨calls, queries, ran, orderly, idle⟩ := check_returns g {} rfl
  exact ⟨_, ran, List.nil_append _, rfl, by simpa using orderly, by simpa using idle⟩

example : ((check Grammar.signedSums Grammar.signedSums.depth).run {}).map (fun run => run.2.defects) =
    some [.leftRecursion ["sum", "term", "sum"], .leftRecursion ["term", "sum", "term"]] := by
  decide +kernel

end Check

end Survey

end Packrat
