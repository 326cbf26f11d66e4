import Packrat.Proofs.Session.Following

/-! Sequences and choices told by how the rest is evaluated after the first part. In sequences in sequences and
choices in choices the inner list is evaluated as if its members stood in the outer list: what it gives back when
it fails, the outer list gives back anyway. -/
namespace Packrat.Session

variable {V : Type}

/-- Go on where an evaluation has matched. -/
def andThen (rest : Position → Eval V Position) :
    Outcome Position × State V → Outcome Position × State V
  | (.matched next, st) => rest next st
  | result => result

/-- Where an evaluation has failed, go back to the matches there were before it and try another. -/
def orElse (before : State V) (other : Eval V Position) :
    Outcome Position × State V → Outcome Position × State V
  | (.failed, st) => other (st.backTo before)
  | result => result

section Results

variable {st before : State V} {result : Outcome Position × State V}
  {rest rest' : Position → Eval V Position} {other other' : Eval V Position}

theorem andThen_andThen : andThen rest' (andThen rest result) =
    andThen (fun next st => andThen rest' (rest next st)) result := by
  rcases result with ⟨_ | _ | _, st'⟩ <;> rfl

theorem orElse_orElse : orElse st other' (orElse st other result) =
    orElse st (fun before => orElse before other' (other before)) result := by
  rcases result with ⟨_ | _ | _, st'⟩ <;> rfl

theorem orElse_restored : orElse st other (restored st result) = orElse st other result := by
  rcases result with ⟨_ | _ | _, st'⟩ <;> rfl

/-- To give back a later part of the matches first makes no difference. -/
theorem restored_andThen_restored : restored st (andThen rest (restored before result)) =
    restored st (andThen rest result) := by
  rcases result with ⟨_ | _ | _, st'⟩ <;> rfl

/-- What is done after an evaluation may differ, if the results are the same once the matches are given
back. -/
theorem restored_andThen_congr
    (same : ∀ next before, restored st (rest' next before) = restored st (rest next before)) :
    restored st (andThen rest' result) = restored st (andThen rest result) := by
  rcases result with ⟨next | _ | _, st'⟩
  · exact same next st'
  · rfl
  · rfl

end Results

variable [Value V] {s : Session V} {call : Call V} {pos : Position} {st : State V}

theorem evalSeq_cons (s : Session V) (call : Call V) (e : Expr) (rest : List Expr) (pos : Position)
    (st : State V) : s.evalSeq call (e :: rest) pos st =
      andThen (s.evalSeq call rest) (s.evalExpr call e pos st) := by
  rw [evalSeq]
  rcases s.evalExpr call e pos st with ⟨_ | _ | _, st'⟩ <;> rfl

theorem evalChoice_cons (s : Session V) (call : Call V) (e : Expr) (rest : List Expr) (pos : Position)
    (st : State V) : s.evalChoice call (e :: rest) pos st =
      orElse st (s.evalChoice call rest pos) (s.evalExpr call e pos st) := by
  rw [evalChoice]
  rcases s.evalExpr call e pos st with ⟨_ | _ | _, st'⟩ <;> rfl

@[simp] theorem evalExpr_seq_nil : s.evalExpr call (.seq []) pos st = (.matched pos, st) := by
  rw [evalExpr_seq, evalSeq]
  rfl

theorem evalExpr_seq_pair (s : Session V) (call : Call V) (a b : Expr) (pos : Position) (st : State V) :
    s.evalExpr call (.seq [a, b]) pos st =
      restored st (andThen (s.evalExpr call b) (s.evalExpr call a pos st)) := by
  rw [evalExpr_seq, evalSeq]
  rcases s.evalExpr call a pos st with ⟨next | _ | _, st'⟩
  · simp only [evalSeq, andThen]
    rcases s.evalExpr call b next st' with ⟨_ | _ | _, st''⟩ <;> rfl
  · rfl
  · rfl

theorem evalExpr_choice_pair (s : Session V) (call : Call V) (a b : Expr) (pos : Position)
    (st : State V) : s.evalExpr call (.choice [a, b]) pos st =
      orElse st (fun before => restored before (s.evalExpr call b pos before))
        (s.evalExpr call a pos st) := by
  rw [evalExpr, evalChoice]
  rcases s.evalExpr call a pos st with ⟨_ | _ | _, st'⟩
  · rfl
  · simp only [evalChoice, orElse]
    rcases s.evalExpr call b pos (st'.backTo st) with ⟨_ | _ | _, st''⟩ <;> rfl
  · rfl

section Sequences

/-- A sequence is its beginning and then its end. -/
theorem evalSeq_append (s : Session V) (call : Call V) (xs ys : List Expr) (pos : Position)
    (st : State V) : s.evalSeq call (xs ++ ys) pos st =
      andThen (s.evalSeq call ys) (s.evalSeq call xs pos st) := by
  induction xs generalizing pos st with
  | nil => simp only [List.nil_append, evalSeq, andThen]
  | cons e xs ih =>
    have others : s.evalSeq call (xs ++ ys) = fun next st =>
      andThen (s.evalSeq call ys) (s.evalSeq call xs next st) := funext fun next => funext (ih next)
    rw [List.cons_append, evalSeq_cons, evalSeq_cons, andThen_andThen, others]

theorem evalSeq_singleton (s : Session V) (call : Call V) (e : Expr) (pos : Position) (st : State V) :
    s.evalSeq call [e] pos st = s.evalExpr call e pos st := by
  rw [evalSeq_cons]
  rcases s.evalExpr call e pos st with ⟨_ | _ | _, st'⟩
  · simp only [andThen, evalSeq]
  · rfl
  · rfl

theorem evalExpr_seq_nested (s : Session V) (call : Call V) (xs ys zs : List Expr) (pos : Position)
    (st : State V) : s.evalExpr call (.seq (xs ++ [.seq ys] ++ zs)) pos st =
      s.evalExpr call (.seq (xs ++ ys ++ zs)) pos st := by
  simp only [evalExpr_seq, evalSeq_append, andThen_andThen]
  refine restored_andThen_congr fun next before => ?_
  rw [evalSeq_singleton, evalExpr_seq, restored_andThen_restored]

end Sequences

section Choices

/-- A choice is its first alternatives or else the others. -/
theorem evalChoice_append (s : Session V) (call : Call V) (xs ys : List Expr) (pos : Position)
    (st : State V) : s.evalChoice call (xs ++ ys) pos st =
      orElse st (s.evalChoice call ys pos) (s.evalChoice call xs pos st) := by
  induction xs generalizing st with
  | nil =>
    simp only [List.nil_append, evalChoice, orElse]
    rfl
  | cons e xs ih =>
    have others : s.evalChoice call (xs ++ ys) pos = fun before =>
      orElse before (s.evalChoice call ys pos) (s.evalChoice call xs pos before) := funext ih
    rw [List.cons_append, evalChoice_cons, evalChoice_cons, orElse_orElse, others]

/-- Without another alternative a choice does what the only one does, and goes back to its matches if
that fails. -/
theorem evalChoice_singleton (s : Session V) (call : Call V) (e : Expr) (pos : Position)
    (st : State V) : s.evalChoice call [e] pos st = restored st (s.evalExpr call e pos st) := by
  rw [evalChoice_cons]
  rcases s.evalExpr call e pos st with ⟨_ | _ | _, st'⟩
  · rfl
  · simp only [orElse, evalChoice, restored]
  · rfl

theorem evalExpr_choice_nested (s : Session V) (call : Call V) (xs ys zs : List Expr) (pos : Position)
    (st : State V) : s.evalExpr call (.choice (xs ++ [.choice ys] ++ zs)) pos st =
      s.evalExpr call (.choice (xs ++ ys ++ zs)) pos st := by
  simp only [evalExpr, evalChoice_append, orElse_orElse, evalChoice_singleton, orElse_restored]

end Choices

/-- A sequence in a sequence, and a choice in a choice, does what its members in its place do: from
whatever state, under whatever grammar, they come to the same and leave the same matches, failures, kept
outcomes and journal, aborted or not. -/
theorem nesting_irrelevant (s : Session V) (xs ys zs : List Expr) (pos : Position) (st : State V) :
    s.eval (.seq (xs ++ [.seq ys] ++ zs)) pos st = s.eval (.seq (xs ++ ys ++ zs)) pos st ∧
    s.eval (.choice (xs ++ [.choice ys] ++ zs)) pos st = s.eval (.choice (xs ++ ys ++ zs)) pos st :=
  ⟨s.evalExpr_seq_nested _ xs ys zs pos st, s.evalExpr_choice_nested _ xs ys zs pos st⟩

end Packrat.Session
