import Packrat.Proofs.Session.Heredity
import Packrat.Proofs.Session.Sequencing
import Packrat.Proofs.Session.Steps

/-! A repetition is its body and a repetition of one match less, as long as the body does not match
without moving. Where it does, that match counts once, and the repetition ends with it. -/
namespace Packrat

variable {V : Type}

theorem State.backTo_of_out {st before : State V} (same : st.out = before.out) :
    st.backTo before = st := by
  rw [backTo, ← same]

namespace Session

section Rounds

/-- A match that was made before the rounds counts in their number and in their bound. -/
theorem evalRounds_succ (body : Position → Eval V Position) (most : Option Nat) (gas count : Nat)
    (pos : Position) (st : State V) :
    evalRounds body (most.map (· + 1)) gas (count + 1) pos st =
      ((evalRounds body most gas count pos st).1.map fun x => (x.1 + 1, x.2),
        (evalRounds body most gas count pos st).2) := by
  have bound (count : Nat) : (most.map (· + 1)).any (· ≤ count + 1) = most.any (· ≤ count) := by
    cases most <;> simp
  induction gas generalizing count pos st with
  | zero =>
    rw [evalRounds, evalRounds, bound]
    cases most.any (· ≤ count) <;> rfl
  | succ gas ih =>
    rw [evalRounds, evalRounds, bound]
    cases most.any (· ≤ count) with
    | true => rfl
    | false =>
      simp only [Bool.false_eq_true, if_false]
      rcases body pos st with ⟨next | _ | _, st'⟩
      · dsimp only
        split
        · rfl
        · exact ih (count + 1) next st'
      · rfl
      · rfl

theorem evalRounds_ne_failed (body : Position → Eval V Position) (most : Option Nat) (gas count : Nat)
    (pos : Position) (st : State V) : (evalRounds body most gas count pos st).1 ≠ .failed := by
  induction gas generalizing count pos st with
  | zero =>
    rw [evalRounds]
    split <;> simp
  | succ gas ih =>
    rw [evalRounds]
    split
    · simp
    · rcases body pos st with ⟨next | _ | _, st'⟩
      · dsimp only
        split
        · simp
        · exact ih (count + 1) next st'
      · simp
      · simp

/-- Without a minimum a repetition does not fail. -/
theorem evalRepeated_ne_failed (s : Session V) (body : Position → Eval V Position) (most : Option Nat)
    (pos : Position) (st : State V) : (s.evalRepeated body 0 most pos st).1 ≠ .failed := by
  have rounds := evalRounds_ne_failed body most (s.source.size - pos.offset + 1) 0 pos st
  simp only [evalRepeated]
  generalize evalRounds body most (s.source.size - pos.offset + 1) 0 pos st = result at rounds ⊢
  rcases result with ⟨⟨count, stop⟩ | _ | _, st'⟩
  · simp
  · exact absurd rfl rounds
  · simp

end Rounds

section Repetition

variable [Value V] {s : Session V} {pos : Position} {st : State V} {e : Expr}
  {body : Position → Eval V Position}

/-- Every round moves on, so that more gas than there is input makes no difference. -/
theorem evalRounds_gas (faithful : Faithful s e body) (most : Option Nat) {gas gas' : Nat} (count : Nat)
    (enough : s.source.size - pos.offset < gas) (enough' : s.source.size - pos.offset < gas')
    (reached : s.source.Reached pos) (coherent : st.memo.Coherent s) :
    evalRounds body most gas count pos st = evalRounds body most gas' count pos st := by
  induction gas generalizing gas' count pos st with
  | zero => omega
  | succ gas ih =>
    obtain ⟨gas', rfl⟩ : ∃ n, gas' = n + 1 := ⟨gas' - 1, by omega⟩
    rw [evalRounds, evalRounds]
    split
    · rfl
    · have follows := faithful pos st reached coherent
      generalize body pos st = result at follows ⊢
      rcases result with ⟨next | _ | _, st'⟩
      · obtain ⟨_, _, d⟩ := follows.derives_matched
        have le := d.le reached
        have inside := (d.reached reached).offset_le
        dsimp only
        split
        · rfl
        · exact ih (count + 1) (by omega) (by omega) (d.reached reached) follows.memo
      · rfl
      · rfl

/-- A repetition whose body, at its beginning, does not match without moving: after a match it goes on
with one match less to make. -/
theorem evalRepeated_unroll (faithful : Faithful s e body) (least : Nat) (most : Option Nat)
    (reached : s.source.Reached pos) (coherent : st.memo.Coherent s)
    (moves : ∀ next st', body pos st = (.matched next, st') → next.offset ≠ pos.offset) :
    s.evalRepeated body least (most.map (· + 1)) pos st =
      match body pos st with
      | (.matched next, st') => restored st (s.evalRepeated body (least - 1) most next st')
      | (.failed, st') => if least = 0 then (.matched pos, st') else (.failed, st'.backTo st)
      | (.aborted why, st') => (.aborted why, st') := by
  have room : (most.map (· + 1)).any (· ≤ 0) = false := by cases most <;> simp
  have follows := faithful pos st reached coherent
  simp only [evalRepeated]
  rw [evalRounds, room]
  simp only [Bool.false_eq_true, if_false]
  generalize body pos st = result at follows moves ⊢
  rcases result with ⟨next | _ | _, st'⟩
  · obtain ⟨_, _, d⟩ := follows.derives_matched
    have moved := moves next st' rfl
    have le := d.le reached
    have inside := (d.reached reached).offset_le
    simp only [moved, if_false]
    have gas : evalRounds body most (s.source.size - pos.offset) 0 next st' =
        evalRounds body most (s.source.size - next.offset + 1) 0 next st' :=
      evalRounds_gas faithful most 0 (by omega) (by omega) (d.reached reached) follows.memo
    rw [evalRounds_succ, gas]
    rcases evalRounds body most (s.source.size - next.offset + 1) 0 next st' with
      ⟨⟨count, stop⟩ | _ | _, st''⟩
    · have enough : least ≤ count + 1 ↔ least - 1 ≤ count := by omega
      simp only [Outcome.map, enough]
      split <;> rfl
    · rfl
    · rfl
  · simp only [Nat.le_zero]
  · rfl

omit [Value V] in
/-- A first match that does not move is the only one. -/
theorem evalRepeated_still {stop : Position} {st' : State V} (least : Nat) {most : Option Nat}
    (room : most ≠ some 0) (matched : body pos st = (.matched stop, st'))
    (still : stop.offset = pos.offset) :
    s.evalRepeated body least most pos st =
      if least ≤ 1 then (.matched pos, st') else (.failed, st'.backTo st) := by
  have begun : most.any (· ≤ 0) = false := by
    cases most with
    | none => rfl
    | some max => simpa using room
  simp only [evalRepeated]
  rw [evalRounds, begun]
  simp [matched, still]

/-- Unless its body matches without moving, a repetition that needs a match is the body and then a
repetition that needs and may have one match less, and a repetition that needs none is that or nothing:
they come to the same and leave the same state, aborted or not. If the body matches without moving, the
repetition has that match and no other, and fails if it needs more. -/
theorem repetition_unrolls (reached : s.source.Reached pos) (arises : st.memo.Arises s) (e : Expr)
    (least : Nat) (most : Option Nat) :
    ((∀ stop st', s.eval e pos st = (.matched stop, st') → stop.offset ≠ pos.offset) →
      s.eval (.repeated e (least + 1) (most.map (· + 1))) pos st =
          s.eval (.seq [e, .repeated e least most]) pos st ∧
        s.eval (.repeated e 0 (most.map (· + 1))) pos st =
          s.eval (.choice [.seq [e, .repeated e 0 most], .seq []]) pos st) ∧
    ∀ stop st', s.eval e pos st = (.matched stop, st') → stop.offset = pos.offset → most ≠ some 0 →
      s.eval (.repeated e least most) pos st =
        if least ≤ 1 then (.matched pos, st') else (.failed, st'.backTo st) := by
  have faithful : Faithful s e (s.evalExpr (s.invoke s.budget) e) := s.eval_follows e
  have coherent := arises.coherent
  simp only [eval, evalExpr_choice_pair, evalExpr_seq_pair, evalExpr_seq_nil]
  simp only [evalExpr]
  refine ⟨fun moves => ?_, fun stop st' matched still room => evalRepeated_still least room matched still⟩
  rw [evalRepeated_unroll faithful _ most reached coherent moves,
    evalRepeated_unroll faithful _ most reached coherent moves]
  have follows := faithful pos st reached coherent
  generalize s.evalExpr (s.invoke s.budget) e pos st = result at follows ⊢
  rcases result with ⟨next | _ | _, st'⟩
  · refine ⟨rfl, ?_⟩
    have optional := s.evalRepeated_ne_failed (s.evalExpr (s.invoke s.budget) e) most next st'
    simp only [andThen, Nat.zero_sub]
    generalize s.evalRepeated (s.evalExpr (s.invoke s.budget) e) 0 most next st' = rest at optional ⊢
    rcases rest with ⟨_ | _ | _, st''⟩
    · rfl
    · exact absurd rfl optional
    · rfl
  · obtain ⟨_, _, out, _⟩ := follows.derives_failed
    have undone : (st'.backTo st).backTo st = st' := State.backTo_of_out out
    simp only [andThen, restored, orElse, undone]
    exact ⟨rfl, rfl⟩
  · exact ⟨rfl, rfl⟩

def cells : Grammar String := .ofRules [
  { name := "cell", body := .seq [.opt (.ref "digit"), .opt (.lit ",")], silent := true },
  { name := "digit", body := .charClass (CharClass.empty.addRange '0' '9'), cached := true }]

/-- The third cell is empty. It counts for one, and there is no fourth. -/
theorem cells_unroll :
    let s := ofText cells "1,2".toList
    let st := (s.step (.ref "cell") ⟨2, 1, 3⟩ .initial).2
    let cell : Expr := .ref "cell"
    s.source.Reached Position.start ∧ s.source.Reached ⟨3, 1, 4⟩ ∧ st.memo.Arises s ∧
      (s.eval cell Position.start st).1 = .matched ⟨2, 1, 3⟩ ∧
      s.eval (.repeated cell 3 (some 4)) Position.start st =
        s.eval (.seq [cell, .repeated cell 2 (some 3)]) Position.start st ∧
      (s.eval cell ⟨3, 1, 4⟩ st).1 = .matched ⟨3, 1, 4⟩ ∧
      (s.eval (.repeated cell 1 none) ⟨3, 1, 4⟩ st).1 = .matched ⟨3, 1, 4⟩ ∧
      (s.eval (.repeated cell 2 none) ⟨3, 1, 4⟩ st).1 = .failed := by
  intro s st cell
  have place (n : Nat) : s.source.Reached (Position.start.advanceOver (s.source.text.take n)) :=
    ⟨_, List.take_prefix n _, rfl⟩
  have arises : st.memo.Arises s := (State.Arises.initial.step (place 2)).memo
  have first : (s.eval cell Position.start st).1 = .matched ⟨2, 1, 3⟩ := by decide +kernel
  have third : (s.eval cell ⟨3, 1, 4⟩ st).1 = .matched ⟨3, 1, 4⟩ := by decide +kernel
  obtain ⟨unrolled, -⟩ := repetition_unrolls (place 0) arises cell 2 (some 3)
  have moves : ∀ stop st', s.eval cell Position.start st = (.matched stop, st') →
      stop.offset ≠ Position.start.offset := by
    intro stop st' matched
    rw [matched] at first
    cases first
    decide
  have empty : s.eval cell ⟨3, 1, 4⟩ st = (.matched ⟨3, 1, 4⟩, (s.eval cell ⟨3, 1, 4⟩ st).2) := by
    rw [← third]
  have once := (repetition_unrolls (place 3) arises cell 1 none).2 _ _ empty rfl nofun
  have twice := (repetition_unrolls (place 3) arises cell 2 none).2 _ _ empty rfl nofun
  exact ⟨place 0, place 3, arises, first, (unrolled moves).1, third,
    congrArg Prod.fst once, congrArg Prod.fst twice⟩

end Repetition

end Session

end Packrat
