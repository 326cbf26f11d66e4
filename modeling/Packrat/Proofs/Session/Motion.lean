import Packrat.Proofs.Session.Furthest

/-! How far a match may move. It does not go back, and unless the expression is nullable it goes on, from
whatever position the expression is evaluated, if the outcomes that are kept have moved so, too. -/
namespace Packrat

variable {V : Type} {g : Grammar V} {e body : Expr} {parts : List Expr} {name : String} {a b c : Nat}

namespace Grammar

/-- A match of the expression may go from one offset to the other: not back, and on, unless the expression
is nullable. -/
structure Moves (g : Grammar V) (e : Expr) (start stop : Nat) : Prop where
  onward : start ≤ stop
  still : stop = start → g.Nullable e

theorem Moves.stay (nullable : g.Nullable e) : g.Moves e a a := ⟨le_rfl, fun _ => nullable⟩

theorem Moves.seq_cons (first : g.Moves e a b) (others : g.Moves (.seq parts) b c) :
    g.Moves (.seq (e :: parts)) a c where
  onward := first.onward.trans others.onward
  still back := by
    have before := first.onward
    have after := others.onward
    have rest := nullable_seq_iff.mp (others.still (by omega))
    exact .seq (List.forall_mem_cons.mpr ⟨first.still (by omega), rest⟩)

theorem Moves.choice (member : e ∈ parts) (moves : g.Moves e a b) : g.Moves (.choice parts) a b :=
  ⟨moves.onward, fun back => .choice member (moves.still back)⟩

theorem Moves.choice_cons (moves : g.Moves (.choice parts) a b) : g.Moves (.choice (e :: parts)) a b where
  onward := moves.onward
  still back := by
    obtain ⟨other, member, nullable⟩ := nullable_choice_iff.mp (moves.still back)
    exact .choice (List.mem_cons_of_mem _ member) nullable

/-- A repetition that takes fewer matches may stand still where one that takes more may. -/
theorem Moves.repeated {least total : Nat} {most most' : Option Nat}
    (moves : g.Moves (.repeated e total most) a b) (enough : least ≤ total) :
    g.Moves (.repeated e least most') a b where
  onward := moves.onward
  still back := by
    rcases nullable_repeated_iff.mp (moves.still back) with nullable | none
    · exact .repeated nullable
    · exact nullable_repeated_iff.mpr (.inr (by omega))

theorem Moves.ref {r : Rule V} (found : g.find? name = some r) (moves : g.Moves r.body a b) :
    g.Moves (.ref name) a b :=
  ⟨moves.onward, fun back => .ref found (moves.still back)⟩

end Grammar

namespace Memo

def Moves (g : Grammar V) (memo : Memo V) : Prop :=
  ∀ name offset entry, memo.find? name offset = some entry →
    ∀ x, entry.result = some x → g.Moves (.ref name) offset x.1.offset

variable {memo : Memo V} {entry : Entry V}

theorem Moves.empty (g : Grammar V) : (Memo.empty : Memo V).Moves g := by
  intro name offset entry kept
  simp at kept

theorem Moves.insert (moves : memo.Moves g)
    (moved : ∀ x, entry.result = some x → g.Moves (.ref name) a x.1.offset) :
    (memo.insert name a entry).Moves g := by
  intro name' offset entry' kept
  rw [find?_insert] at kept
  split at kept
  · rename_i same
    obtain ⟨rfl, rfl⟩ := same
    obtain rfl := Option.some.inj kept
    exact moved
  · exact moves _ _ _ kept

end Memo

/-- The evaluation has moved as a match of the expression may, if it has matched, and so have the rules
whose outcomes are kept. -/
structure Advances (g : Grammar V) (e : Expr) (pos : Position) (result : Outcome Position × State V) :
    Prop where
  memo : result.2.memo.Moves g
  moves : ∀ stop, result.1 = .matched stop → g.Moves e pos.offset stop.offset

namespace Advances

variable {pos stop : Position} {st : State V} {result : Outcome Position × State V}

theorem matched (memo : st.memo.Moves g) (moves : g.Moves e pos.offset stop.offset) :
    Advances g e pos (.matched stop, st) := by
  refine ⟨memo, ?_⟩
  rintro _ ⟨⟩
  exact moves

theorem failed (memo : st.memo.Moves g) : Advances g e pos (.failed, st) := ⟨memo, nofun⟩

theorem aborted {why : Abort} (memo : st.memo.Moves g) : Advances g e pos (.aborted why, st) :=
  ⟨memo, nofun⟩

/-- An expression that moves as another may, does so. -/
theorem imp (advances : Advances g e pos result)
    (moves : ∀ b, g.Moves e pos.offset b → g.Moves body pos.offset b) : Advances g body pos result :=
  ⟨advances.memo, fun stop matched => moves _ (advances.moves stop matched)⟩

end Advances

def Advancing (g : Grammar V) (e : Expr) (eval : Position → Eval V Position) : Prop :=
  ∀ pos st, st.memo.Moves g → Advances g e pos (eval pos st)

def CallsAdvancing (g : Grammar V) (call : Call V) : Prop :=
  ∀ name r pos st, g.find? name = some r → st.memo.Moves g →
    Advances g (.ref name) pos ((call r pos st).1.map Prod.fst, (call r pos st).2)

namespace Session

variable {s : Session V} {r : Rule V} {pos : Position} {st st' : State V}

section Terminals

theorem evalEnd_advances : Advancing g .endOfInput s.evalEnd := by
  intro pos st memo
  simp only [evalEnd]
  split
  · exact .matched memo (.stay .endOfInput)
  · exact .failed memo

variable [Value V]

theorem leaf_advances (memo : st.memo.Moves g) (text rest : List Char)
    (empty : Text.byteSize text = 0 → g.Nullable e) :
    Advances g e pos (leaf (text ++ rest) (Text.byteSize text) pos st) := by
  simp only [leaf, Text.takeBytes?_append]
  exact .matched memo ⟨by simp, fun back => empty (by simpa using back)⟩

theorem evalLiteral_advances (l : Literal) : Advancing g (.literal l) (s.evalLiteral l) := by
  intro pos st memo
  simp only [evalLiteral]
  cases s.source.rest? pos with
  | none => exact .aborted memo
  | some rest =>
    dsimp only
    cases size : l.matchSize? rest with
    | none => exact .failed memo
    | some n =>
      obtain ⟨text, tail, rfl, rfl, -⟩ := Literal.matchSize?_eq_some size
      exact leaf_advances memo text tail fun nothing =>
        .literal (Literal.isEmpty_of_matchSize? (nothing ▸ size))

theorem evalClass_advances (k : CharClass) : Advancing g (.charClass k) (s.evalClass k) := by
  intro pos st memo
  simp only [evalClass]
  cases s.source.rest? pos with
  | none => exact .aborted memo
  | some rest =>
    cases rest with
    | nil => exact .failed memo
    | cons c rest =>
      dsimp only
      split
      · refine leaf_advances memo [c] rest fun nothing => ?_
        have := c.utf8Size_pos
        simp at nothing
        omega
      · exact .failed memo

end Terminals

section Lookahead

variable {body : Eval V Position}

theorem lookahead_moves (inside : ∀ st, st.memo.Moves g → Advances g e pos (body st))
    (memo : st.memo.Moves g) : (lookahead body st).2.memo.Moves g :=
  (inside { st with failures := st.failures.suppress } memo).memo

theorem evalAhead_advances (inside : ∀ st, st.memo.Moves g → Advances g e pos (body st))
    (memo : st.memo.Moves g) : Advances g (.ahead e) pos (evalAhead body pos st) := by
  have memo' := lookahead_moves inside memo
  simp only [evalAhead]
  generalize lookahead body st = result at memo' ⊢
  rcases result with ⟨_ | _ | _, st'⟩
  · exact .matched memo' (.stay .ahead)
  · exact .failed memo'
  · exact .aborted memo'

theorem evalNotAhead_advances (inside : ∀ st, st.memo.Moves g → Advances g e pos (body st))
    (memo : st.memo.Moves g) : Advances g (.notAhead e) pos (evalNotAhead body pos st) := by
  have memo' := lookahead_moves inside memo
  simp only [evalNotAhead]
  generalize lookahead body st = result at memo' ⊢
  rcases result with ⟨_ | _ | _, st'⟩
  · exact .failed memo'
  · exact .matched memo' (.stay .notAhead)
  · exact .aborted memo'

end Lookahead

section Repetition

variable {eval : Position → Eval V Position}

/-- The rounds move as a match of a repetition may that takes as many rounds as have been counted. -/
theorem evalRounds_advances (rounds : Advancing g e eval) (most : Option Nat) (gas count : Nat)
    (pos : Position) (memo : st.memo.Moves g) :
    (evalRounds eval most gas count pos st).2.memo.Moves g ∧
      ∀ total stop, (evalRounds eval most gas count pos st).1 = .matched (total, stop) →
        g.Moves (.repeated e (total - count) most) pos.offset stop.offset := by
  induction gas generalizing count pos st with
  | zero =>
    rw [evalRounds]
    split
    · exact ⟨memo, by simpa using .stay .optional⟩
    · exact ⟨memo, by simp⟩
  | succ gas ih =>
    rw [evalRounds]
    split
    · exact ⟨memo, by simpa using .stay .optional⟩
    · have first := rounds pos st memo
      generalize eval pos st = result at first ⊢
      rcases result with ⟨next | _ | _, st'⟩
      · have moves := first.moves next rfl
        dsimp only
        split
        · rename_i still
          exact ⟨first.memo, by simpa using .stay (.repeated (moves.still still))⟩
        · rename_i moved
          obtain ⟨memo', others⟩ := ih (count + 1) next first.memo
          refine ⟨memo', fun total stop matched => ?_⟩
          have onward := moves.onward
          have onward' := (others total stop matched).onward
          -- once a round has moved, the later ones cannot lead back to its beginning
          exact ⟨onward.trans onward', fun back => by omega⟩
      · exact ⟨first.memo, by simpa using .stay .optional⟩
      · exact ⟨first.memo, by simp⟩

theorem evalRepeated_advances (rounds : Advancing g e eval) (least : Nat) (most : Option Nat) :
    Advancing g (.repeated e least most) (s.evalRepeated eval least most) := by
  intro pos st memo
  obtain ⟨memo', moves⟩ := evalRounds_advances rounds most (s.source.size - pos.offset + 1) 0 pos memo
  simp only [evalRepeated]
  generalize evalRounds eval most (s.source.size - pos.offset + 1) 0 pos st = result at memo' moves ⊢
  rcases result with ⟨⟨total, stop⟩ | _ | _, st'⟩
  · dsimp only
    split
    · rename_i enough
      exact .matched memo' ((moves total stop rfl).repeated enough)
    · exact .failed memo'
  · exact .failed memo'
  · exact .aborted memo'

end Repetition

section Expression

variable {call : Call V}

theorem evalRef_advances (calls : CallsAdvancing s.grammar call) (name : String) :
    Advancing s.grammar (.ref name) (s.evalRef call name) := by
  intro pos st memo
  simp only [evalRef]
  cases found : s.grammar.find? name with
  | none => exact .aborted memo
  | some r =>
    have inner := calls name r pos st found memo
    dsimp only
    generalize call r pos st = result at inner ⊢
    rcases result with ⟨⟨stop, m⟩ | _ | _, st'⟩
    · refine .matched ?_ (inner.moves stop rfl)
      cases r.silent <;> exact inner.memo
    · exact .failed inner.memo
    · exact .aborted inner.memo

variable [Value V]

mutual

/-- On the expression: a match moves as the matches of its parts do, one after the other. -/
theorem evalExpr_advances (calls : CallsAdvancing s.grammar call) :
    (e : Expr) → Advancing s.grammar e (s.evalExpr call e)
  | .literal l => evalLiteral_advances l
  | .charClass k => evalClass_advances k
  | .endOfInput => evalEnd_advances
  | .ref name => by
    intro pos st memo
    rw [evalExpr]
    exact evalRef_advances calls name pos st memo
  | .ahead body => by
    intro pos st memo
    rw [evalExpr]
    exact evalAhead_advances (evalExpr_advances calls body pos) memo
  | .notAhead body => by
    intro pos st memo
    rw [evalExpr]
    exact evalNotAhead_advances (evalExpr_advances calls body pos) memo
  | .repeated body least most => by
    intro pos st memo
    rw [evalExpr]
    exact evalRepeated_advances (evalExpr_advances calls body) least most pos st memo
  | .choice alternatives => by
    intro pos st memo
    rw [evalExpr]
    exact evalChoice_advances calls alternatives pos st memo
  | .seq parts => by
    intro pos st memo
    rw [evalExpr_seq]
    have inside := evalSeq_advances calls parts pos st memo
    generalize s.evalSeq call parts pos st = result at inside ⊢
    rcases result with ⟨_ | _ | _, st'⟩
    · exact inside
    · exact .failed inside.memo
    · exact inside

theorem evalSeq_advances (calls : CallsAdvancing s.grammar call) :
    (parts : List Expr) → Advancing s.grammar (.seq parts) (s.evalSeq call parts)
  | [] => by
    intro pos st memo
    rw [evalSeq]
    exact .matched memo (.stay (.seq (by simp)))
  | e :: rest => by
    intro pos st memo
    rw [evalSeq]
    have first := evalExpr_advances calls e pos st memo
    generalize s.evalExpr call e pos st = result at first ⊢
    rcases result with ⟨next | _ | _, st'⟩
    · have others := evalSeq_advances calls rest next st' first.memo
      exact ⟨others.memo, fun stop matched => (first.moves next rfl).seq_cons (others.moves stop matched)⟩
    · exact .failed first.memo
    · exact .aborted first.memo

theorem evalChoice_advances (calls : CallsAdvancing s.grammar call) :
    (alternatives : List Expr) → Advancing s.grammar (.choice alternatives) (s.evalChoice call alternatives)
  | [] => by
    intro pos st memo
    rw [evalChoice]
    exact .failed memo
  | e :: rest => by
    intro pos st memo
    rw [evalChoice]
    have first := evalExpr_advances calls e pos st memo
    generalize s.evalExpr call e pos st = result at first ⊢
    rcases result with ⟨stop | _ | _, st'⟩
    · exact .matched first.memo (.choice (List.mem_cons_self ..) (first.moves stop rfl))
    · exact (evalChoice_advances calls rest pos (st'.backTo st) first.memo).imp fun _ => .choice_cons
    · exact .aborted first.memo

end

end Expression

section Invocation

theorem replay_advances {entry : Memo.Entry V} (memo : st.memo.Moves g) (kept : kept? r pos st = some entry) :
    Advances g (.ref r.name) pos ((replay r pos entry st).1.map Prod.fst, (replay r pos entry st).2) := by
  have moves : ∀ x, entry.result = some x → g.Moves (.ref r.name) pos.offset x.1.offset := by
    simp only [kept?] at kept
    split at kept
    · exact memo _ _ _ kept
    · cases kept
  cases result : entry.result with
  | none =>
    simp only [replay, result]
    exact .failed memo
  | some x =>
    simp only [replay, result]
    exact .matched memo (moves x result)

theorem settle_moves {inner : Failures} {result : Option (Position × Match V)}
    (memo : st.memo.Moves g)
    (moved : ∀ x, result = some x → g.Moves (.ref r.name) pos.offset x.1.offset) :
    (settle r pos inner result st).memo.Moves g := by
  simp only [settle]
  split
  · dsimp only
    split
    · exact memo.insert moved
    · exact memo
  · exact memo

variable [Value V]

theorem conclude_advances (found : s.grammar.find? r.name = some r) {outcome : Outcome Position}
    (body : Advances s.grammar r.body pos (outcome, st')) :
    Advances s.grammar (.ref r.name) pos
      ((s.conclude r pos st outcome st').1.map Prod.fst, (s.conclude r pos st outcome st').2) := by
  have memo : (leave r st st').memo.Moves s.grammar := body.memo
  cases outcome with
  | aborted why => exact .aborted memo
  | failed =>
    obtain ⟨journal, concluded⟩ := s.conclude_failed r pos st st'
    rw [concluded]
    exact .failed (settle_moves memo (by simp))
  | matched stop =>
    have moves := (body.moves stop rfl).ref found
    obtain ⟨journal, ⟨m, concluded⟩ | ⟨why, concluded⟩⟩ := s.conclude_matched r pos stop st st'
    · rw [concluded]
      exact .matched (settle_moves memo (by simpa using moves)) moves
    · rw [concluded]
      exact .aborted memo

theorem invoke_advances (s : Session V) (budget : Nat) : CallsAdvancing s.grammar (s.invoke budget) := by
  induction budget with
  | zero =>
    intro name r pos st _ memo
    rw [invoke]
    exact .aborted memo
  | succ budget ih =>
    intro name r pos st found memo
    obtain rfl := Grammar.name_of_find? found
    rw [invoke]
    cases kept : kept? r pos st with
    | some entry => exact replay_advances memo kept
    | none => exact conclude_advances found (evalExpr_advances ih r.body pos (enter r pos st) memo)

end Invocation

end Session

end Packrat
