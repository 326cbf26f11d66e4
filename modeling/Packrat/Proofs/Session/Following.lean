import Packrat.Proofs.Semantics.Extent
import Packrat.Session.Eval

/-! Evaluation of expressions follows the semantics, if the invocations of rules do: from a memo whose
outcomes are derivable, it comes to what is derivable, unless the budget runs out, and leaves such a
memo. -/
namespace Packrat

variable {V : Type} [Value V] {s : Session V} {pos : Position} {st : State V}

namespace Verdict

omit [Value V]

def ofResult (misses : List Miss) : Option (Position × Match V) → Verdict V
  | some (stop, m) => matched stop [m] misses
  | none => failed misses

def hushed : Verdict V → Verdict V
  | matched stop _ _ => matched stop [] []
  | failed _ => failed []
  | aborted why => aborted why

end Verdict

/-- Every kept outcome of a cached rule is what the rule comes to at its place, and its failures are
those of the rule alone. -/
def Memo.Coherent (s : Session V) (memo : Memo V) : Prop :=
  ∀ name r pos entry, s.grammar.find? name = some r → r.cached → s.source.Reached pos →
    memo.find? name pos.offset = some entry → ∃ misses,
      entry.failures = Failures.empty.marks misses ∧
      Derives s (.call name) pos (.ofResult misses entry.result)

/-- The outcome and the state that a verdict on an expression shows in. -/
inductive Shows (st : State V) : Verdict V → Outcome Position × State V → Prop where
  | matched : st'.out = made.reverse ++ st.out → st'.failures = st.failures.marks misses →
      Shows st (.matched stop made misses) (.matched stop, st')
  | failed : st'.out = st.out → st'.failures = st.failures.marks misses →
      Shows st (.failed misses) (.failed, st')
  | aborted : Shows st (.aborted why) (.aborted why, st')

inductive ShowsCall (st : State V) : Verdict V → Outcome (Position × Match V) × State V → Prop where
  | matched : st'.out = st.out → st'.failures = st.failures.marks misses →
      ShowsCall st (.matched stop [m] misses) (.matched (stop, m), st')
  | failed : st'.out = st.out → st'.failures = st.failures.marks misses →
      ShowsCall st (.failed misses) (.failed, st')
  | aborted : ShowsCall st (.aborted why) (.aborted why, st')

/-- The result is one that the semantics gives, unless the budget ran out, and the memo is coherent. -/
structure Follows (s : Session V) (t : Task) (pos : Position) (st : State V)
    (result : Outcome Position × State V) : Prop where
  memo : result.2.memo.Coherent s
  verdict : result.1 = .aborted (.fault .runaway) ∨ ∃ v, Derives s t pos v ∧ Shows st v result

omit [Value V] in
theorem Shows.aborted_iff {v : Verdict V} {result : Outcome Position × State V} {why : Abort}
    (shows : Shows st v result) : result.1 = .aborted why ↔ v = .aborted why := by
  cases shows with
  | matched | failed => simp
  | aborted => simp

omit [Value V] in
theorem ShowsCall.aborted_iff {v : Verdict V} {result : Outcome (Position × Match V) × State V}
    {why : Abort} (shows : ShowsCall st v result) : result.1 = .aborted why ↔ v = .aborted why := by
  cases shows with
  | matched | failed => simp
  | aborted => simp

/-- Where an evaluation that follows the semantics has matched, so does the semantics. -/
theorem Follows.derives_matched {t : Task} {stop : Position} {st' : State V}
    (follows : Follows s t pos st (.matched stop, st')) :
    ∃ made misses, Derives s t pos (.matched stop made misses) := by
  rcases follows with ⟨-, h | ⟨v, d, shows⟩⟩
  · cases h
  · cases shows
    exact ⟨_, _, d⟩

theorem Follows.derives_of_matched {t : Task} {stop : Position} {result : Outcome Position × State V}
    (follows : Follows s t pos st result) (matched : result.1 = .matched stop) :
    ∃ made misses, Derives s t pos (.matched stop made misses) := by
  obtain ⟨outcome, st'⟩ := result
  obtain rfl : outcome = .matched stop := matched
  exact follows.derives_matched

/-- Where it has failed, the semantics fails, and it has left no matches. -/
theorem Follows.derives_failed {t : Task} {st' : State V}
    (follows : Follows s t pos st (.failed, st')) :
    ∃ misses, Derives s t pos (.failed misses) ∧ st'.out = st.out ∧
      st'.failures = st.failures.marks misses := by
  rcases follows with ⟨-, h | ⟨v, d, shows⟩⟩
  · cases h
  · cases shows with
    | failed out failures => exact ⟨_, d, out, failures⟩

structure FollowsCall (s : Session V) (name : String) (pos : Position) (st : State V)
    (result : Outcome (Position × Match V) × State V) : Prop where
  memo : result.2.memo.Coherent s
  verdict : result.1 = .aborted (.fault .runaway) ∨
    ∃ v, Derives s (.call name) pos v ∧ ShowsCall st v result

def Faithful (s : Session V) (e : Expr) (body : Position → Eval V Position) : Prop :=
  ∀ pos st, s.source.Reached pos → st.memo.Coherent s → Follows s (.expr e) pos st (body pos st)

def FaithfulCall (s : Session V) (call : Call V) : Prop :=
  ∀ name r pos st, s.grammar.find? name = some r → s.source.Reached pos → st.memo.Coherent s →
    FollowsCall s name pos st (call r pos st)

namespace Session

omit [Value V] in
def restored (st : State V) : Outcome Position × State V → Outcome Position × State V
  | (.failed, st') => (.failed, st'.backTo st)
  | result => result

end Session

namespace Shows

omit [Value V]

variable {v : Verdict V} {made : List (Match V)} {misses : List Miss} {st' : State V}
  {result : Outcome Position × State V}

/-- The parts after the first add to what it made. -/
theorem restored (out : st'.out = made.reverse ++ st.out)
    (failures : st'.failures = st.failures.marks misses)
    (shows : Shows st' v (Session.restored st' result)) :
    Shows st (v.after made misses) (Session.restored st result) := by
  rcases result with ⟨_ | _ | _, st''⟩ <;> cases shows
  · rename_i out' failures'
    exact .matched (by simp [out, out']) (by simp [failures, failures'])
  · rename_i failures'
    exact .failed rfl (failures'.trans (by simp [failures]))
  · exact .aborted

/-- A later alternative adds to the failures of those before it. -/
theorem next (out : st'.out = st.out) (failures : st'.failures = st.failures.marks misses)
    (shows : Shows st' v result) : Shows st (v.after [] misses) result := by
  cases shows with
  | matched out' failures' => exact .matched (by simp [out, out']) (by simp [failures, failures'])
  | failed out' failures' => exact .failed (by simp [out, out']) (by simp [failures, failures'])
  | aborted => exact .aborted

end Shows

namespace Session

theorem leaf_follows {t : Task} {text rest : List Char} (coherent : st.memo.Coherent s)
    (d : Derives s t pos
      (.matched (pos.advanceOver text) [⟨text, Value.ofText text, pos⟩] [])) :
    Follows s t pos st (leaf (text ++ rest) (Text.byteSize text) pos st) := by
  simp only [leaf, Text.takeBytes?_append]
  exact ⟨coherent, .inr ⟨_, d, .matched (by simp [State.push]) rfl⟩⟩

theorem mark_follows {t : Task} {label : String} (coherent : st.memo.Coherent s)
    (d : Derives s t pos (.failed [⟨pos, label⟩])) :
    Follows s t pos st (.failed, st.mark pos label) :=
  ⟨coherent, .inr ⟨_, d, .failed rfl rfl⟩⟩

theorem evalLiteral_follows (reached : s.source.Reached pos) (coherent : st.memo.Coherent s)
    (l : Literal) : Follows s (.expr (.literal l)) pos st (s.evalLiteral l pos st) := by
  obtain ⟨rest, here⟩ := reached.exists_rest
  simp only [evalLiteral, here]
  cases size : l.matchSize? rest with
  | none => exact mark_follows coherent (.literal_failed here size)
  | some n =>
    obtain ⟨text, tail, rfl, rfl, -⟩ := Literal.matchSize?_eq_some size
    exact leaf_follows coherent (.literal here size)

theorem evalClass_follows (reached : s.source.Reached pos) (coherent : st.memo.Coherent s)
    (k : CharClass) : Follows s (.expr (.charClass k)) pos st (s.evalClass k pos st) := by
  obtain ⟨rest, here⟩ := reached.exists_rest
  simp only [evalClass, here]
  cases rest with
  | nil => exact mark_follows coherent (.charClass_failed here (by simp))
  | cons c rest =>
    by_cases member : k.contains c = true
    · simp only [member, if_true]
      exact leaf_follows coherent (.charClass here member)
    · simp only [member]
      exact mark_follows coherent (.charClass_failed here (by simpa using member))

theorem evalEnd_follows (reached : s.source.Reached pos) (coherent : st.memo.Coherent s) :
    Follows s (.expr .endOfInput) pos st (s.evalEnd pos st) := by
  obtain ⟨rest, here⟩ := reached.exists_rest
  simp only [evalEnd, Source.size_le_iff here]
  cases rest with
  | nil => exact ⟨coherent, .inr ⟨_, .endOfInput here, .matched (by simp) rfl⟩⟩
  | cons c rest => exact mark_follows coherent (.endOfInput_failed here)

section Lookahead

variable {e : Expr} {body : Eval V Position}

/-- A lookahead shows the verdict on its body without matches and misses. -/
theorem lookahead_follows
    (follows : ∀ st, st.memo.Coherent s → Follows s (.expr e) pos st (body st))
    (coherent : st.memo.Coherent s) : (lookahead body st).2.memo.Coherent s ∧
      ((lookahead body st).1 = .aborted (.fault .runaway) ∨
        ∃ v, Derives s (.expr e) pos v ∧ Shows st v.hushed (lookahead body st)) := by
  have inside := follows { st with failures := st.failures.suppress } coherent
  simp only [lookahead]
  generalize body { st with failures := st.failures.suppress } = result at inside ⊢
  obtain ⟨outcome, st'⟩ := result
  rcases inside with ⟨memo, rfl | ⟨v, d, shows⟩⟩
  · exact ⟨memo, .inl rfl⟩
  · refine ⟨memo, .inr ⟨v, d, ?_⟩⟩
    cases shows with
    | matched _ failures => exact .matched rfl (by simp [State.backTo, failures])
    | failed _ failures => exact .failed rfl (by simp [State.backTo, failures])
    | aborted => exact .aborted

theorem evalAhead_follows
    (follows : ∀ st, st.memo.Coherent s → Follows s (.expr e) pos st (body st))
    (coherent : st.memo.Coherent s) :
    Follows s (.expr (.ahead e)) pos st (evalAhead body pos st) := by
  rcases lookahead_follows follows coherent with ⟨memo, ended⟩
  simp only [evalAhead]
  generalize lookahead body st = result at memo ended ⊢
  obtain ⟨outcome, st'⟩ := result
  rcases ended with rfl | ⟨v, d, shows⟩
  · exact ⟨memo, .inl rfl⟩
  · cases v with
    | matched =>
      cases shows with
      | matched out failures => exact ⟨memo, .inr ⟨_, .ahead d, .matched out failures⟩⟩
    | failed =>
      cases shows with
      | failed out failures => exact ⟨memo, .inr ⟨_, .ahead d, .failed out failures⟩⟩
    | aborted =>
      cases shows with
      | aborted => exact ⟨memo, .inr ⟨_, .ahead d, .aborted⟩⟩

theorem evalNotAhead_follows
    (follows : ∀ st, st.memo.Coherent s → Follows s (.expr e) pos st (body st))
    (coherent : st.memo.Coherent s) :
    Follows s (.expr (.notAhead e)) pos st (evalNotAhead body pos st) := by
  rcases lookahead_follows follows coherent with ⟨memo, ended⟩
  simp only [evalNotAhead]
  generalize lookahead body st = result at memo ended ⊢
  obtain ⟨outcome, st'⟩ := result
  rcases ended with rfl | ⟨v, d, shows⟩
  · exact ⟨memo, .inl rfl⟩
  · cases v with
    | matched =>
      cases shows with
      | matched out failures => exact ⟨memo, .inr ⟨_, .notAhead d, .failed out failures⟩⟩
    | failed =>
      cases shows with
      | failed out failures => exact ⟨memo, .inr ⟨_, .notAhead d, .matched out failures⟩⟩
    | aborted =>
      cases shows with
      | aborted => exact ⟨memo, .inr ⟨_, .notAhead d, .aborted⟩⟩

end Lookahead

/-- The rounds make out what the repetition comes to, whatever its minimum is. -/
inductive ShowsRounds (s : Session V) (e : Expr) (most : Option Nat) (count : Nat) (pos : Position)
    (st : State V) : Outcome (Nat × Position) × State V → Prop where
  | matched :
      (∀ least, Derives s (.rounds e least most count) pos (.ofCount least total stop made misses)) →
      st'.out = made.reverse ++ st.out → st'.failures = st.failures.marks misses →
      ShowsRounds s e most count pos st (.matched (total, stop), st')
  | aborted : (∀ least, Derives s (.rounds e least most count) pos (.aborted why)) →
      ShowsRounds s e most count pos st (.aborted why, st')

theorem evalRounds_follows {e : Expr} {body : Position → Eval V Position}
    (faithful : Faithful s e body) (most : Option Nat) (gas count : Nat)
    (reached : s.source.Reached pos) (coherent : st.memo.Coherent s) :
    (evalRounds body most gas count pos st).2.memo.Coherent s ∧
      ((evalRounds body most gas count pos st).1 = .aborted (.fault .runaway) ∨
        ShowsRounds s e most count pos st (evalRounds body most gas count pos st)) := by
  induction gas generalizing count pos st with
  | zero =>
    rw [evalRounds]
    split
    · rename_i full
      exact ⟨coherent, .inr (.matched (fun _ => .rounds_full full) (by simp) rfl)⟩
    · exact ⟨coherent, .inl rfl⟩
  | succ gas ih =>
    rw [evalRounds]
    split
    · rename_i full
      exact ⟨coherent, .inr (.matched (fun _ => .rounds_full full) (by simp) rfl)⟩
    · rename_i room
      simp only [Bool.not_eq_true] at room
      have first := faithful pos st reached coherent
      generalize body pos st = result at first ⊢
      obtain ⟨outcome, st'⟩ := result
      rcases first with ⟨memo, rfl | ⟨v, d, shows⟩⟩
      · exact ⟨memo, .inl rfl⟩
      · cases shows with
        | matched out failures =>
          dsimp only
          split
          · rename_i still
            exact ⟨memo, .inr (.matched (fun _ => .rounds_still room d still) out failures)⟩
          · rename_i moved
            obtain ⟨memo', others⟩ := ih (count + 1) (d.reached reached) memo
            refine ⟨memo', others.imp_right fun others => ?_⟩
            generalize evalRounds body most gas (count + 1) _ st' = result at others ⊢
            cases others with
            | matched d' out' failures' =>
              refine .matched (fun least => ?_) (by rw [out', out, ← List.append_assoc,
                ← List.reverse_append]) (by rw [failures', failures, ← Failures.marks_append])
              rw [← Verdict.after_ofCount]
              exact .rounds_more room d moved (d' least)
            | aborted d' => exact .aborted fun least => .rounds_more room d moved (d' least)
        | failed out failures =>
          exact ⟨memo, .inr (.matched (fun _ => .rounds_failed room d) (by simp [out]) failures)⟩
        | aborted => exact ⟨memo, .inr (.aborted fun _ => .rounds_aborted room d)⟩

theorem evalRepeated_follows {e : Expr} {body : Position → Eval V Position}
    (faithful : Faithful s e body) (least : Nat) (most : Option Nat) (reached : s.source.Reached pos)
    (coherent : st.memo.Coherent s) :
    Follows s (.expr (.repeated e least most)) pos st (s.evalRepeated body least most pos st) := by
  obtain ⟨memo, rounds⟩ := evalRounds_follows faithful most
    (s.source.size - pos.offset + 1) 0 reached coherent
  simp only [evalRepeated]
  generalize evalRounds body most (s.source.size - pos.offset + 1) 0 pos st = result at memo rounds ⊢
  obtain ⟨outcome, st'⟩ := result
  rcases rounds with rfl | rounds
  · exact ⟨memo, .inl rfl⟩
  · cases rounds with
    | matched d out failures =>
      have d := Derives.repeated (d least)
      dsimp only
      simp only [Verdict.ofCount] at d
      split at d
      · rename_i enough
        rw [if_pos enough]
        exact ⟨memo, .inr ⟨_, d, .matched out failures⟩⟩
      · rename_i short
        rw [if_neg short]
        exact ⟨memo, .inr ⟨_, d, .failed rfl failures⟩⟩
    | aborted d => exact ⟨memo, .inr ⟨_, .repeated (d least), .aborted⟩⟩

theorem evalRef_follows {call : Call V} (faithful : FaithfulCall s call) (name : String)
    (reached : s.source.Reached pos) (coherent : st.memo.Coherent s) :
    Follows s (.expr (.ref name)) pos st (s.evalRef call name pos st) := by
  simp only [evalRef]
  cases found : s.grammar.find? name with
  | none => exact ⟨coherent, .inr ⟨_, .ref_undefined found, .aborted⟩⟩
  | some r =>
    have inner := faithful name r pos st found reached coherent
    dsimp only
    generalize call r pos st = result at inner ⊢
    obtain ⟨outcome, st'⟩ := result
    rcases inner with ⟨memo, rfl | ⟨v, d, shows⟩⟩
    · exact ⟨memo, .inl rfl⟩
    · cases shows with
      | matched out failures =>
        refine ⟨?_, .inr ⟨_, .ref found d, .matched ?_ ?_⟩⟩ <;> cases r.silent <;>
          simp [State.push, out, failures, memo]
      | failed out failures => exact ⟨memo, .inr ⟨_, .ref found d, .failed out failures⟩⟩
      | aborted => exact ⟨memo, .inr ⟨_, .ref found d, .aborted⟩⟩

theorem evalExpr_seq (s : Session V) (call : Call V) (parts : List Expr) :
    s.evalExpr call (.seq parts) pos st = restored st (s.evalSeq call parts pos st) := by
  rw [evalExpr]
  rcases s.evalSeq call parts pos st with ⟨_ | _ | _, st'⟩ <;> rfl

mutual

theorem evalExpr_follows {call : Call V} (faithful : FaithfulCall s call) :
    (e : Expr) → Faithful s e (s.evalExpr call e)
  | .literal l, _, _, reached, coherent => evalLiteral_follows reached coherent l
  | .charClass k, _, _, reached, coherent => evalClass_follows reached coherent k
  | .endOfInput, _, _, reached, coherent => evalEnd_follows reached coherent
  | .ref name, _, _, reached, coherent => by
    rw [evalExpr]
    exact evalRef_follows faithful name reached coherent
  | .ahead body, _, _, reached, coherent => by
    rw [evalExpr]
    exact evalAhead_follows (fun _ => evalExpr_follows faithful body _ _ reached) coherent
  | .notAhead body, _, _, reached, coherent => by
    rw [evalExpr]
    exact evalNotAhead_follows (fun _ => evalExpr_follows faithful body _ _ reached) coherent
  | .repeated body least most, _, _, reached, coherent => by
    rw [evalExpr]
    exact evalRepeated_follows (evalExpr_follows faithful body) least most reached coherent
  | .choice alternatives, pos, st, reached, coherent => by
    rw [evalExpr]
    exact evalChoice_follows faithful alternatives pos st reached coherent
  | .seq parts, pos, st, reached, coherent => by
    rw [evalExpr_seq]
    exact evalSeq_follows faithful parts pos st reached coherent

theorem evalSeq_follows {call : Call V} (faithful : FaithfulCall s call) :
    (parts : List Expr) → Faithful s (.seq parts) fun pos st =>
      restored st (s.evalSeq call parts pos st)
  | [], pos, st, _, coherent => by
    simp only [evalSeq]
    exact ⟨coherent, .inr ⟨_, .seq_nil, .matched (by simp) rfl⟩⟩
  | e :: rest, pos, st, reached, coherent => by
    simp only [evalSeq]
    have first := evalExpr_follows faithful e pos st reached coherent
    generalize s.evalExpr call e pos st = result at first ⊢
    obtain ⟨outcome, st'⟩ := result
    rcases first with ⟨memo, rfl | ⟨v, d, shows⟩⟩
    · exact ⟨memo, .inl rfl⟩
    · cases shows with
      | matched out failures =>
        have others := evalSeq_follows faithful rest _ st' (d.reached reached) memo
        dsimp only at others ⊢
        generalize s.evalSeq call rest _ st' = result at others ⊢
        obtain ⟨memo', ended⟩ := others
        refine ⟨?_, ?_⟩
        · rcases result with ⟨_ | _ | _, st''⟩ <;> exact memo'
        · refine ended.imp (fun h => ?_) fun ⟨v, d', shows⟩ =>
            ⟨_, .seq_cons d d', shows.restored out failures⟩
          rcases result with ⟨_ | _ | _, st''⟩ <;> exact h
      | failed out failures => exact ⟨memo, .inr ⟨_, .seq_stop d rfl, .failed rfl failures⟩⟩
      | aborted => exact ⟨memo, .inr ⟨_, .seq_stop d rfl, .aborted⟩⟩

theorem evalChoice_follows {call : Call V} (faithful : FaithfulCall s call) :
    (alternatives : List Expr) → Faithful s (.choice alternatives) (s.evalChoice call alternatives)
  | [], pos, st, _, coherent => by
    rw [evalChoice]
    exact ⟨coherent, .inr ⟨_, .choice_nil, .failed rfl rfl⟩⟩
  | e :: rest, pos, st, reached, coherent => by
    rw [evalChoice]
    have first := evalExpr_follows faithful e pos st reached coherent
    generalize s.evalExpr call e pos st = result at first ⊢
    obtain ⟨outcome, st'⟩ := result
    rcases first with ⟨memo, rfl | ⟨v, d, shows⟩⟩
    · exact ⟨memo, .inl rfl⟩
    · cases shows with
      | matched out failures => exact ⟨memo, .inr ⟨_, .choice_take d rfl, .matched out failures⟩⟩
      | aborted => exact ⟨memo, .inr ⟨_, .choice_take d rfl, .aborted⟩⟩
      | failed out failures =>
        have others := evalChoice_follows faithful rest pos (st'.backTo st) reached memo
        exact ⟨others.memo, others.verdict.imp_right fun ⟨v, d', shows⟩ =>
          ⟨_, .choice_next d d', shows.next (show (st'.backTo st).out = st.out from rfl) failures⟩⟩

end

end Session

end Packrat
