import Packrat.Proofs.Session.Termination

/-! The matches that an evaluation makes are pieces of the input, one after the other. If every rule that
the expression refers to passes its match on, they are all of the input that was matched. -/
namespace Packrat

def Match.stop {V : Type} (m : Match V) : Position := m.start.advanceOver m.text

variable {V : Type} {source : Source} {pos mid stop : Position} {text : List Char}
  {made made' : List (Match V)}

namespace Source

/-- The matches stand in order between the two places, and the text of each is what the input holds at
its place. -/
structure Tiled (source : Source) (pos : Position) (made : List (Match V)) (stop : Position) : Prop where
  forward : pos.offset ≤ stop.offset
  texts : ∀ m ∈ made, source.slice? m.start m.stop = some m.text
  ordered : made.Pairwise fun a b => a.stop.offset ≤ b.start.offset
  inside : ∀ m ∈ made, pos.offset ≤ m.start.offset ∧ m.stop.offset ≤ stop.offset

theorem Tiled.nil (source : Source) (pos : Position) :
    source.Tiled pos ([] : List (Match V)) pos :=
  ⟨le_rfl, by simp, .nil, by simp⟩

theorem Between.tiled (between : source.Between pos text stop) (value : V) :
    source.Tiled pos [⟨text, value, pos⟩] stop := by
  have le := between.le
  have slice := between.slice
  obtain ⟨rest, -, rfl⟩ := between
  exact ⟨le, by simpa [Match.stop] using slice, by simp, by simp [Match.stop]⟩

theorem Tiled.append (first : source.Tiled pos made mid) (second : source.Tiled mid made' stop) :
    source.Tiled pos (made ++ made') stop where
  forward := first.forward.trans second.forward
  texts m member := (List.mem_append.mp member).elim (first.texts m) (second.texts m)
  ordered := by
    refine List.pairwise_append.mpr ⟨first.ordered, second.ordered, ?_⟩
    intro a before b after
    exact (first.inside a before).2.trans (second.inside b after).1
  inside m member := by
    rcases List.mem_append.mp member with before | after
    · have := first.inside m before
      exact ⟨this.1, this.2.trans second.forward⟩
    · have := second.inside m after
      exact ⟨first.forward.trans this.1, this.2⟩

/-- Between a place and itself stands nothing. -/
theorem Between.eq_nil (between : source.Between pos text stop) (still : stop.offset = pos.offset) :
    text = [] := by
  obtain ⟨rest, -, rfl⟩ := between
  exact Text.eq_nil_of_byteSize (by simpa using still)

end Source

namespace Verdict

def Tiles (source : Source) (pos : Position) : Verdict V → Prop
  | matched stop made _ => source.Tiled pos made stop
  | _ => True

theorem Tiles.after {v : Verdict V} (first : source.Tiled pos made mid) (others : v.Tiles source mid)
    (misses : List Miss) : (v.after made misses).Tiles source pos := by
  cases v with
  | matched => exact first.append others
  | failed | aborted => trivial

theorem tiles_ofCount {least count : Nat} (tiled : source.Tiled pos made stop) (misses : List Miss) :
    (ofCount least count stop made misses).Tiles source pos := by
  simp only [ofCount]
  split
  · exact tiled
  · trivial

def Covers (source : Source) (pos : Position) : Verdict V → Prop
  | matched stop made _ => source.Between pos (made.flatMap Match.text) stop
  | _ => True

theorem Covers.after {v : Verdict V} (first : source.Between pos (made.flatMap Match.text) mid)
    (others : v.Covers source mid) (misses : List Miss) :
    (v.after made misses).Covers source pos := by
  cases v with
  | matched =>
    rw [Covers] at others
    simpa [Covers, Verdict.after] using first.trans others
  | failed | aborted => trivial

theorem covers_ofCount {least count : Nat}
    (between : source.Between pos (made.flatMap Match.text) stop) (misses : List Miss) :
    (ofCount least count stop made misses).Covers source pos := by
  simp only [ofCount]
  split
  · exact between
  · trivial

end Verdict

section Semantics

variable [Value V] {s : Session V} {t : Task} {v : Verdict V}

theorem Derives.tiles (d : Derives s t pos v) (reached : s.source.Reached pos) :
    v.Tiles s.source pos := by
  induction d with
  | literal here | charClass here => exact Source.Between.tiled ⟨_, here, rfl⟩ _
  | endOfInput | seq_nil => exact .nil ..
  | literal_failed | charClass_failed | endOfInput_failed | choice_nil | rounds_aborted
  | ref_undefined | call_refused | call_failed | call_aborted => trivial
  | seq_cons first _ ih ih' | rounds_more _ first _ _ ih ih' =>
    exact .after (ih reached) (ih' (first.reached reached)) _
  | seq_stop _ _ ih | choice_take _ _ ih | repeated _ ih => exact ih reached
  | choice_next _ _ _ ih => exact .after (.nil ..) (ih reached) _
  | rounds_full | rounds_failed => exact Verdict.tiles_ofCount (.nil ..) _
  | rounds_still _ _ still ih =>
    have tiled := ih reached
    exact Verdict.tiles_ofCount
      ⟨le_rfl, tiled.texts, tiled.ordered, fun m member => still ▸ tiled.inside m member⟩ _
  | @ahead _ _ v _ _ | @notAhead _ _ v _ _ =>
    cases v
    all_goals first
      | exact .nil ..
      | trivial
  | @ref _ _ v r _ _ ih =>
    cases v with
    | matched =>
      cases r.silent with
      | false => exact ih reached
      | true => exact ⟨(ih reached).forward, by simp, .nil, by simp⟩
    | failed | aborted => trivial
  | call_matched _ body slice =>
    obtain ⟨text, between⟩ := body.between reached
    obtain rfl := Option.some.inj (between.slice.symm.trans slice)
    exact between.tiled _

end Semantics

namespace Expr

mutual

/-- The rules that the expression itself refers to, outside lookaheads. -/
def exposed : Expr → List String
  | ref name => [name]
  | seq parts => exposedOf parts
  | choice alternatives => exposedOf alternatives
  | repeated body _ _ => exposed body
  | ahead _ | notAhead _ | literal _ | charClass _ | endOfInput => []

def exposedOf : List Expr → List String
  | [] => []
  | e :: rest => exposed e ++ exposedOf rest

end

end Expr

/-- No rule is silent that the expression itself refers to outside lookaheads. -/
def Grammar.Audible (g : Grammar V) (e : Expr) : Prop :=
  ∀ name ∈ e.exposed, (g.find? name).all fun r => !r.silent

namespace Grammar.Audible

variable {g : Grammar V} {e : Expr} {rest : List Expr}

theorem seq (audible : g.Audible (.seq (e :: rest))) : g.Audible e ∧ g.Audible (.seq rest) := by
  simp only [Audible, Expr.exposed, Expr.exposedOf, List.forall_mem_append] at audible ⊢
  exact audible

theorem choice (audible : g.Audible (.choice (e :: rest))) :
    g.Audible e ∧ g.Audible (.choice rest) := by
  simp only [Audible, Expr.exposed, Expr.exposedOf, List.forall_mem_append] at audible ⊢
  exact audible

theorem repeated {body : Expr} {least : Nat} {most : Option Nat}
    (audible : g.Audible (.repeated body least most)) : g.Audible body := by
  rwa [Audible, Expr.exposed] at audible

theorem ref {name : String} {r : Rule V} (audible : g.Audible (.ref name))
    (found : g.find? name = some r) : r.silent = false := by
  have loud := audible name (by simp [Expr.exposed])
  simpa [found] using loud

end Grammar.Audible

/-- What a task passes on is all that it matches. A rule itself always yields its match. -/
def Task.Audible (g : Grammar V) : Task → Prop
  | expr e => g.Audible e
  | rounds body .. => g.Audible body
  | call _ => True

section Coverage

variable [Value V] {s : Session V} {t : Task} {v : Verdict V}

theorem Derives.covers (d : Derives s t pos v) (audible : t.Audible s.grammar)
    (reached : s.source.Reached pos) : v.Covers s.source pos := by
  induction d with
  | literal here | charClass here => exact ⟨_, by simpa using here, by simp⟩
  | endOfInput here => exact .refl here
  | seq_nil => exact reached.between_self
  | literal_failed | charClass_failed | endOfInput_failed | choice_nil | rounds_aborted
  | ref_undefined | call_refused | call_failed | call_aborted => trivial
  | seq_cons first _ ih ih' =>
    obtain ⟨audible, audible'⟩ := Grammar.Audible.seq audible
    exact .after (ih audible reached) (ih' audible' (first.reached reached)) _
  | rounds_more _ first _ _ ih ih' =>
    exact .after (ih audible reached) (ih' audible (first.reached reached)) _
  | seq_stop _ stopped ih => exact ih (Grammar.Audible.seq audible).1 reached
  | choice_take _ _ ih => exact ih (Grammar.Audible.choice audible).1 reached
  | choice_next _ _ _ ih =>
    exact .after (reached.between_self)
      (ih (Grammar.Audible.choice audible).2 reached) _
  | repeated _ ih => exact ih (Grammar.Audible.repeated audible) reached
  | rounds_full | rounds_failed =>
    exact Verdict.covers_ofCount (reached.between_self) _
  | rounds_still _ _ still ih =>
    have between := ih audible reached
    refine Verdict.covers_ofCount ?_ _
    rw [between.eq_nil still]
    exact reached.between_self
  | @ahead _ _ v _ _ | @notAhead _ _ v _ _ =>
    cases v
    all_goals first
      | exact reached.between_self
      | trivial
  | @ref _ _ v r found _ ih =>
    cases v with
    | matched => simpa [Verdict.silence, Grammar.Audible.ref audible found] using ih trivial reached
    | failed | aborted => trivial
  | call_matched _ body slice =>
    obtain ⟨text, between⟩ := body.between reached
    obtain rfl := Option.some.inj (between.slice.symm.trans slice)
    simpa [Verdict.Covers] using between

/-- The matches that an evaluation adds tile the input from its place to its end. Unless the expression
itself refers to a silent rule, their texts together are what stands there. -/
theorem Session.eval_tiles {st : State V} {e : Expr} (arises : st.memo.Arises s)
    (reached : s.source.Reached pos) (matched : (s.eval e pos st).1 = .matched stop) :
    ∃ made, (s.eval e pos st).2.out = made.reverse ++ st.out ∧ s.source.Tiled pos made stop ∧
      (s.grammar.Audible e → s.source.slice? pos stop = some (made.flatMap Match.text)) := by
  obtain ⟨-, verdict⟩ := s.eval_follows e pos st reached arises.coherent
  generalize s.eval e pos st = result at matched verdict ⊢
  obtain ⟨outcome, st'⟩ := result
  subst matched
  rcases verdict with runaway | ⟨v, d, shows⟩
  · cases runaway
  · cases shows with
    | @matched _ _ made _ out _ =>
      exact ⟨made, out, d.tiles reached, fun audible => (d.covers audible reached).slice⟩

end Coverage

def spacedWords : Grammar String := .ofRules [
  { name := "word", body := .seq [.plus (.charClass (CharClass.empty.addRange 'a' 'z')), .ref "blanks"] },
  { name := "blanks", body := .star (.lit " "), silent := true }]

/-- A word tried as a key, a comma before no word and a lookahead leave nothing behind. -/
theorem spacedWords_tiled :
    let s := Session.ofText spacedWords "ab ,c ,1".toList
    let list : Expr := .seq [.choice [.seq [.ref "word", .lit ":"], .ref "word"],
      .star (.seq [.lit ",", .ref "word"]), .ahead (.lit ",")]
    (State.initial : State String).memo.Arises s ∧ s.source.Reached Position.start ∧
      (s.eval list Position.start .initial).1 = .matched ⟨6, 1, 7⟩ ∧ spacedWords.Audible list ∧
      ∃ made, (s.eval list Position.start .initial).2.out = made.reverse ∧
        s.source.Tiled Position.start made ⟨6, 1, 7⟩ ∧
        s.source.slice? Position.start ⟨6, 1, 7⟩ = some (made.flatMap Match.text) := by
  intro s list
  have fresh : (State.initial : State String).memo.Arises s := .empty
  have reached : s.source.Reached Position.start := Source.reached_start _
  have matched : (s.eval list Position.start .initial).1 = .matched ⟨6, 1, 7⟩ := by decide +kernel
  have audible : spacedWords.Audible list := by unfold Grammar.Audible; decide +kernel
  obtain ⟨made, out, tiled, covered⟩ := Session.eval_tiles fresh reached matched
  exact ⟨fresh, reached, matched, audible, made, out.trans (List.append_nil _), tiled, covered audible⟩

end Packrat
