import Packrat.Proofs.Semantics

/-! Derivations built from single characters: literals, and repetitions that take all the characters of a
kind that stand at a place. -/
namespace Packrat

def Halts (p : Char → Bool) (rest : List Char) : Prop := ∀ c ∈ rest.head?, p c = false

theorem halts_nil (p : Char → Bool) : Halts p [] := by simp [Halts]

theorem halts_dropWhile (p : Char → Bool) (text : List Char) : Halts p (text.dropWhile p) := by
  intro c head
  have first := List.head?_dropWhile_not p text
  rw [head] at first
  exact first

theorem Halts.imp {p q : Char → Bool} {rest : List Char} (halts : Halts p rest)
    (weaker : ∀ c, q c → p c) : Halts q rest := by
  intro c head
  have apart := halts c head
  cases still : q c with
  | false => rfl
  | true => simp [weaker c still] at apart

@[simp] theorem Verdict.after_after {V : Type} (v : Verdict V) (made made' : List (Match V))
    (misses misses' : List Miss) :
    (v.after made' misses').after made misses = v.after (made ++ made') (misses ++ misses') := by
  cases v <;> simp [after]

variable {V : Type} [Value V] {s : Session V} {pos : Position} {text rest : List Char}

namespace Derives

theorem seq_last {e : Expr} {v : Verdict V} (d : Derives s (.expr e) pos v) :
    Derives s (.expr (.seq [e])) pos v := by
  cases v with
  | matched stop made misses => simpa [Verdict.after] using d.seq_cons .seq_nil
  | failed | aborted => exact d.seq_stop rfl

theorem choice_last {e : Expr} {v : Verdict V} (d : Derives s (.expr e) pos v) :
    Derives s (.expr (.choice [e])) pos v := by
  cases v with
  | failed misses => simpa [Verdict.after] using d.choice_next .choice_nil
  | matched | aborted => exact d.choice_take rfl

theorem lit {text : String} (here : s.source.rest? pos = some (text.toList ++ rest)) :
    Derives s (.expr (.lit text)) pos
      (.matched (pos.advanceOver text.toList) [⟨text.toList, Value.ofText text.toList, pos⟩] []) :=
  .literal here (by simp [Literal.matchSize?])

/-- A reference to a rule that passes its match on. -/
theorem ref_call {name : String} {r : Rule V} {v : Verdict V} (found : s.grammar.find? name = some r)
    (loud : r.silent = false) (d : Derives s (.call name) pos v) :
    Derives s (.expr (.ref name)) pos v := by
  have d' := Derives.ref found d
  rw [loud] at d'
  cases v <;> exact d'

theorem ref_silent {name : String} {r : Rule V} {stop : Position} {made : List (Match V)}
    {misses : List Miss} (found : s.grammar.find? name = some r) (silent : r.silent = true)
    (d : Derives s (.call name) pos (.matched stop made misses)) :
    Derives s (.expr (.ref name)) pos (.matched stop [] misses) := by
  have d' := Derives.ref found d
  rw [silent] at d'
  exact d'

theorem lit_failed {text : String} (here : s.source.rest? pos = some rest)
    (apart : ¬ text.toList <+: rest) : Derives s (.expr (.lit text)) pos (.failed [⟨pos, text⟩]) :=
  .literal_failed here (by simp [Literal.matchSize?, apart])

end Derives

structure OneChar (s : Session V) (e : Expr) (p : Char → Bool) : Prop where
  matched {pos : Position} {c : Char} {rest : List Char} :
    s.source.rest? pos = some (c :: rest) → p c → ∃ m : Match V, m.text = [c] ∧
      Derives s (.expr e) pos (.matched (pos.advanceOver [c]) [m] [])
  failed {pos : Position} {rest : List Char} :
    s.source.rest? pos = some rest → Halts p rest → ∃ misses,
      Derives s (.expr e) pos (.failed misses)

namespace OneChar

variable {e : Expr} {p : Char → Bool}

theorem charClass (k : CharClass) : OneChar s (.charClass k) k.contains where
  matched here member := ⟨_, rfl, .charClass here member⟩
  failed here halts := ⟨_, .charClass_failed here halts⟩

/-- The rounds of a repetition take all the characters of the kind. -/
theorem rounds (one : OneChar s e p) (least count : Nat)
    (here : s.source.rest? pos = some (text ++ rest)) (all : ∀ c ∈ text, p c) (halts : Halts p rest) :
    ∃ made misses, made.flatMap Match.text = text ∧
      Derives s (.rounds e least none count) pos
        (.ofCount least (count + text.length) (pos.advanceOver text) made misses) := by
  induction text generalizing pos count with
  | nil =>
    obtain ⟨misses, d⟩ := one.failed here halts
    exact ⟨[], misses, rfl, .rounds_failed rfl d⟩
  | cons c text ih =>
    obtain ⟨m, spelled, d⟩ := one.matched here (all c (List.mem_cons_self ..))
    have there : s.source.rest? (pos.advanceOver [c]) = some (text ++ rest) :=
      Source.rest?_advanceOver here
    obtain ⟨made, misses, spelled', d'⟩ := ih (count + 1) there
      (fun c member => all c (List.mem_cons_of_mem _ member))
    have moved : (pos.advanceOver [c]).offset ≠ pos.offset := by
      have := c.utf8Size_pos
      simp
      omega
    refine ⟨m :: made, misses, by simp [spelled, spelled'], ?_⟩
    have d'' := Derives.rounds_more rfl d moved d'
    rw [Verdict.after_ofCount, ← Position.advanceOver_append] at d''
    simpa [Nat.add_assoc, Nat.add_comm 1] using d''

theorem star (one : OneChar s e p) (here : s.source.rest? pos = some (text ++ rest))
    (all : ∀ c ∈ text, p c) (halts : Halts p rest) :
    ∃ made misses, made.flatMap Match.text = text ∧
      Derives s (.expr (.star e)) pos (.matched (pos.advanceOver text) made misses) := by
  obtain ⟨made, misses, spelled, d⟩ := one.rounds 0 0 here all halts
  exact ⟨made, misses, spelled, .repeated d⟩

theorem plus (one : OneChar s e p) (here : s.source.rest? pos = some (text ++ rest))
    (all : ∀ c ∈ text, p c) (halts : Halts p rest) (nonempty : text ≠ []) :
    ∃ made misses, made.flatMap Match.text = text ∧
      Derives s (.expr (.plus e)) pos (.matched (pos.advanceOver text) made misses) := by
  obtain ⟨made, misses, spelled, d⟩ := one.rounds 1 0 here all halts
  have enough : 1 ≤ 0 + text.length := by
    have := List.length_pos_of_ne_nil nonempty
    omega
  rw [Verdict.ofCount, if_pos enough] at d
  exact ⟨made, misses, spelled, .repeated d⟩

theorem plus_failed (one : OneChar s e p) (here : s.source.rest? pos = some rest)
    (halts : Halts p rest) : ∃ misses, Derives s (.expr (.plus e)) pos (.failed misses) := by
  have nothing : s.source.rest? pos = some ([] ++ rest) := here
  obtain ⟨made, misses, -, d⟩ := one.rounds 1 0 nothing (by simp) halts
  exact ⟨misses, .repeated d⟩

end OneChar

end Packrat
