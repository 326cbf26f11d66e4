import Packrat.Proofs.Misses
import Packrat.Proofs.Source
import Packrat.Session

/-! What an expression means at a place, without fuel, kept outcomes or a state: it matches with these
matches, fails, or ends the evaluation, and on the way these failures occur. The rules do not look at
which of the grammar's rules are cached. -/
namespace Packrat

/-- What is evaluated at a place. -/
inductive Task where
  | expr (e : Expr)
  | rounds (body : Expr) (least : Nat) (most : Option Nat) (count : Nat)
  | call (name : String)

/-- What a task comes to: the matches in the order of the input, the failures in the order in which
they occur. -/
inductive Verdict (V : Type) where
  | matched (stop : Position) (made : List (Match V)) (misses : List Miss)
  | failed (misses : List Miss)
  | aborted (why : Abort)

namespace Verdict

variable {V : Type}

/-- The verdict on a task of which a first part has already made these matches and misses. -/
def after (made : List (Match V)) (misses : List Miss) : Verdict V → Verdict V
  | matched stop made' misses' => matched stop (made ++ made') (misses ++ misses')
  | failed misses' => failed (misses ++ misses')
  | aborted why => aborted why

def ahead (pos : Position) : Verdict V → Verdict V
  | matched .. => matched pos [] []
  | failed _ => failed []
  | aborted why => aborted why

def notAhead (pos : Position) : Verdict V → Verdict V
  | matched .. => failed []
  | failed _ => matched pos [] []
  | aborted why => aborted why

/-- A repetition that stopped after `count` matches. -/
def ofCount (least count : Nat) (stop : Position) (made : List (Match V)) (misses : List Miss) :
    Verdict V :=
  if least ≤ count then matched stop made misses else failed misses

@[simp] theorem after_ofCount (least count : Nat) (stop : Position) (made made' : List (Match V))
    (misses misses' : List Miss) : (ofCount least count stop made' misses').after made misses =
      ofCount least count stop (made ++ made') (misses ++ misses') := by
  simp only [ofCount]
  split <;> rfl

/-- The verdict on a rule as its user sees it. -/
def silence (silent : Bool) : Verdict V → Verdict V
  | matched stop made misses => matched stop (if silent then [] else made) misses
  | v => v

def isMatched : Verdict V → Bool
  | matched .. => true
  | _ => false

def isFailed : Verdict V → Bool
  | failed _ => true
  | _ => false

end Verdict

namespace Rule

variable {V : Type} [Value V]

def value (r : Rule V) (text : List Char) (made : List (Match V)) : Except FoldError V :=
  r.fold.elim (.ok (Value.ofText text)) fun fold => fold made

def refusal (r : Rule V) (start : Position) : FoldError → Abort
  | .reject reason => .rejected reason start
  | .inconsistent reason => .inconsistent r.name reason

/-- What a failed rule tells of the failures in its body: all, or in their place its label at the
furthest of them. -/
def tells (r : Rule V) (start : Position) (misses : List Miss) : List Miss :=
  r.label.elim misses fun label => [⟨(Miss.furthest? misses).getD start, label⟩]

end Rule

/-- The task comes to this verdict at this place. -/
inductive Derives {V : Type} [Value V] (s : Session V) : Task → Position → Verdict V → Prop where
  | literal {l : Literal} {text rest : List Char} :
      s.source.rest? pos = some (text ++ rest) →
      l.matchSize? (text ++ rest) = some (Text.byteSize text) →
      Derives s (.expr (.literal l)) pos
        (.matched (pos.advanceOver text) [⟨text, Value.ofText text, pos⟩] [])
  | literal_failed {l : Literal} :
      s.source.rest? pos = some rest → l.matchSize? rest = none →
      Derives s (.expr (.literal l)) pos (.failed [⟨pos, l.text⟩])
  | charClass {k : CharClass} :
      s.source.rest? pos = some (c :: rest) → k.contains c →
      Derives s (.expr (.charClass k)) pos
        (.matched (pos.advanceOver [c]) [⟨[c], Value.ofText [c], pos⟩] [])
  | charClass_failed {k : CharClass} :
      s.source.rest? pos = some rest → (∀ c ∈ rest.head?, k.contains c = false) →
      Derives s (.expr (.charClass k)) pos (.failed [⟨pos, k.describe⟩])
  | endOfInput :
      s.source.rest? pos = some [] → Derives s (.expr .endOfInput) pos (.matched pos [] [])
  | endOfInput_failed :
      s.source.rest? pos = some (c :: rest) →
      Derives s (.expr .endOfInput) pos (.failed [⟨pos, "end of input"⟩])
  | seq_nil : Derives s (.expr (.seq [])) pos (.matched pos [] [])
  | seq_cons :
      Derives s (.expr e) pos (.matched next made misses) → Derives s (.expr (.seq rest)) next v →
      Derives s (.expr (.seq (e :: rest))) pos (v.after made misses)
  | seq_stop :
      Derives s (.expr e) pos v → v.isMatched = false → Derives s (.expr (.seq (e :: rest))) pos v
  | choice_nil : Derives s (.expr (.choice [])) pos (.failed [])
  | choice_take :
      Derives s (.expr e) pos v → v.isFailed = false → Derives s (.expr (.choice (e :: rest))) pos v
  | choice_next :
      Derives s (.expr e) pos (.failed misses) → Derives s (.expr (.choice rest)) pos v →
      Derives s (.expr (.choice (e :: rest))) pos (v.after [] misses)
  | repeated :
      Derives s (.rounds body least most 0) pos v → Derives s (.expr (.repeated body least most)) pos v
  | rounds_full :
      most.any (· ≤ count) = true →
      Derives s (.rounds body least most count) pos (.ofCount least count pos [] [])
  | rounds_failed :
      most.any (· ≤ count) = false → Derives s (.expr body) pos (.failed misses) →
      Derives s (.rounds body least most count) pos (.ofCount least count pos [] misses)
  /-- A match that does not move counts once, its matches are kept, and the rounds end. -/
  | rounds_still :
      most.any (· ≤ count) = false → Derives s (.expr body) pos (.matched next made misses) →
      next.offset = pos.offset →
      Derives s (.rounds body least most count) pos (.ofCount least (count + 1) pos made misses)
  | rounds_more :
      most.any (· ≤ count) = false → Derives s (.expr body) pos (.matched next made misses) →
      next.offset ≠ pos.offset → Derives s (.rounds body least most (count + 1)) next v →
      Derives s (.rounds body least most count) pos (v.after made misses)
  | rounds_aborted :
      most.any (· ≤ count) = false → Derives s (.expr body) pos (.aborted why) →
      Derives s (.rounds body least most count) pos (.aborted why)
  | ahead : Derives s (.expr body) pos v → Derives s (.expr (.ahead body)) pos (v.ahead pos)
  | notAhead :
      Derives s (.expr body) pos v → Derives s (.expr (.notAhead body)) pos (v.notAhead pos)
  | ref {r : Rule V} :
      s.grammar.find? name = some r → Derives s (.call name) pos v →
      Derives s (.expr (.ref name)) pos (v.silence r.silent)
  | ref_undefined :
      s.grammar.find? name = none →
      Derives s (.expr (.ref name)) pos (.aborted (.undefinedRule name))
  | call_matched {r : Rule V} :
      s.grammar.find? name = some r → Derives s (.expr r.body) pos (.matched stop made misses) →
      s.source.slice? pos stop = some text → r.value text made = .ok value →
      Derives s (.call name) pos (.matched stop [⟨text, value, pos⟩] misses)
  | call_refused {r : Rule V} :
      s.grammar.find? name = some r → Derives s (.expr r.body) pos (.matched stop made misses) →
      s.source.slice? pos stop = some text → r.value text made = .error e →
      Derives s (.call name) pos (.aborted (r.refusal pos e))
  | call_failed {r : Rule V} :
      s.grammar.find? name = some r → Derives s (.expr r.body) pos (.failed misses) →
      Derives s (.call name) pos (.failed (r.tells pos misses))
  | call_aborted {r : Rule V} :
      s.grammar.find? name = some r → Derives s (.expr r.body) pos (.aborted why) →
      Derives s (.call name) pos (.aborted why)

section Fault

variable {V : Type} {v : Verdict V}

theorem Verdict.after_eq_aborted {made : List (Match V)} {misses : List Miss} {why : Abort}
    (h : v.after made misses = .aborted why) : v = .aborted why := by
  cases v <;> cases h
  rfl

theorem Verdict.ofCount_ne_aborted {least count : Nat} {stop : Position} {made : List (Match V)}
    {misses : List Miss} {why : Abort} : ofCount least count stop made misses ≠ .aborted why := by
  simp only [ofCount]
  split <;> nofun

/-- The semantics knows no faults. -/
theorem Derives.ne_fault [Value V] {s : Session V} {t : Task} (d : Derives s t pos v) (why : Fault) :
    v ≠ .aborted (.fault why) := by
  intro fault
  induction d with
  | seq_cons _ _ _ ih | choice_next _ _ _ ih | rounds_more _ _ _ _ _ ih =>
    exact ih (Verdict.after_eq_aborted fault)
  | seq_stop _ _ ih | choice_take _ _ ih | repeated _ ih | rounds_aborted _ _ ih
  | call_aborted _ _ ih => exact ih fault
  | rounds_full | rounds_failed | rounds_still => exact Verdict.ofCount_ne_aborted fault
  | @ahead _ _ v _ ih | @notAhead _ _ v _ ih | @ref _ _ v _ _ _ ih =>
    cases v <;> cases fault
    exact ih rfl
  | call_refused =>
    simp only [Rule.refusal] at fault
    split at fault <;> cases fault
  | _ => cases fault

end Fault

end Packrat
