import Packrat.Session

/-! Evaluation of expressions and rules. Expressions are evaluated by recursion on themselves, given
what an invocation of a rule does; invocations by recursion on the number of rules that may still be
active at once. -/
namespace Packrat

variable {V : Type} [Value V]

abbrev Eval (V α : Type) := State V → Outcome α × State V

abbrev Call (V : Type) := Rule V → Position → Eval V (Position × Match V)

namespace Session

def leaf (rest : List Char) (size : Nat) (pos : Position) : Eval V Position := fun st =>
  match Text.takeBytes? rest size with
  | none => (.aborted (.fault .offBoundary), st)
  | some text => (.matched (pos.advanceOver text), st.push ⟨text, Value.ofText text, pos⟩)

def evalLiteral (s : Session V) (l : Literal) (pos : Position) : Eval V Position := fun st =>
  match s.source.rest? pos with
  | none => (.aborted (.fault .offBoundary), st)
  | some rest =>
    match l.matchSize? rest with
    | some size => leaf rest size pos st
    | none => (.failed, st.mark pos l.text)

def evalClass (s : Session V) (k : CharClass) (pos : Position) : Eval V Position := fun st =>
  match s.source.rest? pos with
  | none => (.aborted (.fault .offBoundary), st)
  | some [] => (.failed, st.mark pos k.describe)
  | some (c :: rest) =>
    if k.contains c then leaf (c :: rest) c.utf8Size pos st else (.failed, st.mark pos k.describe)

def evalEnd (s : Session V) (pos : Position) : Eval V Position := fun st =>
  if s.source.size ≤ pos.offset then (.matched pos, st) else (.failed, st.mark pos "end of input")

/-- Evaluate without recording failures, and take back the matches made. -/
def lookahead (body : Eval V Position) : Eval V Position := fun st =>
  match body { st with failures := st.failures.suppress } with
  | (outcome, st') => (outcome, { st' with failures := st'.failures.release }.backTo st)

def evalAhead (body : Eval V Position) (pos : Position) : Eval V Position := fun st =>
  match lookahead body st with
  | (.matched _, st') => (.matched pos, st')
  | (outcome, st') => (outcome, st')

def evalNotAhead (body : Eval V Position) (pos : Position) : Eval V Position := fun st =>
  match lookahead body st with
  | (.matched _, st') => (.failed, st')
  | (.failed, st') => (.matched pos, st')
  | (.aborted why, st') => (.aborted why, st')

/-- Repeat `body` until it fails, has matched `max` times, or matches without moving. `gas` bounds the
number of rounds left. The result holds the number of matches. -/
def evalRounds (body : Position → Eval V Position) (max : Option Nat) :
    Nat → Nat → Position → Eval V (Nat × Position)
  | gas, count, pos, st =>
    if max.any (· ≤ count) then (.matched (count, pos), st)
    else
      match gas with
      | 0 => (.aborted (.fault .runaway), st)
      | gas + 1 =>
        match body pos st with
        | (.matched next, st') =>
          if next.offset = pos.offset then (.matched (count + 1, pos), st')
          else evalRounds body max gas (count + 1) next st'
        | (.failed, st') => (.matched (count, pos), st')
        | (.aborted why, st') => (.aborted why, st')

/-- Each round but the last moves on by a byte at least. -/
def evalRepeated (s : Session V) (body : Position → Eval V Position) (min : Nat) (max : Option Nat)
    (pos : Position) : Eval V Position := fun st =>
  match evalRounds body max (s.source.size - pos.offset + 1) 0 pos st with
  | (.matched (count, stop), st') =>
    if min ≤ count then (.matched stop, st') else (.failed, st'.backTo st)
  | (.failed, st') => (.failed, st'.backTo st)
  | (.aborted why, st') => (.aborted why, st')

def evalRef (s : Session V) (call : Call V) (name : String) (pos : Position) : Eval V Position :=
  fun st =>
  match s.grammar.find? name with
  | none => (.aborted (.undefinedRule name), st)
  | some r =>
    match call r pos st with
    | (.matched (stop, m), st') => (.matched stop, if r.silent then st' else st'.push m)
    | (.failed, st') => (.failed, st')
    | (.aborted why, st') => (.aborted why, st')

mutual

/-- Evaluate an expression, given what an invocation of a rule does. A failure leaves the matches as
they were. -/
def evalExpr (s : Session V) (call : Call V) : Expr → Position → Eval V Position
  | .literal l, pos, st => s.evalLiteral l pos st
  | .charClass k, pos, st => s.evalClass k pos st
  | .endOfInput, pos, st => s.evalEnd pos st
  | .ref name, pos, st => s.evalRef call name pos st
  | .ahead body, pos, st => evalAhead (evalExpr s call body pos) pos st
  | .notAhead body, pos, st => evalNotAhead (evalExpr s call body pos) pos st
  | .repeated body min max, pos, st => s.evalRepeated (evalExpr s call body) min max pos st
  | .choice alternatives, pos, st => evalChoice s call alternatives pos st
  | .seq parts, pos, st =>
    match evalSeq s call parts pos st with
    | (.failed, st') => (.failed, st'.backTo st)
    | (outcome, st') => (outcome, st')

def evalSeq (s : Session V) (call : Call V) : List Expr → Position → Eval V Position
  | [], pos, st => (.matched pos, st)
  | e :: rest, pos, st =>
    match evalExpr s call e pos st with
    | (.matched next, st') => evalSeq s call rest next st'
    | (outcome, st') => (outcome, st')

def evalChoice (s : Session V) (call : Call V) : List Expr → Position → Eval V Position
  | [], _, st => (.failed, st)
  | e :: rest, pos, st =>
    match evalExpr s call e pos st with
    | (.failed, st') => evalChoice s call rest pos (st'.backTo st)
    | (outcome, st') => (outcome, st')

end

def kept? (r : Rule V) (start : Position) (st : State V) : Option (Memo.Entry V) :=
  if r.cached then st.memo.find? r.name start.offset else none

def replay (r : Rule V) (start : Position) (entry : Memo.Entry V) : Eval V (Position × Match V) :=
  fun st =>
    let st := st.record (.recalled r.name start entry.result.isSome)
    (match entry.result with
      | some result => .matched result
      | none => .failed,
      { st with failures := st.failures.absorb entry.failures })

def foldValue (r : Rule V) (start : Position) (text : List Char) (children : List (Match V)) :
    Eval V V := fun st =>
  match r.fold with
  | none => (.matched (Value.ofText text), st)
  | some fold =>
    let places := children.map Match.start
    match fold children with
    | .ok value => (.matched value, st.record (.folded r.name start places none))
    | .error e =>
      (.aborted (match e with
        | .reject reason => .rejected reason start
        | .inconsistent reason => .inconsistent r.name reason),
        st.record (.folded r.name start places (some e)))

def complete (s : Session V) (r : Rule V) (start stop : Position) (children : List (Match V)) :
    Eval V (Match V) := fun st =>
  match s.source.slice? start stop with
  | none => (.aborted (.fault .offBoundary), st)
  | some text =>
    match foldValue r start text children st with
    | (.matched value, st') => (.matched ⟨text, value, start⟩, st')
    | (.failed, st') => (.failed, st')
    | (.aborted why, st') => (.aborted why, st')

/-- What a rule reports of the failures inside it. The label of a rule that failed stands for them, at
the furthest of them. A rule that matched keeps them, since they may lie beyond its end. -/
def reported (r : Rule V) (start : Position) (result : Option (Position × Match V))
    (inner : Failures) : Failures :=
  match r.label, result with
  | some label, none => Failures.empty.mark (inner.furthest.getD start) label
  | _, _ => inner

/-- Hand the failures inside a rule on to the failures around it, and keep the outcome if the rule is
cached. -/
def settle (r : Rule V) (start : Position) (inner : Failures) (result : Option (Position × Match V))
    (st : State V) : State V :=
  if r.isolated then
    let own := reported r start result inner
    { st with
      failures := st.failures.absorb own
      memo := if r.cached then st.memo.insert r.name start.offset ⟨result, own⟩ else st.memo }
  else st

/-- The state in which the body of a rule begins: without matches, and without failures if they are
collected apart. -/
def enter (r : Rule V) (start : Position) (st : State V) : State V :=
  { st.record (.attempted r.name start) with
    out := []
    failures := if r.isolated then {} else st.failures }

/-- The state around a rule whose body ended in `st'`: the matches and, if they were collected apart,
the failures of the state before it. -/
def leave (r : Rule V) (before st' : State V) : State V :=
  { st' with
    out := before.out
    failures := if r.isolated then before.failures else st'.failures }

def conclude (s : Session V) (r : Rule V) (start : Position) (before : State V)
    (outcome : Outcome Position) (st' : State V) : Outcome (Position × Match V) × State V :=
  let st := leave r before st'
  match outcome with
  | .aborted why => (.aborted why, st)
  | .failed =>
    let st := st.record (.failed r.name start)
    let st := if r.trace.notesFailures then st.record (.failureNoted r.name start) else st
    (.failed, settle r start st'.failures none st)
  | .matched stop =>
    let st := st.record (.matched r.name start stop)
    let st := if r.trace.notesMatches then st.record (.matchNoted r.name start stop) else st
    match s.complete r start stop st'.out.reverse st with
    | (.matched m, st) => (.matched (stop, m), settle r start st'.failures (some (stop, m)) st)
    | (.failed, st) => (.failed, st)
    | (.aborted why, st) => (.aborted why, st)

/-- Invoke a rule. Its match is returned even if it is silent. -/
def invoke (s : Session V) : Nat → Rule V → Position → Eval V (Position × Match V)
  | 0, _, _, st => (.aborted (.fault .runaway), st)
  | budget + 1, r, start, st =>
    match kept? r start st with
    | some entry => replay r start entry st
    | none =>
      match evalExpr s (invoke s budget) r.body start (enter r start st) with
      | (outcome, st') => s.conclude r start st outcome st'

def eval (s : Session V) (e : Expr) (pos : Position) : Eval V Position :=
  s.evalExpr (s.invoke s.budget) e pos

/-- Evaluate as the next step of the session: the kept outcomes and the failures of earlier steps stay,
matches and journal begin empty. -/
def step (s : Session V) (e : Expr) (pos : Position) : Eval V Position := fun st =>
  s.eval e pos { st with out := [], journal := [] }

end Session

end Packrat
