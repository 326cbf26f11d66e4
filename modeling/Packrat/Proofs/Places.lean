import Mathlib.Data.List.Basic
import Mathlib.Data.List.DropRight
import Packrat.Proofs.Misses
import Packrat.Proofs.Source
import Packrat.Session

/-! The places of an input. Each character that is passed moves the offset on, and the line and column too, so
that places stand in one order whichever of them is looked at, and a place can be read off its offset. -/
namespace Packrat

namespace Position

variable {pos pos' mid : Position}

/-- By the line, and on one line by the column. -/
def compareShown : Position → Position → Ordering := compareLex (compareOn line) (compareOn column)

instance : Std.OrientedCmp compareShown :=
  inferInstanceAs (Std.OrientedCmp (compareLex (compareOn line) (compareOn column)))

theorem compareShown_eq (pos pos' : Position) :
    compareShown pos pos' = (compare pos.line pos'.line).then (compare pos.column pos'.column) := rfl

/-- The offset decides first. -/
theorem compare_eq (pos pos' : Position) :
    compare pos pos' = (compare pos.offset pos'.offset).then (compareShown pos pos') := by
  have fields : compare pos pos' = (compare pos.offset pos'.offset).then
      ((compare pos.line pos'.line).then ((compare pos.column pos'.column).then .eq)) := rfl
  rw [fields, compareShown_eq, Ordering.then_eq]

/-- The first position stands before the second, by the offset and by the line and column. -/
structure Precedes (pos pos' : Position) : Prop where
  offset : pos.offset < pos'.offset
  shown : compareShown pos pos' = .lt

theorem compareShown_eq_lt_iff : compareShown pos pos' = .lt ↔
    pos.line < pos'.line ∨ pos.line = pos'.line ∧ pos.column < pos'.column := by
  simp only [compareShown_eq, Ordering.then_eq_lt, Nat.compare_eq_lt, Nat.compare_eq_eq]

theorem Precedes.trans (first : pos.Precedes mid) (second : mid.Precedes pos') :
    pos.Precedes pos' where
  offset := Nat.lt_trans first.offset second.offset
  shown := by
    have first := compareShown_eq_lt_iff.mp first.shown
    have second := compareShown_eq_lt_iff.mp second.shown
    exact compareShown_eq_lt_iff.mpr (by omega)

/-- A line feed moves to a later line, any other character to the right. -/
theorem precedes_step (pos : Position) (c : Char) : pos.Precedes (pos.step c) where
  offset := by
    rw [offset_step]
    exact Nat.lt_add_of_pos_right c.utf8Size_pos
  shown := by
    rw [compareShown_eq_lt_iff, step]
    split
    · exact .inl (Nat.lt_succ_self _)
    · exact .inr ⟨rfl, Nat.lt_succ_self _⟩

theorem precedes_advanceOver (pos : Position) (c : Char) (text : List Char) :
    pos.Precedes (pos.advanceOver (c :: text)) := by
  induction text generalizing pos c with
  | nil => exact pos.precedes_step c
  | cons c' text ih => exact (pos.precedes_step c).trans (ih (pos.step c) c')

end Position

namespace Source

variable {source : Source} {pos pos' : Position} {rest : List Char}

section Advancing

theorem advance?_eq (here : source.rest? pos = some rest) (n : Nat) :
    pos.advance? source.text n = some (pos.advanceOver (rest.take n)) := by
  rw [rest?_eq] at here
  simp [Position.advance?, here]

theorem rest?_advanceOver_take (here : source.rest? pos = some rest) (n : Nat) :
    source.rest? (pos.advanceOver (rest.take n)) = some (rest.drop n) :=
  rest?_advanceOver (by rwa [List.take_append_drop])

/-- Two moves make one. -/
theorem advance?_add (here : source.rest? pos = some rest) (n m : Nat) :
    (pos.advance? source.text n).bind (·.advance? source.text m) =
      pos.advance? source.text (n + m) := by
  rw [advance?_eq here, Option.bind_some, advance?_eq (rest?_advanceOver_take here n),
    ← Position.advanceOver_append, ← List.take_add, advance?_eq here]

end Advancing

/-- Of two places one stands before the other, unless they are the same. -/
theorem Reached.precedes_or_eq (reached : source.Reached pos) (reached' : source.Reached pos') :
    pos.Precedes pos' ∨ pos = pos' ∨ pos'.Precedes pos := by
  have beyond (before more : List Char) :
      let first := Position.start.advanceOver before
      let second := Position.start.advanceOver (before ++ more)
      first.Precedes second ∨ first = second := by
    intro first second
    cases more with
    | nil => exact .inr (by simp [first, second])
    | cons c more =>
      have further : second = first.advanceOver (c :: more) := Position.advanceOver_append ..
      exact .inl (further ▸ first.precedes_advanceOver c more)
  obtain ⟨before, beginning, rfl⟩ := reached
  obtain ⟨before', beginning', rfl⟩ := reached'
  rcases List.prefix_or_prefix_of_prefix beginning beginning' with ⟨more, rfl⟩ | ⟨more, rfl⟩
  · exact (beyond before more).imp_right .inl
  · exact .inr ((beyond before' more).symm.imp_left Eq.symm)

/-- The line and column tell the order of two places as their offsets do. -/
theorem Reached.compareShown (reached : source.Reached pos) (reached' : source.Reached pos') :
    pos.compareShown pos' = compare pos.offset pos'.offset := by
  rcases reached.precedes_or_eq reached' with before | rfl | after
  · rw [before.shown, Nat.compare_eq_lt.mpr before.offset]
  · simp [Position.compareShown_eq]
  · rw [Std.OrientedCmp.gt_of_lt after.shown, Nat.compare_eq_gt.mpr after.offset]

/-- From a place of the input one advances over what follows it, to the end at most, and two moves are as
good as one. Of two places the one with the smaller offset is shown with the smaller line and column, and
the other way round, and that is the order of places. -/
theorem places_in_order (source : Source) :
    (∀ before rest n, source.text = before ++ rest →
      let pos := Position.start.advanceOver before
      pos.advance? source.text n = some (pos.advanceOver (rest.take (min n rest.length))) ∧
      ∀ m, (pos.advance? source.text n).bind (·.advance? source.text m) =
        pos.advance? source.text (n + m)) ∧
    ∀ pos pos', source.Reached pos → source.Reached pos' →
      compare pos pos' = compare pos.offset pos'.offset ∧
      pos.compareShown pos' = compare pos.offset pos'.offset ∧
      (pos.line = pos'.line → pos.column = pos'.column → pos.offset = pos'.offset) := by
  constructor
  · intro before rest n split pos
    have here : source.rest? pos = some rest := rest?_of_split split
    exact ⟨by rw [advance?_eq here, List.take_eq_take_min], advance?_add here n⟩
  · intro pos pos' reached reached'
    have shown := reached.compareShown reached'
    refine ⟨?_, shown, fun line column => ?_⟩
    · rw [Position.compare_eq, shown]
      cases compare pos.offset pos'.offset <;> rfl
    · rw [Position.compareShown_eq, line, column] at shown
      simpa using shown.symm

/-- Two lines, the first with more bytes than characters. A move of three characters crosses its end, and
one of seven more stops at the end of the text. -/
theorem measures_in_order :
    let source := ofText "5 µm\n20 nm".toList
    let unit : Position := ⟨2, 1, 3⟩
    let stop : Position := ⟨11, 2, 6⟩
    source.text = "5 ".toList ++ "µm\n20 nm".toList ∧ source.Reached unit ∧ source.Reached stop ∧
      unit = Position.start.advanceOver "5 ".toList ∧
      unit.advance? source.text 3 = some (unit.advanceOver "µm\n".toList) ∧
      (unit.advance? source.text 3).bind (·.advance? source.text 7) = some stop ∧
      compare unit stop = .lt ∧ unit.compareShown stop = .lt := by
  intro source unit stop
  obtain ⟨moves, order⟩ := places_in_order source
  have split : source.text = "5 ".toList ++ "µm\n20 nm".toList := by decide
  have first : unit = Position.start.advanceOver "5 ".toList := by decide
  have reached : source.Reached unit := ⟨"5 ".toList, ⟨_, split.symm⟩, first⟩
  have last : source.Reached stop := ⟨source.text, List.prefix_refl _, by decide +kernel⟩
  obtain ⟨moved, sums⟩ := moves _ _ 3 split
  obtain ⟨offsets, shown, -⟩ := order unit stop reached last
  rw [← first] at moved sums
  have earlier : compare unit.offset stop.offset = .lt := by decide
  refine ⟨split, reached, last, first, moved, ?_, offsets.trans earlier, shown.trans earlier⟩
  rw [sums 7]
  decide +kernel

end Source

variable {V : Type} {source : Source} {pos stop : Position}

namespace Position

theorem advanceOver_concat (pos : Position) (text : List Char) (c : Char) :
    pos.advanceOver (text ++ [c]) = (pos.advanceOver text).step c :=
  advanceOver_append pos text [c]

theorem line_advanceOver (pos : Position) (text : List Char) :
    (pos.advanceOver text).line = pos.line + text.count '\n' := by
  induction text using List.reverseRecOn with
  | nil => simp
  | append_singleton text c ih =>
    rw [advanceOver_concat, step]
    split
    · subst c
      simp [ih, Nat.add_assoc]
    · rename_i other
      simp [ih, other]

theorem column_advanceOver (text : List Char) :
    (start.advanceOver text).column = 1 + (text.rtakeWhile (· ≠ '\n')).length := by
  induction text using List.reverseRecOn with
  | nil => rfl
  | append_singleton text c ih =>
    rw [advanceOver_concat, step]
    split
    · subst c
      rw [List.rtakeWhile_concat_neg _ _ _ (by simp)]
      rfl
    · rename_i other
      rw [List.rtakeWhile_concat_pos _ _ _ (by simpa using other), List.length_append, ih]
      rfl

end Position

namespace Source

structure Locates (source : Source) (pos : Position) (before : List Char) : Prop where
  beginning : before <+: source.text
  advanced : pos = Position.start.advanceOver before
  offset : pos.offset = Text.byteSize before
  inside : pos.offset ≤ source.size
  boundary : ∃ rest, source.text = before ++ rest ∧ source.rest? pos = some rest
  line : pos.line = 1 + before.count '\n'
  column : pos.column = 1 + (before.rtakeWhile (· ≠ '\n')).length

theorem Reached.locates (reached : source.Reached pos) : ∃! before, source.Locates pos before := by
  obtain ⟨before, ⟨rest, split⟩, rfl⟩ := reached
  have offset : (Position.start.advanceOver before).offset = Text.byteSize before := by
    simp [Position.start]
  have here : source.rest? (Position.start.advanceOver before) = some rest :=
    rest?_eq_some_iff.mpr ⟨before, split.symm, offset.symm⟩
  refine ⟨before, ?_, fun other located => ?_⟩
  · exact {
      beginning := ⟨rest, split⟩
      advanced := rfl
      offset
      inside := offset_le_size here
      boundary := ⟨rest, split.symm, here⟩
      line := Position.line_advanceOver ..
      column := Position.column_advanceOver before }
  · exact prefix_unique located.beginning ⟨rest, split⟩ (located.offset.symm.trans offset)

def Onward (source : Source) (offset : Nat) (stop : Position) : Prop :=
  source.Reached stop ∧ offset ≤ stop.offset

/-- The input can be cut at any two places. -/
theorem Reached.between (here : source.Reached pos) (there : source.Onward pos.offset stop) :
    ∃ text, source.Between pos text stop := by
  obtain ⟨before, beginning, rfl⟩ := here
  obtain ⟨⟨before', beginning', rfl⟩, le⟩ := there
  have earlier : before <+: before' := by
    rcases List.prefix_or_prefix_of_prefix beginning beginning' with first | ⟨more, rfl⟩
    · exact first
    · obtain rfl : more = [] := Text.eq_nil_of_byteSize (by simp at le; omega)
      simp
  obtain ⟨text, rfl⟩ := earlier
  obtain ⟨rest, split⟩ := beginning'
  exact ⟨text, rest, rest?_eq_some_iff.mpr ⟨before, by simp [← split], by simp [Position.start]⟩,
    Position.advanceOver_append ..⟩

end Source

def Record.places : Record → List Position
  | attempted _ start | recalled _ start _ | failed _ start | failureNoted _ start => [start]
  | matched _ start stop | matchNoted _ start stop => [start, stop]
  | folded _ start children _ => start :: children
  | parseRejected place _ => [place]
  | parseLeftOver stop | parseMatched stop => [stop]
  | parseOpened .. | parseInconsistent _ | parseFailed _ => []

def Record.Placed (source : Source) (r : Record) : Prop := ∀ pos ∈ r.places, source.Reached pos

theorem Source.Reached.record (reached : source.Reached pos) {r : Record} (only : r.places = [pos]) :
    r.Placed source := by
  simpa [Record.Placed, only] using reached

def Match.Placed (source : Source) (m : Match V) : Prop := source.Reached m.start

/-- A rule that began at `offset` has ended at a place that is not before, with a match from a place. -/
def Source.Concludes (source : Source) (offset : Nat) (result : Position × Match V) : Prop :=
  source.Onward offset result.1 ∧ result.2.Placed source

namespace Failures

variable {f other : Failures}

def Placed (source : Source) (f : Failures) : Prop :=
  ∀ far, f.furthest = some far → source.Reached far

theorem placed_empty : empty.Placed source := by simp [Placed, empty]

theorem Placed.mark (placed : f.Placed source) (reached : source.Reached pos) (label : String) :
    (f.mark pos label).Placed source := by
  intro far furthest
  rcases f.furthest_mark pos label with same | moved
  · exact placed far (same ▸ furthest)
  · obtain rfl : pos = far := Option.some.inj (moved.symm.trans furthest)
    exact reached

theorem Placed.absorb (placed : f.Placed source) (others : other.Placed source) :
    (f.absorb other).Placed source := by
  cases furthest : other.furthest with
  | none => simpa [Failures.absorb, furthest] using placed
  | some far =>
    rw [absorb_of_furthest furthest]
    intro far' furthest'
    rcases f.furthest_markAll far other.expected with same | moved
    · exact placed far' (same ▸ furthest')
    · obtain rfl : far = far' := Option.some.inj (moved.symm.trans furthest')
      exact others far furthest

end Failures

namespace Memo

/-- The outcome of a rule at `offset` holds places only, and the rule has not ended before it began. -/
structure Entry.Placed (source : Source) (offset : Nat) (entry : Entry V) : Prop where
  ended : ∀ result, entry.result = some result → source.Concludes offset result
  failures : entry.failures.Placed source

def Placed (source : Source) (memo : Memo V) : Prop :=
  ∀ name offset entry, memo.find? name offset = some entry → entry.Placed source offset

variable {memo : Memo V}

theorem placed_empty : (empty : Memo V).Placed source := by simp [Placed]

theorem Placed.insert (placed : memo.Placed source) {offset : Nat} {entry : Entry V}
    (fits : entry.Placed source offset) (name : String) :
    (memo.insert name offset entry).Placed source := by
  intro name' offset' entry' found
  rw [find?_insert] at found
  split at found
  · rename_i same
    obtain ⟨-, rfl⟩ := same
    obtain rfl := Option.some.inj found
    exact fits
  · exact placed _ _ _ found

end Memo

/-- Every position in the state is a place of the input. -/
structure State.Placed (source : Source) (st : State V) : Prop where
  out : ∀ m ∈ st.out, m.Placed source
  failures : st.failures.Placed source
  memo : st.memo.Placed source
  journal : ∀ r ∈ st.journal, r.Placed source

namespace State

variable {st st' : State V}

theorem placed_initial : (initial : State V).Placed source :=
  ⟨by simp [initial], Failures.placed_empty, Memo.placed_empty, by simp [initial]⟩

theorem Placed.push (placed : st.Placed source) {m : Match V} (made : m.Placed source) :
    (st.push m).Placed source :=
  { placed with out := List.forall_mem_cons.mpr ⟨made, placed.out⟩ }

theorem Placed.mark (placed : st.Placed source) (reached : source.Reached pos) (label : String) :
    (st.mark pos label).Placed source :=
  { placed with failures := placed.failures.mark reached label }

theorem Placed.record (placed : st.Placed source) {r : Record} (fits : r.Placed source) :
    (st.record r).Placed source :=
  { placed with journal := List.forall_mem_cons.mpr ⟨fits, placed.journal⟩ }

theorem Placed.backTo (placed : st'.Placed source) (before : st.Placed source) :
    (st'.backTo st).Placed source :=
  { placed with out := before.out }

end State

end Packrat
