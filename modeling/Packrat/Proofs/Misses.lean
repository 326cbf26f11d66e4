import Mathlib.Data.List.MinMax
import Packrat.Failures

/-! Single failures in the order in which they occur, and the record that they leave. A record keeps
only the furthest of them. -/
namespace Packrat

structure Miss where
  place : Position
  label : String
  deriving DecidableEq, Repr

namespace Miss

/-- The first of the places with the greatest offset. -/
def furthest? (misses : List Miss) : Option Position :=
  (misses.map Miss.place).argmax Position.offset

/-- The labels at an offset, without repeats, in the order of their first failure there. -/
def labelsAt (misses : List Miss) (offset : Nat) : List String :=
  ((misses.filter fun m => m.place.offset == offset).map Miss.label).eraseDups

def labels (misses : List Miss) : List String :=
  (furthest? misses).elim [] fun far => labelsAt misses far.offset

@[simp] theorem furthest?_nil : furthest? [] = none := rfl

theorem furthest?_concat (misses : List Miss) (m : Miss) :
    furthest? (misses ++ [m]) = (furthest? misses).elim (some m.place) fun far =>
      if far.offset < m.place.offset then some m.place else some far := by
  simp only [furthest?, List.map_append, List.map_cons, List.map_nil, List.argmax_concat]
  cases (misses.map Miss.place).argmax Position.offset <;> rfl

theorem furthest?_eq_none {misses : List Miss} : furthest? misses = none ↔ misses = [] := by
  simp [furthest?]

theorem le_furthest {misses : List Miss} {far : Position} (h : furthest? misses = some far)
    {m : Miss} (member : m ∈ misses) : m.place.offset ≤ far.offset :=
  List.le_of_mem_argmax (List.mem_map_of_mem member) h

theorem labels_ne_nil {misses : List Miss} (h : (furthest? misses).isSome) :
    labels misses ≠ [] := by
  obtain ⟨far, furthest⟩ := Option.isSome_iff_exists.mp h
  obtain ⟨m, member, there⟩ := List.mem_map.mp (List.argmax_mem furthest)
  have labelled : m.label ∈ labels misses := by
    rw [labels, furthest, Option.elim_some, labelsAt, List.mem_eraseDups]
    exact List.mem_map_of_mem (List.mem_filter.mpr ⟨member, by simp [there]⟩)
  exact List.ne_nil_of_mem labelled

theorem labelsAt_concat (misses : List Miss) (m : Miss) (offset : Nat) :
    labelsAt (misses ++ [m]) offset = if m.place.offset = offset
      then Failures.addLabel (labelsAt misses offset) m.label else labelsAt misses offset := by
  by_cases there : m.place.offset = offset
  · by_cases known : m.label ∈ (misses.filter fun m => m.place.offset == offset).map Miss.label <;>
      simp [labelsAt, there, List.eraseDups_append, List.eraseDups_cons, List.removeAll,
        Failures.addLabel, -List.mem_map, known]
  · simp [labelsAt, there]

/-- Before the first failure at an offset there are no labels at it. -/
theorem labelsAt_eq_nil {misses : List Miss} {offset : Nat}
    (apart : ∀ m ∈ misses, m.place.offset ≠ offset) : labelsAt misses offset = [] := by
  have none_there : misses.filter (fun m => m.place.offset == offset) = [] :=
    List.filter_eq_nil_iff.mpr (by simpa using apart)
  simp [labelsAt, none_there]

end Miss

namespace Failures

def marks (f : Failures) (misses : List Miss) : Failures :=
  misses.foldl (fun g m => g.mark m.place m.label) f

@[simp] theorem marks_nil (f : Failures) : f.marks [] = f := rfl

@[simp] theorem marks_cons (f : Failures) (m : Miss) (misses : List Miss) :
    f.marks (m :: misses) = (f.mark m.place m.label).marks misses := rfl

@[simp] theorem marks_append (f : Failures) (first second : List Miss) :
    f.marks (first ++ second) = (f.marks first).marks second := by
  simp [marks, List.foldl_append]

theorem mark_of_suppressed {f : Failures} (h : 0 < f.suppressed) (pos : Position) (label : String) :
    f.mark pos label = f := by
  rw [mark, if_pos h]

theorem mark_before {f : Failures} {pos far : Position} (furthest : f.furthest = some far)
    (before : pos.offset < far.offset) (label : String) : f.mark pos label = f := by
  simp [mark, furthest, before]

theorem mark_at {f : Failures} {pos far : Position} (recording : f.suppressed = 0)
    (furthest : f.furthest = some far) (there : pos.offset = far.offset) (label : String) :
    f.mark pos label = { f with expected := addLabel f.expected label } := by
  simp [mark, recording, furthest, there]

/-- A first failure, or one beyond all others. -/
theorem mark_beyond {f : Failures} {pos : Position} (recording : f.suppressed = 0)
    (beyond : ∀ far, f.furthest = some far → far.offset < pos.offset) (label : String) :
    f.mark pos label = ⟨some pos, [label], 0⟩ := by
  cases far : f.furthest with
  | none => simp [mark, recording, far]
  | some far' =>
    have later := beyond far' far
    simp [mark, recording, far, Nat.not_lt.mpr (Nat.le_of_lt later), Nat.ne_of_gt later]

theorem marks_of_suppressed {f : Failures} (h : 0 < f.suppressed) (misses : List Miss) :
    f.marks misses = f := by
  induction misses with
  | nil => rfl
  | cons m misses ih => rw [marks_cons, mark_of_suppressed h, ih]

@[simp] theorem release_suppress (f : Failures) : f.suppress.release = f := rfl

/-- Nothing that fails in a lookahead is recorded. -/
@[simp] theorem release_marks_suppress (f : Failures) (misses : List Miss) :
    (f.suppress.marks misses).release = f := by
  rw [marks_of_suppressed (by simp [suppress]), release_suppress]

/-- A record that starts empty holds the furthest of the failures and the labels there. -/
theorem marks_empty (misses : List Miss) :
    empty.marks misses = ⟨Miss.furthest? misses, Miss.labels misses, 0⟩ := by
  induction misses using List.reverseRecOn with
  | nil => rfl
  | append_singleton misses m ih =>
    rw [marks_append, ih, marks_cons, marks_nil]
    simp only [Miss.labels, Miss.furthest?_concat]
    cases far : Miss.furthest? misses with
    | none =>
      obtain rfl := Miss.furthest?_eq_none.mp far
      rw [mark_beyond rfl (by simp)]
      simp [Miss.labelsAt, List.eraseDups_cons]
    | some far' =>
      have bound : ∀ x ∈ misses, x.place.offset ≤ far'.offset := fun _ => Miss.le_furthest far
      rcases Nat.lt_trichotomy m.place.offset far'.offset with before | there | beyond
      · rw [mark_before rfl before]
        simp [Nat.not_lt.mpr (Nat.le_of_lt before), Miss.labelsAt_concat, Nat.ne_of_lt before]
      · rw [mark_at rfl rfl there]
        simp [there, Miss.labelsAt_concat]
      · have first : Miss.labelsAt misses m.place.offset = [] :=
          Miss.labelsAt_eq_nil fun x member => by have := bound x member; omega
        rw [mark_beyond rfl (by simpa using beyond)]
        simp [beyond, Miss.labelsAt_concat, first, addLabel]

def markAll (f : Failures) (pos : Position) (labels : List String) : Failures :=
  labels.foldl (fun g label => g.mark pos label) f

theorem markAll_concat (f : Failures) (pos : Position) (labels : List String) (label : String) :
    f.markAll pos (labels ++ [label]) = (f.markAll pos labels).mark pos label := by
  simp [markAll]

theorem absorb_of_furthest {t : Failures} {far : Position} (furthest : t.furthest = some far)
    (f : Failures) : f.absorb t = f.markAll far t.expected := by
  simp [absorb, furthest, markAll]

theorem markAll_of_suppressed {f : Failures} (h : 0 < f.suppressed) (pos : Position)
    (labels : List String) : f.markAll pos labels = f := by
  induction labels with
  | nil => rfl
  | cons label labels ih => rwa [markAll, List.foldl_cons, mark_of_suppressed h]

theorem markAll_before {f : Failures} {pos far : Position} (furthest : f.furthest = some far)
    (before : pos.offset < far.offset) (labels : List String) : f.markAll pos labels = f := by
  induction labels with
  | nil => rfl
  | cons label labels ih => rwa [markAll, List.foldl_cons, mark_before furthest before]

theorem markAll_at {f : Failures} {pos far : Position} (recording : f.suppressed = 0)
    (furthest : f.furthest = some far) (there : pos.offset = far.offset) (labels : List String) :
    f.markAll pos labels = { f with expected := labels.foldl addLabel f.expected } := by
  induction labels generalizing f with
  | nil => rfl
  | cons label labels ih =>
    rw [markAll, List.foldl_cons, mark_at recording furthest there]
    exact ih recording furthest

theorem markAll_beyond {f : Failures} {pos : Position} (recording : f.suppressed = 0)
    (beyond : ∀ far, f.furthest = some far → far.offset < pos.offset) {labels : List String}
    (some_label : labels ≠ []) :
    f.markAll pos labels = ⟨some pos, labels.foldl addLabel [], 0⟩ := by
  obtain ⟨label, labels, rfl⟩ := List.exists_cons_of_ne_nil some_label
  rw [markAll, List.foldl_cons, mark_beyond recording beyond]
  exact markAll_at rfl rfl rfl labels

theorem suppressed_mark (f : Failures) (pos : Position) (label : String) :
    (f.mark pos label).suppressed = f.suppressed := by
  unfold mark
  repeat' split
  all_goals rfl

theorem furthest_mark (f : Failures) (pos : Position) (label : String) :
    (f.mark pos label).furthest = f.furthest ∨ (f.mark pos label).furthest = some pos := by
  unfold mark
  repeat' split
  all_goals simp_all

theorem suppressed_markAll (f : Failures) (pos : Position) (labels : List String) :
    (f.markAll pos labels).suppressed = f.suppressed := by
  induction labels generalizing f with
  | nil => rfl
  | cons label labels ih => exact (ih _).trans (suppressed_mark f pos label)

theorem furthest_markAll (f : Failures) (pos : Position) (labels : List String) :
    (f.markAll pos labels).furthest = f.furthest ∨ (f.markAll pos labels).furthest = some pos := by
  induction labels generalizing f with
  | nil => exact .inl rfl
  | cons label labels ih =>
    rcases ih (f.mark pos label) with same | moved
    · exact same ▸ furthest_mark f pos label
    · exact .inr moved

/-- How a record stands to a failure at `pos`: it ignores it, is beyond it, level with it or short
of it. -/
theorem standing (f : Failures) (pos : Position) :
    0 < f.suppressed ∨
    (∃ far, f.furthest = some far ∧ pos.offset < far.offset) ∨
    (f.suppressed = 0 ∧ ∃ far, f.furthest = some far ∧ pos.offset = far.offset) ∨
    (f.suppressed = 0 ∧ ∀ far, f.furthest = some far → far.offset < pos.offset) := by
  rcases Nat.eq_zero_or_pos f.suppressed with recording | suppressed
  · cases furthest : f.furthest with
    | none => simp [recording]
    | some far =>
      rcases Nat.lt_trichotomy pos.offset far.offset with before | there | beyond
      · exact .inr (.inl ⟨far, rfl, before⟩)
      · exact .inr (.inr (.inl ⟨recording, far, rfl, there⟩))
      · exact .inr (.inr (.inr ⟨recording, by simpa using beyond⟩))
  · exact .inl suppressed

theorem mem_foldl_addLabel {label : String} {known labels : List String} :
    label ∈ labels.foldl addLabel known ↔ label ∈ known ∨ label ∈ labels := by
  induction labels generalizing known with
  | nil => simp
  | cons first labels ih =>
    have step : label ∈ addLabel known first ↔ label ∈ known ∨ label = first := by
      unfold addLabel
      split <;> simp_all
    rw [List.foldl_cons, ih, step, List.mem_cons, or_assoc]

/-- A label that has been marked at a place is not marked there again. -/
theorem mark_of_mem_markAll (f : Failures) (pos : Position) {labels : List String} {label : String}
    (known : label ∈ labels) :
    (f.markAll pos labels).mark pos label = f.markAll pos labels := by
  have some_label : labels ≠ [] := List.ne_nil_of_mem known
  rcases f.standing pos with suppressed | ⟨far, furthest, before⟩ | ⟨recording, far, furthest, there⟩ |
    ⟨recording, beyond⟩
  · rw [markAll_of_suppressed suppressed, mark_of_suppressed suppressed]
  · rw [markAll_before furthest before, mark_before furthest before]
  · rw [markAll_at recording furthest there]
    simp [mark, recording, furthest, there, addLabel, mem_foldl_addLabel, known]
  · rw [markAll_beyond recording beyond some_label, mark_at rfl rfl rfl]
    simp [addLabel, mem_foldl_addLabel, known]

theorem markAll_addLabel (f : Failures) (pos : Position) (labels : List String) (label : String) :
    f.markAll pos (addLabel labels label) = (f.markAll pos labels).mark pos label := by
  by_cases known : label ∈ labels
  · simp [addLabel, known, mark_of_mem_markAll]
  · simp [addLabel, known, markAll_concat]

/-- Once a place has failed, another at or before its offset does not become the furthest. -/
theorem mark_markAll_of_le (f : Failures) {pos far : Position} (le : pos.offset ≤ far.offset)
    {labels : List String} (some_label : labels ≠ []) (label : String) :
    (f.markAll far labels).mark pos label =
      if pos.offset = far.offset then (f.markAll far labels).mark far label
      else f.markAll far labels := by
  have reached : 0 < (f.markAll far labels).suppressed ∨ ∃ reach,
      (f.markAll far labels).furthest = some reach ∧ far.offset ≤ reach.offset := by
    rcases f.standing far with suppressed | ⟨reach, furthest, before⟩ |
      ⟨recording, reach, furthest, there⟩ | ⟨recording, beyond⟩
    · exact .inl (by rwa [suppressed_markAll])
    · exact .inr ⟨reach, by rw [markAll_before furthest before, furthest], Nat.le_of_lt before⟩
    · exact .inr ⟨reach, by rw [markAll_at recording furthest there, furthest], Nat.le_of_eq there⟩
    · exact .inr ⟨far, by rw [markAll_beyond recording beyond some_label], Nat.le_refl _⟩
  rcases reached with suppressed | ⟨reach, furthest, far_le⟩
  · simp [mark_of_suppressed suppressed]
  · by_cases there : pos.offset = far.offset
    · rcases Nat.lt_or_eq_of_le far_le with beyond | level
      · rw [if_pos there, mark_before furthest (by omega), mark_before furthest beyond]
      · simp [mark, furthest, there, level]
    · rw [if_neg there, mark_before furthest (by omega)]

/-- A failure beyond those of one place hides them. -/
theorem mark_markAll_of_lt (f : Failures) {pos far : Position} (lt : far.offset < pos.offset)
    (labels : List String) (label : String) :
    (f.markAll far labels).mark pos label = f.mark pos label := by
  rcases f.standing pos with suppressed | ⟨reach, furthest, before⟩ |
    ⟨recording, reach, furthest, there⟩ | ⟨recording, beyond⟩
  · rw [markAll_of_suppressed suppressed]
  · rw [markAll_before furthest (by omega)]
  · rw [markAll_before furthest (by omega)]
  · have beyond' : ∀ reach, (f.markAll far labels).furthest = some reach →
        reach.offset < pos.offset := by
      intro reach furthest
      rcases f.furthest_markAll far labels with same | moved
      · exact beyond reach (same ▸ furthest)
      · obtain rfl : far = reach := Option.some.inj (moved.symm.trans furthest)
        exact lt
    rw [mark_beyond recording beyond,
      mark_beyond ((f.suppressed_markAll far labels).trans recording) beyond']

/-- A record with labels wherever it has a furthest place can take a failure before or after it is
absorbed. -/
theorem absorb_mark (f : Failures) {t : Failures} (labelled : t.furthest.isSome → t.expected ≠ [])
    (recording : t.suppressed = 0) (pos : Position) (label : String) :
    (f.absorb t).mark pos label = f.absorb (t.mark pos label) := by
  cases furthest : t.furthest with
  | none =>
    have fresh : t.mark pos label = ⟨some pos, [label], 0⟩ :=
      mark_beyond recording (by simp [furthest]) label
    simp [fresh, absorb, furthest]
  | some far =>
    have some_label : t.expected ≠ [] := labelled (by simp [furthest])
    rw [absorb_of_furthest furthest]
    rcases Nat.lt_trichotomy pos.offset far.offset with before | there | beyond
    · rw [mark_before furthest before, absorb_of_furthest furthest,
        mark_markAll_of_le f (Nat.le_of_lt before) some_label, if_neg (Nat.ne_of_lt before)]
    · rw [mark_at recording furthest there, mark_markAll_of_le f (Nat.le_of_eq there) some_label,
        if_pos there]
      simp only [absorb, furthest, ← markAll_addLabel]
      rfl
    · rw [mark_beyond recording (by simpa [furthest] using beyond),
        mark_markAll_of_lt f beyond]
      rfl

end Failures

end Packrat
