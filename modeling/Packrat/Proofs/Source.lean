import Packrat.Expr
import Packrat.Source

/-! The places of a source: positions reached by advancing over a beginning of its text. At a place the
input can be cut, and the offset of a place determines its line and column. -/
namespace Packrat

namespace Text

theorem eq_nil_of_byteSize {text : List Char} (h : byteSize text = 0) : text = [] := by
  cases text with
  | nil => rfl
  | cons c text =>
    have := c.utf8Size_pos
    simp only [byteSize_cons] at h
    omega

theorem takeBytes?_append (text rest : List Char) :
    takeBytes? (text ++ rest) (byteSize text) = some text :=
  takeBytes?_eq_some_iff.mpr ⟨rest, rfl, rfl⟩

end Text

namespace Position

theorem offset_step (pos : Position) (c : Char) : (pos.step c).offset = pos.offset + c.utf8Size := by
  simp only [step]
  split <;> rfl

@[simp] theorem advanceOver_nil (pos : Position) : pos.advanceOver [] = pos := rfl

theorem advanceOver_append (pos : Position) (first second : List Char) :
    pos.advanceOver (first ++ second) = (pos.advanceOver first).advanceOver second := by
  simp [advanceOver, List.foldl_append]

@[simp] theorem offset_advanceOver (pos : Position) (text : List Char) :
    (pos.advanceOver text).offset = pos.offset + Text.byteSize text := by
  induction text generalizing pos with
  | nil => rfl
  | cons c text ih =>
    have step : pos.advanceOver (c :: text) = (pos.step c).advanceOver text := rfl
    rw [step, ih, offset_step, Text.byteSize_cons, Nat.add_assoc]

end Position

namespace Source

variable {s : Source} {pos mid stop : Position} {text rest : List Char}

/-- The position is reached from the start by advancing over a beginning of the text. -/
def Reached (s : Source) (pos : Position) : Prop :=
  ∃ before, before <+: s.text ∧ pos = Position.start.advanceOver before

theorem reached_start (s : Source) : s.Reached Position.start :=
  ⟨[], List.nil_prefix, rfl⟩

theorem rest?_eq_some_iff : s.rest? pos = some rest ↔
    ∃ before, s.text = before ++ rest ∧ Text.byteSize before = pos.offset := by
  rw [rest?_eq, Position.rest?, Text.dropBytes?_eq_some_iff]

/-- After a beginning of the text the rest of it follows. -/
theorem rest?_of_split {before : List Char} (split : s.text = before ++ rest) :
    s.rest? (Position.start.advanceOver before) = some rest :=
  rest?_eq_some_iff.mpr ⟨before, split, by simp [Position.start]⟩

theorem Reached.exists_rest (h : s.Reached pos) : ∃ rest, s.rest? pos = some rest := by
  obtain ⟨before, ⟨rest, split⟩, rfl⟩ := h
  exact ⟨rest, rest?_of_split split.symm⟩

theorem rest?_advanceOver (here : s.rest? pos = some (text ++ rest)) :
    s.rest? (pos.advanceOver text) = some rest := by
  obtain ⟨before, split, size⟩ := rest?_eq_some_iff.mp here
  exact rest?_eq_some_iff.mpr ⟨before ++ text, by simp [split], by simp [size]⟩

/-- Two beginnings of one text that have the same size are the same. -/
theorem prefix_unique {first second : List Char} (h : first <+: text) (h' : second <+: text)
    (same : Text.byteSize first = Text.byteSize second) : first = second := by
  obtain ⟨rest, split⟩ := h
  obtain ⟨rest', split'⟩ := h'
  rcases List.append_eq_append_iff.mp (split.trans split'.symm) with ⟨more, rfl, _⟩ | ⟨more, rfl, _⟩
  all_goals
    obtain rfl : more = [] := Text.eq_nil_of_byteSize (by simp at same; exact same)
    simp

/-- The offset of a place determines the place. -/
theorem Reached.eq_of_offset (h : s.Reached pos) (h' : s.Reached mid)
    (same : pos.offset = mid.offset) : pos = mid := by
  obtain ⟨before, beginning, rfl⟩ := h
  obtain ⟨before', beginning', rfl⟩ := h'
  rw [prefix_unique beginning beginning' (by simpa using same)]

theorem Reached.advance (h : s.Reached pos) (here : s.rest? pos = some (text ++ rest)) :
    s.Reached (pos.advanceOver text) := by
  obtain ⟨before, split, size⟩ := rest?_eq_some_iff.mp here
  obtain ⟨before', beginning, rfl⟩ := h
  obtain rfl : before' = before := prefix_unique beginning ⟨_, split.symm⟩
    (by simpa [Position.start] using size.symm)
  exact ⟨before' ++ text, ⟨rest, by simp [split]⟩, (Position.advanceOver_append ..).symm⟩

theorem offset_le_size (here : s.rest? pos = some rest) : pos.offset ≤ s.size := by
  obtain ⟨before, split, size⟩ := rest?_eq_some_iff.mp here
  rw [s.size_eq, split, Text.byteSize_append, size]
  exact Nat.le_add_right ..

theorem Reached.offset_le (h : s.Reached pos) : pos.offset ≤ s.size :=
  have ⟨_, here⟩ := h.exists_rest
  offset_le_size here

theorem size_le_iff (here : s.rest? pos = some rest) : s.size ≤ pos.offset ↔ rest = [] := by
  obtain ⟨before, split, size⟩ := rest?_eq_some_iff.mp here
  rw [s.size_eq, split, Text.byteSize_append, size]
  constructor
  · exact fun h => Text.eq_nil_of_byteSize (by omega)
  · rintro rfl
    exact Nat.le_refl _

/-- The text that stands between two places. -/
def Between (s : Source) (pos : Position) (text : List Char) (stop : Position) : Prop :=
  ∃ rest, s.rest? pos = some (text ++ rest) ∧ stop = pos.advanceOver text

theorem Between.refl (here : s.rest? pos = some rest) : s.Between pos [] pos := ⟨rest, here, rfl⟩

theorem Reached.between_self (h : s.Reached pos) : s.Between pos [] pos :=
  have ⟨_, here⟩ := h.exists_rest
  .refl here

theorem Between.trans (first : s.Between pos text mid) (second : s.Between mid text' stop) :
    s.Between pos (text ++ text') stop := by
  obtain ⟨rest, here, rfl⟩ := first
  obtain ⟨rest', there, rfl⟩ := second
  obtain rfl : rest = text' ++ rest' := Option.some.inj ((rest?_advanceOver here).symm.trans there)
  exact ⟨rest', by simpa using here, (Position.advanceOver_append ..).symm⟩

theorem Between.reached (h : s.Between pos text stop) (reached : s.Reached pos) :
    s.Reached stop := by
  obtain ⟨rest, here, rfl⟩ := h
  exact reached.advance here

theorem Between.le (h : s.Between pos text stop) : pos.offset ≤ stop.offset := by
  obtain ⟨rest, -, rfl⟩ := h
  simp

theorem Between.slice (h : s.Between pos text stop) : s.slice? pos stop = some text := by
  obtain ⟨rest, here, rfl⟩ := h
  simp [slice?, here, Text.takeBytes?_append]

end Source

namespace Literal

theorem foldedSize?_eq_some {expected rest : List Char} {size : Nat}
    (h : foldedSize? expected rest = some size) :
    ∃ text tail, rest = text ++ tail ∧ Text.byteSize text = size ∧
      text.length = expected.length := by
  fun_induction foldedSize? expected rest generalizing size with
  | case1 rest => exact ⟨[], rest, rfl, by simpa using h, rfl⟩
  | case2 => simp at h
  | case3 e expected c rest same ih =>
    obtain ⟨size, found, rfl⟩ := Option.map_eq_some_iff.mp h
    obtain ⟨text, tail, rfl, rfl, length⟩ := ih found
    exact ⟨c :: text, tail, rfl, rfl, by simp [length]⟩
  | case4 => simp at h

/-- What a literal matches is a beginning of the input with as many characters as the literal. -/
theorem matchSize?_eq_some {l : Literal} {rest : List Char} {size : Nat}
    (h : l.matchSize? rest = some size) :
    ∃ text tail, rest = text ++ tail ∧ Text.byteSize text = size ∧
      text.length = l.text.toList.length := by
  simp only [matchSize?] at h
  split at h
  · exact foldedSize?_eq_some h
  · split at h
    · rename_i spelled
      obtain ⟨tail, rfl⟩ := List.isPrefixOf_iff_prefix.mp spelled
      exact ⟨_, tail, rfl, by simpa using h, rfl⟩
    · simp at h

/-- Only the empty literal matches nothing. -/
theorem isEmpty_of_matchSize? {l : Literal} {rest : List Char} (h : l.matchSize? rest = some 0) :
    l.text.isEmpty := by
  obtain ⟨text, tail, -, size, length⟩ := matchSize?_eq_some h
  obtain rfl := Text.eq_nil_of_byteSize size
  have spelled : l.text.toList = [] := List.eq_nil_of_length_eq_zero length.symm
  simpa using spelled

end Literal

end Packrat
