import Packrat.Text
import Std.Data.TreeMap

/-! Positions in an input, and inputs with an index by byte offset, so that the text from any position on is at
hand. -/
namespace Packrat

/-- Lines and columns count from 1, columns in characters. -/
structure Position where
  offset : Nat
  line : Nat
  column : Nat
  deriving DecidableEq, Ord, Repr

namespace Position

def start : Position := ⟨0, 1, 1⟩

instance : Inhabited Position := ⟨start⟩

def step (pos : Position) (c : Char) : Position :=
  if c = '\n' then ⟨pos.offset + c.utf8Size, pos.line + 1, 1⟩
  else ⟨pos.offset + c.utf8Size, pos.line, pos.column + 1⟩

def advanceOver (pos : Position) (text : List Char) : Position := text.foldl step pos

def rest? (pos : Position) (input : List Char) : Option (List Char) :=
  Text.dropBytes? input pos.offset

/-- The position after the next `n` characters, or the end if there are fewer. -/
def advance? (pos : Position) (input : List Char) (n : Nat) : Option Position :=
  (pos.rest? input).map fun rest => pos.advanceOver (rest.take n)

def peek? (pos : Position) (input : List Char) : Option (Option Char) :=
  (pos.rest? input).map List.head?

def atEnd (pos : Position) (input : List Char) : Bool := Text.byteSize input ≤ pos.offset

def text (pos : Position) : String := s!"line {pos.line} col {pos.column}"

end Position

namespace Source

def index (offset : Nat) : List Char → Std.TreeMap Nat (List Char) → Std.TreeMap Nat (List Char)
  | [], rests => rests.insert offset []
  | c :: text, rests => index (offset + c.utf8Size) text (rests.insert offset (c :: text))

theorem index_before (text : List Char) (offset n : Nat) (rests : Std.TreeMap Nat (List Char))
    (before : n < offset) : (index offset text rests)[n]? = rests[n]? := by
  induction text generalizing offset rests with
  | nil => simp [index, Std.TreeMap.getElem?_insert, Nat.ne_of_gt before]
  | cons c text ih =>
    rw [index, ih _ _ (by omega)]
    simp [Std.TreeMap.getElem?_insert, Nat.ne_of_gt before]

theorem index_from (text : List Char) (offset n : Nat) (rests : Std.TreeMap Nat (List Char)) :
    (index offset text rests)[offset + n]? = (Text.dropBytes? text n).or rests[offset + n]? := by
  induction text generalizing offset n rests with
  | nil => cases n <;> simp [index, Text.dropBytes?, Std.TreeMap.getElem?_insert]
  | cons c text ih =>
    have positive := c.utf8Size_pos
    cases n with
    | zero =>
      rw [index, index_before _ _ _ _ (by omega)]
      simp [Text.dropBytes?]
    | succ n =>
      rw [index, Text.dropBytes?]
      by_cases fits : c.utf8Size ≤ n + 1
      · have place : offset + (n + 1) = offset + c.utf8Size + (n + 1 - c.utf8Size) := by omega
        rw [if_pos fits, place, ih]
        simp only [← place]
        simp [Std.TreeMap.getElem?_insert]
      · rw [if_neg fits, index_before _ _ _ _ (by omega)]
        simp [Std.TreeMap.getElem?_insert]

end Source

structure Source where
  text : List Char
  size : Nat
  rests : Std.TreeMap Nat (List Char)
  size_eq : size = Text.byteSize text
  rests_eq : ∀ offset : Nat, rests[offset]? = Text.dropBytes? text offset

namespace Source

def ofText (text : List Char) : Source where
  text
  size := Text.byteSize text
  rests := index 0 text ∅
  size_eq := rfl
  rests_eq offset := by simpa using index_from text 0 offset ∅

def rest? (s : Source) (pos : Position) : Option (List Char) := s.rests[pos.offset]?

def slice? (s : Source) (start stop : Position) : Option (List Char) :=
  if start.offset ≤ stop.offset then
    (s.rest? start).bind fun rest => Text.takeBytes? rest (stop.offset - start.offset)
  else none

theorem rest?_eq (s : Source) (pos : Position) : s.rest? pos = pos.rest? s.text :=
  s.rests_eq pos.offset

end Source

end Packrat
