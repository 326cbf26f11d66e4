/-! Texts as lists of characters: their size in UTF-8 bytes, blanks around them, and their control characters
made visible. A cut at an offset beyond the end, or inside a character, is `none`. -/
namespace Packrat.Text

def byteSize (text : List Char) : Nat := text.foldr (fun c size => c.utf8Size + size) 0

@[simp] theorem byteSize_nil : byteSize [] = 0 := rfl

@[simp] theorem byteSize_cons (c : Char) (text : List Char) :
    byteSize (c :: text) = c.utf8Size + byteSize text := rfl

@[simp] theorem byteSize_append (a b : List Char) : byteSize (a ++ b) = byteSize a + byteSize b := by
  induction a with
  | nil => simp
  | cons c a ih => simp only [List.cons_append, byteSize_cons, ih, Nat.add_assoc]

def dropBytes? : List Char → Nat → Option (List Char)
  | text, 0 => some text
  | [], _ + 1 => none
  | c :: text, n + 1 =>
    if c.utf8Size ≤ n + 1 then dropBytes? text (n + 1 - c.utf8Size) else none

/-- The first `n` bytes after those in `taken`, which are given from the last character back. -/
def takeBytesAfter (taken : List Char) : List Char → Nat → Option (List Char)
  | _, 0 => some taken.reverse
  | [], _ + 1 => none
  | c :: text, n + 1 =>
    if c.utf8Size ≤ n + 1 then takeBytesAfter (c :: taken) text (n + 1 - c.utf8Size) else none

def takeBytes? (text : List Char) (n : Nat) : Option (List Char) := takeBytesAfter [] text n

/-- A cut succeeds exactly between two characters. -/
theorem dropBytes?_eq_some_iff {text rest : List Char} {n : Nat} :
    dropBytes? text n = some rest ↔ ∃ taken, text = taken ++ rest ∧ byteSize taken = n := by
  constructor
  · intro h
    fun_induction dropBytes? text n with
    | case1 => exact ⟨[], by simpa using h, rfl⟩
    | case2 => simp at h
    | case3 c text n fits ih =>
      obtain ⟨taken, rfl, size⟩ := ih h
      exact ⟨c :: taken, rfl, by simp only [byteSize_cons]; omega⟩
    | case4 => simp at h
  · rintro ⟨taken, rfl, rfl⟩
    induction taken with
    | nil => cases rest <;> rfl
    | cons c taken ih =>
      have positive := c.utf8Size_pos
      obtain ⟨n, hn⟩ : ∃ n, byteSize (c :: taken) = n + 1 :=
        ⟨byteSize (c :: taken) - 1, by simp only [byteSize_cons]; omega⟩
      have left : n + 1 - c.utf8Size = byteSize taken := by
        simp only [byteSize_cons] at hn; omega
      have fits : c.utf8Size ≤ n + 1 := by simp only [byteSize_cons] at hn; omega
      rw [hn, List.cons_append, dropBytes?, if_pos fits, left, ih]

theorem takeBytesAfter_eq_some_iff {before text taken : List Char} {n : Nat} :
    takeBytesAfter before text n = some taken ↔
      ∃ a rest, text = a ++ rest ∧ byteSize a = n ∧ taken = before.reverse ++ a := by
  constructor
  · intro h
    fun_induction takeBytesAfter before text n with
    | case1 before text => exact ⟨[], text, rfl, rfl, by simpa using h.symm⟩
    | case2 => simp at h
    | case3 before c text n fits ih =>
      obtain ⟨a, rest, rfl, size, rfl⟩ := ih h
      exact ⟨c :: a, rest, rfl, by simp only [byteSize_cons]; omega, by simp⟩
    | case4 => simp at h
  · rintro ⟨a, rest, rfl, rfl, rfl⟩
    induction a generalizing before with
    | nil => cases rest <;> simp [takeBytesAfter]
    | cons c a ih =>
      have positive := c.utf8Size_pos
      obtain ⟨n, hn⟩ : ∃ n, byteSize (c :: a) = n + 1 :=
        ⟨byteSize (c :: a) - 1, by simp only [byteSize_cons]; omega⟩
      have left : n + 1 - c.utf8Size = byteSize a := by
        simp only [byteSize_cons] at hn; omega
      have fits : c.utf8Size ≤ n + 1 := by simp only [byteSize_cons] at hn; omega
      rw [hn, List.cons_append, takeBytesAfter, if_pos fits, left, ih]
      simp

/-- The beginning that is cut off is followed by the rest of the text. -/
theorem takeBytes?_eq_some_iff {text taken : List Char} {n : Nat} :
    takeBytes? text n = some taken ↔ ∃ rest, text = taken ++ rest ∧ byteSize taken = n := by
  rw [takeBytes?, takeBytesAfter_eq_some_iff]
  constructor
  · rintro ⟨a, rest, rfl, size, rfl⟩
    exact ⟨rest, by simp, by simpa using size⟩
  · rintro ⟨rest, rfl, size⟩
    exact ⟨taken, rest, rfl, size, by simp⟩

def isBlank (c : Char) : Bool :=
  let n := c.toNat
  (9 ≤ n && n ≤ 13) || n == 0x20 || n == 0x85 || n == 0xA0 || n == 0x1680 ||
    (0x2000 ≤ n && n ≤ 0x200A) || n == 0x2028 || n == 0x2029 || n == 0x202F || n == 0x205F ||
    n == 0x3000

def trim (text : List Char) : List Char :=
  ((text.dropWhile isBlank).reverse.dropWhile isBlank).reverse

def hexDigit (n : Nat) : Char :=
  if n < 10 then Char.ofNat ('0'.toNat + n) else Char.ofNat ('A'.toNat + (n - 10))

/-- Line feed, carriage return and tab have letters; any other control character below the blank is
written by its code in two upper-case hexadecimal digits. -/
def escapeChar (c : Char) : List Char :=
  if c = '\n' then ['\\', 'n']
  else if c = '\r' then ['\\', 'r']
  else if c = '\t' then ['\\', 't']
  else if c.toNat < 0x20 then ['\\', 'x', hexDigit (c.toNat / 16), hexDigit (c.toNat % 16)]
  else [c]

def escape (text : List Char) : List Char := text.flatMap escapeChar

end Packrat.Text
