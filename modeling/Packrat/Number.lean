/-! Floating-point numbers read from decimal text, and the shortest decimal text that reads back. -/
namespace Packrat.Number

def infinity : Float := Float.ofBits 0x7FF0000000000000

def notANumber : Float := Float.ofBits 0x7FF8000000000000

def value (digits : List Char) : Nat := digits.foldl (fun n c => 10 * n + (c.toNat - '0'.toNat)) 0

/-- The float nearest to `mantissa · 10 ^ exponent`. Numbers far outside the range of floats are decided
by their size alone. -/
def nearest (mantissa : Nat) (exponent : Int) : Float :=
  let size := (Nat.toDigits 10 mantissa).length + exponent
  if mantissa = 0 ∨ size < -400 then 0
  else if 400 < size then infinity
  else Float.ofScientific mantissa (exponent < 0) exponent.natAbs

def readDigits? (text : List Char) : Option Nat :=
  if !text.isEmpty && text.all Char.isDigit then some (value text) else none

def readExponent? : List Char → Option Int
  | [] => some 0
  | letter :: rest =>
    if letter = 'e' ∨ letter = 'E' then
      match rest with
      | '-' :: digits => (readDigits? digits).map fun n => -(n : Int)
      | '+' :: digits => (readDigits? digits).map Int.ofNat
      | digits => (readDigits? digits).map Int.ofNat
    else none

def readNumeral? (text : List Char) : Option Float :=
  let whole := text.takeWhile Char.isDigit
  match text.dropWhile Char.isDigit with
  | '.' :: rest =>
    let fraction := rest.takeWhile Char.isDigit
    if whole.isEmpty && fraction.isEmpty then none
    else (readExponent? (rest.dropWhile Char.isDigit)).map fun exponent =>
      nearest (value (whole ++ fraction)) (exponent - fraction.length)
  | rest =>
    if whole.isEmpty then none
    else (readExponent? rest).map (nearest (value whole))

def readUnsigned? (text : List Char) : Option Float :=
  let word := text.map Char.toLower
  if word = ['i', 'n', 'f'] ∨ word = ['i', 'n', 'f', 'i', 'n', 'i', 't', 'y'] then some infinity
  else if word = ['n', 'a', 'n'] then some notANumber
  else readNumeral? text

def read? : List Char → Option Float
  | '-' :: text => (readUnsigned? text).map Float.neg
  | '+' :: text => readUnsigned? text
  | text => readUnsigned? text

/-- The number `digits · 10 ^ exponent`. -/
structure Decimal where
  digits : Nat
  exponent : Int
  deriving DecidableEq, Repr

namespace Decimal

def withoutFinalZeros (digits : List Char) : List Char :=
  (digits.reverse.dropWhile (· == '0')).reverse

/-- The text without an exponent. The point stands only before a fraction, and after a digit. -/
def text (d : Decimal) : List Char :=
  let digits := Nat.toDigits 10 d.digits
  if 0 ≤ d.exponent then digits ++ List.replicate d.exponent.toNat '0'
  else
    let places := d.exponent.natAbs
    let padded := List.replicate (places + 1 - digits.length) '0' ++ digits
    let whole := padded.take (padded.length - places)
    match withoutFinalZeros (padded.drop (padded.length - places)) with
    | [] => whole
    | fraction => whole ++ '.' :: fraction

end Decimal

/-- The number `mantissa · 2 ^ exponent`, with the reals that round to it. -/
structure Binary where
  mantissa : Nat
  exponent : Int
  /-- The next smaller number is half as far away as the next larger one. -/
  closeBelow : Bool

namespace Binary

def power (base : Nat) (exponent : Int) : Nat × Nat :=
  if 0 ≤ exponent then (base.pow exponent.toNat, 1) else (1, base.pow exponent.natAbs)

/-- The number lies from `10 ^ (decade - 1)` up to `10 ^ decade`. The scale is beyond the least positive
number. -/
def decade (b : Binary) : Int :=
  let (num, den) := power 2 b.exponent
  ((Nat.toDigits 10 (b.mantissa * num * Nat.pow 10 400 / den)).length : Int) - 400

/-- The decimal with this exponent that lies next to the number and rounds to it, if there is one. Of
two the nearer is taken, and the greater if they are equally near. All is measured in quarters of the
last binary place, on a scale that makes it whole. -/
def onGrid? (b : Binary) (exponent : Int) : Option Decimal :=
  let (binNum, binDen) := power 2 (b.exponent - 2)
  let (decNum, decDen) := power 10 exponent
  let unit := binNum * decDen
  let cell := decNum * binDen
  let value := 4 * b.mantissa * unit
  let low := (4 * b.mantissa - if b.closeBelow then 1 else 2) * unit
  let high := (4 * b.mantissa + 2) * unit
  let rounds (x : Nat) : Bool :=
    if b.mantissa % 2 = 0 then low ≤ x && x ≤ high else low < x && x < high
  let count := value / cell
  let below := count * cell
  let above := (count + 1) * cell
  if rounds above && (!rounds below || above - value ≤ value - below) then some ⟨count + 1, exponent⟩
  else if rounds below then some ⟨count, exponent⟩
  else none

def search (b : Binary) : Nat → Int → Option Decimal
  | 0, _ => none
  | grids + 1, exponent => (b.onGrid? exponent).or (search b grids (exponent - 1))

/-- Seventeen digits always suffice. -/
def shortest (b : Binary) : Decimal := (b.search 17 (b.decade - 1)).getD ⟨0, 0⟩

end Binary

def fields (x : Float) : Bool × Nat × Nat :=
  let bits := x.toBits.toNat
  (bits / Nat.pow 2 63 == 1, bits / Nat.pow 2 52 % Nat.pow 2 11, bits % Nat.pow 2 52)

def ofFields (exponent fraction : Nat) : Binary :=
  if exponent = 0 then ⟨fraction, -1074, false⟩
  else ⟨Nat.pow 2 52 + fraction, (exponent : Int) - 1075, fraction == 0 && exponent != 1⟩

def magnitudeText (exponent fraction : Nat) : String :=
  if exponent = 2047 then "inf"
  else if exponent = 0 ∧ fraction = 0 then "0"
  else String.ofList (ofFields exponent fraction).shortest.text

/-- The fewest digits that read back, in positional notation. -/
def text (x : Float) : String :=
  match fields x with
  | (negative, exponent, fraction) =>
    if exponent = 2047 ∧ fraction ≠ 0 then "NaN"
    else (if negative then "-" else "") ++ magnitudeText exponent fraction

end Packrat.Number
