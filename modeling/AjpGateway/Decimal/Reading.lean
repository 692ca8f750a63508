/-!
# Reading numbers

Whole numbers are ASCII digits after at most one sign; a number without a sign bit admits `+`
only.  Fractional numbers add a point, an exponent, and the words for infinity and not-a-number
in any case.  No blank and no separator is admitted.
-/

namespace AjpGateway.Decimal

/-- The number written by digits. -/
def digitsValue (ds : List Char) : Nat := ds.foldl (fun n c => 10 * n + (c.toNat - 48)) 0

/-- The number written by a nonempty run of digits. -/
def digits? (ds : List Char) : Option Nat :=
  if !ds.isEmpty && ds.all Char.isDigit then some (digitsValue ds) else none

def dropPlus : List Char → List Char
  | '+' :: r => r
  | s => s

/-- A number from 0 to `max`. -/
def readNat? (max : Nat) (s : List Char) : Option Nat :=
  (digits? (dropPlus s)).filter (· ≤ max)

/-- A number from `-(max + 1)` to `max`. -/
def readInt? (max : Nat) : List Char → Option Int
  | '-' :: r => ((digits? r).filter (· ≤ max + 1)).map fun n => -(n : Int)
  | s => (readNat? max s).map Int.ofNat

def maxUInt16 : Nat := UInt16.size - 1
def maxUInt32 : Nat := UInt32.size - 1
def maxUInt64 : Nat := UInt64.size - 1
def maxInt32 : Nat := 2147483647

/-! ## Fractional numbers -/

/-- The decimal `mantissa * 10 ^ exponent`. -/
structure Scientific where
  mantissa : Nat
  exponent : Int

/-- An exponent takes up no digit more once it has come to this. -/
def exponentBound : Nat := 0x10000

/-- The size of an exponent written by a nonempty run of digits. -/
def exponentSize? (ds : List Char) : Option Nat :=
  (digits? ds).map fun _ =>
    ds.foldl (fun n c => if n < exponentBound then 10 * n + (c.toNat - 48) else n) 0

/-- The exponent after the mark `e` or `E`; no mark is exponent 0. -/
def exponent? : List Char → Option Int
  | [] => some 0
  | c :: r =>
    if c == 'e' || c == 'E' then
      match r with
      | '-' :: ds => (exponentSize? ds).map fun n => -(n : Int)
      | ds => (exponentSize? (dropPlus ds)).map Int.ofNat
    else none

/-- Digits, at least one, around at most one point, then an exponent. -/
def scientific? (s : List Char) : Option Scientific :=
  let whole := s.takeWhile Char.isDigit
  let (fraction, rest) :=
    match s.dropWhile Char.isDigit with
    | '.' :: r => (r.takeWhile Char.isDigit, r.dropWhile Char.isDigit)
    | r => ([], r)
  if whole.isEmpty && fraction.isEmpty then none
  else (exponent? rest).map fun e => ⟨digitsValue (whole ++ fraction), e - fraction.length⟩

/-- The nearest float; decimals past the largest or below the smallest magnitude are cut short so
that no power of ten of their size is ever built. -/
def Scientific.toFloat (d : Scientific) : Float :=
  let size := (Nat.toDigits 10 d.mantissa).length + d.exponent
  if d.mantissa == 0 || size < -400 then 0.0
  else if size > 400 then 1.0 / 0.0
  else Float.ofScientific d.mantissa (d.exponent < 0) d.exponent.natAbs

/-- A number without its sign. -/
def magnitude? (s : List Char) : Option Float :=
  match scientific? s with
  | some d => some d.toFloat
  | none =>
    let word := s.map Char.toLower
    if word == "inf".toList || word == "infinity".toList then some (1.0 / 0.0)
    else if word == "nan".toList then some (0.0 / 0.0)
    else none

def readFloat? : List Char → Option Float
  | '-' :: r => (magnitude? r).map fun x => -x
  | s => magnitude? (dropPlus s)

end AjpGateway.Decimal
