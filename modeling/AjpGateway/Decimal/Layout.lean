import AjpGateway.Decimal.Shortest

/-!
# Laying out floats

The digits of a float are its shortest decimal; a `Layout` says where the point goes, when an
exponent is written, and how the values that are not finite are named.
-/

namespace AjpGateway.Decimal

/-- How floats are written.  With `point` the place of the point counted from the first digit, the
number is positional when `lowest ≤ point ≤ highest`. -/
structure Layout where
  lowest : Int
  highest : Int
  /-- whole numbers end in `.0` -/
  wholePoint : Bool
  tie : Tie
  infinity : String
  notANumber : String

/-- Messages write every float positionally; a tie goes up. -/
def messageFloat : Layout := ⟨-400, 400, false, .up, "inf", "NaN"⟩

/-- Documents write an exponent below `10 ^ -5` and from `10 ^ 16` on; a tie goes to even. -/
def documentFloat : Layout := ⟨-4, 16, true, .even, "null", "null"⟩

def zeros (n : Int) : String := String.ofList (List.replicate n.toNat '0')

def Layout.positional (l : Layout) (digits : List Char) (point : Int) : String :=
  if digits.length ≤ point then
    String.ofList digits ++ zeros (point - digits.length) ++ (if l.wholePoint then ".0" else "")
  else if 0 < point then
    String.ofList (digits.take point.toNat) ++ "." ++ String.ofList (digits.drop point.toNat)
  else "0." ++ zeros (-point) ++ String.ofList digits

/-- One digit before the point and the exponent with its sign. -/
def withExponent (digits : List Char) (point : Int) : String :=
  let power := (if 0 < point then "e+" else "e") ++ toString (point - 1)
  match digits with
  | [] => power
  | [d] => d.toString ++ power
  | d :: rest => d.toString ++ "." ++ String.ofList rest ++ power

def Layout.magnitude (l : Layout) (b : Binary) : String :=
  if b.m == 0 then if l.wholePoint then "0.0" else "0"
  else
    let d := b.shortest l.tie
    let digits := Nat.toDigits 10 d.digits
    let point := digits.length + d.exponent
    if l.lowest ≤ point && point ≤ l.highest then l.positional digits point
    else withExponent digits point

/-- The written form of a float. -/
def Layout.write (l : Layout) (x : Float) : String :=
  let negative := x.toBits ≥ 0x8000000000000000
  if x.isNaN then l.notANumber
  else if x.isInf then if negative && l.infinity != "null" then "-" ++ l.infinity else l.infinity
  else (if negative then "-" else "") ++ l.magnitude (.ofFloat x)

end AjpGateway.Decimal
