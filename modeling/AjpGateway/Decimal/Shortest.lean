/-!
# Shortest decimals

A finite float stands for an interval of reals that round to it.  Its shortest decimal has the
fewest digits of any decimal in that interval, and of those is the nearest to the float; of two
at one distance a `Tie` chooses.

The float is decoded to `m * 2 ^ q`; all comparisons are on whole numbers.
-/

namespace AjpGateway.Decimal

/-- A finite magnitude `m * 2 ^ q`.  `narrowBelow` holds where the next float below is half as far
as the one above. -/
structure Binary where
  m : Nat
  q : Int
  narrowBelow : Bool

/-- The magnitude of a finite float. -/
def Binary.ofFloat (x : Float) : Binary :=
  let bits := x.toBits.toNat
  let hidden := Nat.pow 2 52
  let fraction := bits % hidden
  let power := bits / hidden % Nat.pow 2 11
  if power == 0 then ⟨fraction, -1074, false⟩
  else ⟨fraction + hidden, (power : Int) - 1075, fraction == 0 && power > 1⟩

/-- Which of two neighbours `d` and `d + 1` a number halfway between them goes to. -/
inductive Tie where
  /-- the even one -/
  | even
  /-- the greater one -/
  | up
deriving DecidableEq, Repr

def Tie.keeps : Tie → Nat → Bool
  | even, d => d % 2 == 0
  | up, _ => false

/-- The decimal `digits * 10 ^ exponent`. -/
structure Scaled where
  digits : Nat
  exponent : Int

/-- The point of the grid of multiples of `10 ^ e` nearest to `v / scale` among those between
`lo / scale` and `hi / scale`; ends count if `closed`. -/
def onGrid? (tie : Tie) (lo v hi : Nat) (scale : Nat) (closed : Bool) (e : Int) : Option Nat :=
  let up := Nat.pow 10 e.toNat
  let down := Nat.pow 10 (-e).toNat
  let unit := scale * up
  let within (d : Nat) : Bool :=
    if closed then lo * down ≤ d * unit && d * unit ≤ hi * down
    else lo * down < d * unit && d * unit < hi * down
  let d := v * down / unit
  match within d, within (d + 1) with
  | true, true =>
    let below := v * down - d * unit
    let above := (d + 1) * unit - v * down
    some (if below < above || (below == above && tie.keeps d) then d else d + 1)
  | true, false => some d
  | false, true => some (d + 1)
  | false, false => none

/-- The first grid with a point in the interval, from `10 ^ e` downward. -/
def firstGrid (tie : Tie) (lo v hi scale : Nat) (closed : Bool) : Nat → Int → Scaled
  | 0, e => ⟨v / scale, e⟩
  | n + 1, e =>
    match onGrid? tie lo v hi scale closed e with
    | some d => if d == 0 then firstGrid tie lo v hi scale closed n (e - 1) else ⟨d, e⟩
    | none => firstGrid tie lo v hi scale closed n (e - 1)

/-- The shortest decimal of a positive magnitude. -/
def Binary.shortest (tie : Tie) (b : Binary) : Scaled :=
  -- in units of a quarter of the last binary place
  let up := Nat.pow 2 (b.q - 2).toNat
  let scale := Nat.pow 2 (2 - b.q).toNat
  let v := 4 * b.m * up
  let lo := (4 * b.m - if b.narrowBelow then 1 else 2) * up
  let hi := (4 * b.m + 2) * up
  let wholeDigits := (Nat.toDigits 10 (hi / scale)).length
  let start : Int := if hi / scale == 0 then -((Nat.toDigits 10 (scale / hi)).length : Int) + 1
    else wholeDigits
  firstGrid tie lo v hi scale (b.m % 2 == 0) 400 start

end AjpGateway.Decimal
