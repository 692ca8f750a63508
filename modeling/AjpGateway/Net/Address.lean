import AjpGateway.Decimal.Reading
import AjpGateway.Text.Cut
import AjpGateway.Text.Hex

/-!
# Addresses

IPv4 and IPv6 addresses and their texts.  An IPv4 address has four numbers without leading zeros.
An IPv6 address has eight words; one run of zeros may be written `::`, and the last two words may
be written as an IPv4 address.  Written out, the longest run of zeros is left out, the first of
several, and an IPv4 address mapped into IPv6 keeps its dots.  With a port an IPv6 address stands
in brackets, its scope behind `%`.
-/

namespace AjpGateway

inductive Ip where
  | v4 (bytes : List UInt8)
  | v6 (words : List UInt16)
deriving DecidableEq, Repr

/-- An address and a port. -/
structure Address where
  ip : Ip
  port : Nat
  /-- the number of the link that an IPv6 address is of; 0 for none -/
  scope : Nat := 0
deriving DecidableEq, Repr

namespace Ip

def localhost : Ip := .v4 [127, 0, 0, 1]

def isV4 : Ip → Bool
  | v4 _ => true
  | v6 _ => false

/-! ## Reading -/

/-- A value and the text after it. -/
abbrev Reading (α : Type) := Option (α × List Char)

def isHexDigit (c : Char) : Bool := c.isDigit || ('a' ≤ c && c ≤ 'f') || ('A' ≤ c && c ≤ 'F')

def hexValue (c : Char) : Nat :=
  if c.isDigit then c.toNat - 48 else if c.toNat < 97 then c.toNat - 55 else c.toNat - 87

/-- A number below 256 of at most three digits, without a leading zero. -/
def readByte (s : List Char) : Reading UInt8 :=
  let ds := s.takeWhile Char.isDigit
  let n := Decimal.digitsValue ds
  if ds = [] ∨ 3 < ds.length ∨ 255 < n ∨ (ds.head? = some '0' ∧ 1 < ds.length) then none
  else some (UInt8.ofNat n, s.drop ds.length)

/-- A word of at most four hexadecimal digits. -/
def readWord (s : List Char) : Reading UInt16 :=
  let ds := s.takeWhile isHexDigit
  if ds = [] ∨ 4 < ds.length then none
  else some (UInt16.ofNat (ds.foldl (fun n c => 16 * n + hexValue c) 0), s.drop ds.length)

/-- `n` bytes with dots between them. -/
def readBytes : Nat → List Char → Reading (List UInt8)
  | 0, s => some ([], s)
  | n + 1, s =>
    match readByte s with
    | none => none
    | some (b, rest) =>
      match n, rest with
      | 0, _ => some ([b], rest)
      | _ + 1, '.' :: rest => (readBytes n rest).map fun (bs, r) => (b :: bs, r)
      | _ + 1, _ => none

def joinBytes (a b : UInt8) : UInt16 := UInt16.ofNat (256 * a.toNat + b.toNat)

/-- The text after the colon that precedes every word but the first. -/
def afterColon (first : Bool) (s : List Char) : Option (List Char) :=
  if first then some s
  else
    match s with
    | ':' :: r => some r
    | _ => none

/-- As many words as there are, at most `room`, and whether an IPv4 address ended them. -/
def readWords : (room : Nat) → (first : Bool) → List Char → List UInt16 × Bool × List Char
  | 0, _, s => ([], false, s)
  | room + 1, first, s =>
    match afterColon first s with
    | none => ([], false, s)
    | some t =>
      match (if 0 < room then readBytes 4 t else none) with
      | some ([a, b, c, d], rest) => ([joinBytes a b, joinBytes c d], true, rest)
      | _ =>
        match readWord t with
        | none => ([], false, s)
        | some (w, rest) =>
          let (ws, dotted, r) := readWords room false rest
          (w :: ws, dotted, r)

def readV4 (s : List Char) : Reading Ip := (readBytes 4 s).map fun (bs, r) => (.v4 bs, r)

def readV6 (s : List Char) : Reading Ip :=
  let (head, dotted, rest) := readWords 8 true s
  if head.length = 8 then some (.v6 head, rest)
  else if dotted then none
  else
    match rest with
    | ':' :: ':' :: rest =>
      let (tail, _, rest) := readWords (7 - head.length) true rest
      some (.v6 (head ++ List.replicate (8 - head.length - tail.length) 0 ++ tail), rest)
    | _ => none

/-- The address that a text is as a whole. -/
def ofText? (s : String) : Option Ip :=
  match readV4 s.toList with
  | some (ip, []) => some ip
  | _ =>
    match readV6 s.toList with
    | some (ip, []) => some ip
    | _ => none

/-! ## Writing -/

def bytesText (bs : List UInt8) : String := ".".intercalate (bs.map fun b => toString b.toNat)

def wordsText (ws : List UInt16) : String := ":".intercalate (ws.map fun w => Text.hexOf w.toNat)

/-- The start and length of the longest run of zeros from place `i` on, the first of several. -/
def longestZeros (i : Nat) : List UInt16 → Nat × Nat
  | [] => (i, 0)
  | w :: ws =>
    let run := ((w :: ws).takeWhile (· == 0)).length
    let later := longestZeros (i + 1) ws
    if later.2 ≤ run then (i, run) else later

def text : Ip → String
  | v4 bs => bytesText bs
  | v6 [0, 0, 0, 0, 0, 0xFFFF, a, b] =>
    "::ffff:" ++ bytesText [UInt8.ofNat (a.toNat / 256), UInt8.ofNat a.toNat,
      UInt8.ofNat (b.toNat / 256), UInt8.ofNat b.toNat]
  | v6 ws =>
    let (start, n) := longestZeros 0 ws
    if 1 < n then wordsText (ws.take start) ++ "::" ++ wordsText (ws.drop (start + n))
    else wordsText ws

end Ip

namespace Address

def text (a : Address) : String :=
  let scope := if a.scope = 0 then "" else "%" ++ toString a.scope
  (if a.ip.isV4 then a.ip.text else "[" ++ a.ip.text ++ scope ++ "]") ++ ":" ++ toString a.port

/-- The port that a text ends with, after a colon. -/
def readPort : List Char → Option Nat
  | ':' :: ds => (Decimal.digits? ds).filter (· ≤ Decimal.maxUInt16)
  | _ => none

/-- The scope behind `%` and the port behind the bracket. -/
def readScopePort : List Char → Option (Nat × Nat)
  | ']' :: r => (readPort r).map (0, ·)
  | '%' :: r =>
    match Text.cutAt? ']' r with
    | some (ds, r) => do
      let scope ← (Decimal.digits? ds).filter (· ≤ Decimal.maxUInt32)
      let port ← readPort r
      return (scope, port)
    | none => none
  | _ => none

/-- The address of a text `ip:port`, with brackets around IPv6. -/
def ofText? (s : String) : Option Address :=
  match s.toList with
  | '[' :: r => do
    let (ip, r) ← Ip.readV6 r
    let (scope, port) ← readScopePort r
    return { ip, port, scope }
  | r => do
    let (ip, r) ← Ip.readV4 r
    let port ← readPort r
    return { ip, port }

end Address

end AjpGateway
