import AjpGateway.Net.Failure

/-!
# Hosts

What a host is called: an address, an IPv4 address written by fewer or other numbers, an IPv6
address with a zone, or a name.  The forms are tried in this order.

    127.1   0x7f000001   0177.0.0.1      one to four numbers, the last filling the bytes left
    fe80::1%2   fe80::1%eth0             the zone is an interface of the link, or a number
-/

namespace AjpGateway

namespace Ip

/-! ## Addresses by numbers -/

/-- The base of a number and its digits: hexadecimal behind `0x`, octal from a zero on. -/
def baseOf : List Char → Nat × List Char
  | '0' :: 'x' :: d :: r => (16, d :: r)
  | '0' :: 'X' :: d :: r => (16, d :: r)
  | '0' :: r => (8, '0' :: r)
  | s => (10, s)

def numberOf? (s : List Char) : Option Nat :=
  let (base, ds) := baseOf s
  if ds ≠ [] ∧ ds.all (fun c => isHexDigit c && hexValue c < base) then
    some (ds.foldl (fun n c => base * n + hexValue c) 0)
  else none

/-- The lowest `k` bytes of a number, the highest of them first. -/
def lowBytes : (k n : Nat) → List UInt8
  | 0, _ => []
  | k + 1, n => lowBytes k (n / 256) ++ [UInt8.ofNat n]

/-- The bytes of an address with `k` bytes: each number but the last is one, and the last fills
those that are left. -/
def bytesOf? : (k : Nat) → List Nat → Option (List UInt8)
  | k + 1, [n] => if n < Nat.pow 256 (k + 1) then some (lowBytes (k + 1) n) else none
  | k + 1, n :: ns => if n < 256 then (bytesOf? k ns).map (UInt8.ofNat n :: ·) else none
  | _, _ => none

/-- The IPv4 address of one to four numbers with dots between them. -/
def ofNumbers? (s : List Char) : Option Ip := do
  let numbers ← (s.splitOnP (· == '.')).mapM numberOf?
  let bytes ← bytesOf? 4 numbers
  return .v4 bytes

/-- Whether an address is of one link only: unicast from `fe80::` on, or multicast of link or
node. -/
def isLinkLocal : Ip → Bool
  | v6 (w :: _) =>
    w.toNat / 64 == 0x3FA || (w.toNat / 256 == 0xFF && (w.toNat % 16 == 1 || w.toNat % 16 == 2))
  | _ => false

end Ip

/-! ## Names -/

/-- What names stand for. -/
structure Hosts where
  addresses? : String → Option (List Ip)
  /-- the number of an interface -/
  interface? : String → Option Nat

namespace Hosts

/-- Knows the local host and its interface only. -/
def loopback : Hosts where
  addresses? name := if Text.sameIgnoringCase name "localhost" then some [.localhost] else none
  interface? name := if name = "lo" then some 1 else none

/-- The scope that a zone names. -/
def scope? (hosts : Hosts) (ip : Ip) (zone : List Char) : Option Nat :=
  let interface := if ip.isLinkLocal then hosts.interface? (String.ofList zone) else none
  interface.or ((Decimal.digits? zone).filter (· ≤ Decimal.maxUInt32))

/-- An IPv6 address and the zone behind it. -/
def zoned? (s : List Char) : Option (Ip × List Char) :=
  match Ip.readV6 s with
  | some (ip, '%' :: zone) => some (ip, zone)
  | _ => none

/-- The address of a host, IPv4 before IPv6. -/
def resolve (hosts : Hosts) (host : String) (port : Nat) : Except NetFailure Address :=
  let s := host.toList
  match Ip.ofText? host with
  | some ip => .ok { ip, port }
  | none =>
    if '\x00' ∈ s then .error (.unresolved host port .nulInName)
    else
      match Ip.ofNumbers? s, zoned? s with
      | some ip, _ => .ok { ip, port }
      | none, some (ip, zone) =>
        match hosts.scope? ip zone with
        | some scope => .ok { ip, port, scope }
        | none => .error (.unresolved host port .unknownName)
      | none, none =>
        match hosts.addresses? host with
        | none => .error (.unresolved host port .unknownName)
        | some ips =>
          match (ips.find? Ip.isV4).or ips.head? with
          | some ip => .ok { ip, port }
          | none => .error (.noAddress host port)

end Hosts

end AjpGateway
