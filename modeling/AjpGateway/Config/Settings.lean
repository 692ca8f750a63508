import AjpGateway.Clock
import AjpGateway.Config.Properties
import AjpGateway.Decimal.Layout
import AjpGateway.Json.Value
import AjpGateway.Packet.Code

/-!
# Settings of workers

The settings of a worker are the entries `worker.<name>.<key>`.  Each has a default; a value that
cannot be read or lies out of range is an error that names its key.
-/

namespace AjpGateway

inductive WorkerKind where
  /-- one container -/
  | ajp13
  /-- a group of workers -/
  | lb
  /-- a report on all workers -/
  | status
deriving DecidableEq, Repr

namespace WorkerKind

def name : WorkerKind → String
  | ajp13 => "ajp13"
  | lb => "lb"
  | status => "status"

/-- The kind of a name, whose case and surrounding blanks do not count. -/
def ofName? (s : String) : Option WorkerKind :=
  let word := String.ofList ((Text.trim s.toList).map Char.toLower)
  [ajp13, lb, status].find? (·.name == word)

/-- The declared kind of a worker; `ajp13` unless set. -/
def read (p : Properties) (worker : String) : Except SettingError WorkerKind :=
  match p.worker? worker "type" with
  | none => .ok ajp13
  | some raw =>
    match ofName? raw with
    | some k => .ok k
    | none => .error (.invalidValue (Properties.workerKey worker "type") raw)

end WorkerKind

/-! ## Containers -/

structure BackendSettings where
  host : String := "localhost"
  port : Nat := 8009
  /-- seconds; 0 for none -/
  socketTimeout : Nat := 0
  /-- milliseconds; 0 for none -/
  connectTimeout : Nat := 0
  /-- milliseconds to wait for the answer to a probe; 0 for no probes -/
  probeTimeout : Nat := 0
  keepAlive : Bool := false
  cacheSize : Nat := 1
  /-- idle seconds after which a kept connection is dropped; 0 for never -/
  cacheTimeout : Nat := 15
  secret : Option String := none
  packetSize : Nat := Packet.defaultSize
deriving DecidableEq, Repr

namespace BackendSettings

/-- The packet size comes first: it is checked before any other setting is read. -/
def read (p : Properties) (worker : String) : Except SettingError BackendSettings := do
  let key := Properties.workerKey worker
  let nat (max : Nat) (k : String) (default : Nat) : Except SettingError Nat :=
    (p.nat? max (key k)).map (·.getD default)
  let d : BackendSettings := {}
  let packetSize ← nat Decimal.maxUInt64 "max_packet_size" d.packetSize
  if packetSize < Packet.defaultSize ∨ Packet.largestSize < packetSize then
    throw (.invalidValue (key "max_packet_size") (toString packetSize))
  let port ← nat Decimal.maxUInt16 "port" d.port
  let socketTimeout ← nat Decimal.maxUInt64 "socket_timeout" d.socketTimeout
  let connectTimeout ← nat Decimal.maxUInt64 "connect_timeout" d.connectTimeout
  let probeTimeout ← nat Decimal.maxUInt64 "prepost_timeout" d.probeTimeout
  let keepAlive ← p.flag (key "socket_keepalive") d.keepAlive
  let cacheSize ← nat Decimal.maxUInt64 "cachesize" d.cacheSize
  let cacheTimeout ← nat Decimal.maxUInt64 "cache_timeout" d.cacheTimeout
  return {
    host := (p.worker? worker "host").getD d.host
    port, socketTimeout, connectTimeout, probeTimeout, keepAlive, cacheSize, cacheTimeout
    secret := p.worker? worker "secret"
    packetSize }

/-- A duration of zero stands for none. -/
def positive? (d : Duration) : Option Duration := if d = 0 then none else some d

def socketLimit? (s : BackendSettings) : Option Duration :=
  positive? (.ofSeconds s.socketTimeout)

def connectLimit? (s : BackendSettings) : Option Duration :=
  positive? (.ofMillis s.connectTimeout)

def probeLimit? (s : BackendSettings) : Option Duration := positive? (.ofMillis s.probeTimeout)

def cacheLimit? (s : BackendSettings) : Option Duration := positive? (.ofSeconds s.cacheTimeout)

/-- Every setting but the secret. -/
def toJson (s : BackendSettings) : Json := .obj [
  ("host", .str s.host),
  ("port", .nat s.port),
  ("socket_timeout_secs", .nat s.socketTimeout),
  ("connect_timeout_ms", .nat s.connectTimeout),
  ("prepost_timeout_ms", .nat s.probeTimeout),
  ("socket_keepalive", .bool s.keepAlive),
  ("cache_size", .nat s.cacheSize),
  ("cache_timeout_secs", .nat s.cacheTimeout),
  ("max_packet_size", .nat s.packetSize)]

end BackendSettings

/-! ## Members of a balancer -/

/-- What a balancer reads from a member's own section. -/
structure MemberSettings (Load : Type) where
  factor : Load
  route : String
  redirect : Option String := none
  disabled : Bool := false
  stopped : Bool := false
deriving Repr

namespace MemberSettings

/-- The factor is positive and finite; the route is the member's name unless set. -/
def read (p : Properties) (worker : String) : Except SettingError (MemberSettings Float) := do
  let key := Properties.workerKey worker
  let factor ← (p.read? Decimal.readFloat? (key "lbfactor")).map (·.getD 1.0)
  unless factor.isFinite && factor > 0.0 do
    throw (.invalidValue (key "lbfactor") (Decimal.messageFloat.write factor))
  let disabled ← p.flag (key "disabled") false
  let stopped ← p.flag (key "stopped") false
  return {
    factor
    route := ((p.worker? worker "route").or (p.worker? worker "jvm_route")).getD worker
    redirect := p.worker? worker "redirect"
    disabled, stopped }

end MemberSettings

/-! ## Balancers -/

structure BalancerSettings where
  members : List String := []
  sticky : Bool := true
  /-- refuse a request rather than take it off its session's member -/
  forceSticky : Bool := false
  /-- seconds that a failed member rests -/
  recoverTime : Nat := 60
  /-- seconds between two passes of maintenance -/
  maintainTime : Nat := 60
deriving DecidableEq, Repr

namespace BalancerSettings

/-- The members' names; an older key is read where the newer one lists none. -/
def memberNames (p : Properties) (worker : String) : List String :=
  match p.list (Properties.workerKey worker "balance_workers") with
  | [] => p.list (Properties.workerKey worker "balanced_workers")
  | names => names

def read (p : Properties) (worker : String) : Except SettingError BalancerSettings := do
  let key := Properties.workerKey worker
  let members := memberNames p worker
  if members = [] then throw (.missing (key "balance_workers"))
  let d : BalancerSettings := {}
  let sticky ← p.flag (key "sticky_session") d.sticky
  let forceSticky ← p.flag (key "sticky_session_force") d.forceSticky
  let recoverTime ← (p.nat? Decimal.maxUInt64 (key "recover_time")).map (·.getD d.recoverTime)
  let maintainTime ← (p.nat? Decimal.maxUInt64 (key "maintain")).map (·.getD d.maintainTime)
  return { members, sticky, forceSticky, recoverTime, maintainTime }

def recoverWindow (s : BalancerSettings) : Duration := .ofSeconds s.recoverTime

def maintainInterval (s : BalancerSettings) : Duration := .ofSeconds s.maintainTime

def toJson (s : BalancerSettings) : Json := .obj [
  ("members", .arr (s.members.map .str)),
  ("sticky_session", .bool s.sticky),
  ("sticky_session_force", .bool s.forceSticky),
  ("recover_time_secs", .nat s.recoverTime),
  ("maintain_secs", .nat s.maintainTime)]

end BalancerSettings

end AjpGateway
