import AjpGateway.Balancer.Member
import AjpGateway.Json.Value
import AjpGateway.Net.Address
import AjpGateway.Worker.Phase

/-!
# Status of workers

A snapshot of a worker, and of a balancer with all that lies behind it, as a JSON document.
-/

namespace AjpGateway

/-- What a container's worker has done. -/
structure BackendStatus where
  host : String
  port : Nat
  address : Option Address
  /-- connections kept now, and at most -/
  cached : Nat
  capacity : Nat
  requests : Nat
  errors : Nat
deriving DecidableEq, Repr

inductive WorkerStatus where
  | plain (name : String) (kind : WorkerKind) (phase : Phase)
  | backend (name : String) (phase : Phase) (s : BackendStatus)
  /-- each member with the age of its failure in seconds and the status of its worker -/
  | balancer (name : String) (phase : Phase) (settings : BalancerSettings)
      (members : List (Member Float × Option Nat × WorkerStatus))

namespace WorkerStatus

def head (name : String) (kind : WorkerKind) (phase : Phase) : List (String × Json) :=
  [("name", .str name), ("type", .str kind.name), ("state", .str phase.name)]

def backendFields (s : BackendStatus) : Json := .obj [
  ("host", .str s.host),
  ("port", .nat s.port),
  ("address", .ofStr? (s.address.map Address.text)),
  ("cached_endpoints", .nat s.cached),
  ("cache_capacity", .nat s.capacity),
  ("requests", .nat s.requests),
  ("errors", .nat s.errors)]

def memberFields (m : Member Float) (age : Option Nat) (worker : Json) : Json := .obj [
  ("name", .str m.name),
  ("route", .str m.route),
  ("lb_factor", .float m.factor),
  ("lb_value", .float m.load),
  ("in_error_state", .bool m.inError),
  ("in_recovering", .bool m.recovering),
  ("error_age_secs", match age with | none => .null | some n => .nat n),
  ("redirect", .ofStr? m.redirect),
  ("disabled", .bool m.disabled),
  ("stopped", .bool m.stopped),
  ("elected", .nat m.elected),
  ("errors", .nat m.errors),
  ("worker", worker)]

mutual

def toJson : WorkerStatus → Json
  | plain name kind phase => .obj (head name kind phase)
  | backend name phase s => .obj (head name .ajp13 phase ++ [("ajp", backendFields s)])
  | balancer name phase settings members => .obj (head name .lb phase ++ [("balancer", .obj [
      ("sticky_session", .bool settings.sticky),
      ("sticky_session_force", .bool settings.forceSticky),
      ("recover_time_secs", .nat settings.recoverTime),
      ("members", .arr (membersJson members))])])

def membersJson : List (Member Float × Option Nat × WorkerStatus) → List Json
  | [] => []
  | (m, age, s) :: rest => memberFields m age s.toJson :: membersJson rest

end

/-- All workers in one document. -/
def report (workers : List WorkerStatus) : Json := .obj [("workers", .arr (workers.map toJson))]

end WorkerStatus

end AjpGateway
