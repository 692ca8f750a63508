import AjpGateway.Routing.Table

/-!
# Metrics

Counters of what the gateway does.  A counter is named by its metric and labels and starts at zero.

    (c.record m).value m = c.value m + 1                 (value_record_self)
    n ≠ m → (c.record m).value n = c.value n             (value_record_of_ne)
-/

namespace AjpGateway

inductive Metric where
  /-- a request served by a worker with a status -/
  | request (worker : String) (status : Nat)
  /-- a failed exchange -/
  | workerError (worker : String) (recoverable : Bool)
  /-- a member whose failure may be made good by another -/
  | failover (balancer : String)
  /-- a URI that hid its extension -/
  | fraud (worker : String)
deriving DecidableEq, Repr

/-- The name of the counter with its labels in order. -/
def Metric.text : Metric → String
  | request worker status =>
    "ajp_requests_total\x7bstatus=" ++ toString status ++ ",worker=" ++ worker ++ "\x7d"
  | workerError worker recoverable =>
    "ajp_worker_errors_total\x7brecoverable=" ++ toString recoverable ++ ",worker=" ++ worker ++
      "\x7d"
  | failover balancer => "ajp_failovers_total\x7bbalancer=" ++ balancer ++ "\x7d"
  | fraud worker => "ajp_fraud_attempts_total\x7bworker=" ++ worker ++ "\x7d"

/-- What was counted, the latest first. -/
structure Counters where
  recorded : List Metric := []
deriving DecidableEq, Repr

namespace Counters

def record (c : Counters) (m : Metric) : Counters := ⟨m :: c.recorded⟩

def value (c : Counters) (m : Metric) : Nat := c.recorded.count m

/-- The counters that are not zero. -/
def touched (c : Counters) : List (Metric × Nat) :=
  c.recorded.eraseDups.map fun m => (m, c.value m)

/-- Counts a resolution that only a disguise led to. -/
def recordResolution (c : Counters) : Option Resolution → Counters
  | some r => if r.fraud then c.record (.fraud r.worker) else c
  | none => c

theorem value_record_self (c : Counters) (m : Metric) :
    (c.record m).value m = c.value m + 1 := by
  simp [record, value]

theorem value_record_of_ne (c : Counters) {m n : Metric} (h : n ≠ m) :
    (c.record m).value n = c.value n := by
  simp [record, value, h.symm]

end Counters

end AjpGateway
