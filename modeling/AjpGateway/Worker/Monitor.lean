import AjpGateway.Worker.Readiness
import AjpGateway.Worker.Status
import AjpGateway.Worker.Transaction

/-!
# Monitors

A worker that answers every request with the status of all workers as a JSON document.  It knows
of other workers once it is attached.
-/

namespace AjpGateway

structure Monitor where
  name : String
  phase : Phase := .unvalidated
  attached : Bool := false
deriving DecidableEq, Repr

namespace Monitor

def validate (m : Monitor) : Except ConfigError Monitor :=
  (m.phase.move m.name .unvalidated .validated).map fun phase => { m with phase }

def init (m : Monitor) : Except ConfigError Monitor :=
  (m.phase.move m.name .validated .initialized).map fun phase => { m with phase }

/-- Gives the document to the client, whose `HEAD` asks for its headers only.  Every report can be
written as a document, so there is no answer for one that cannot. -/
def respond (m : Monitor) (workers : List WorkerStatus) : Serving Nat := do
  let body := Text.utf8 (WorkerStatus.report (if m.attached then workers else [])).pretty
  Job.writeHeaders 200 "OK" [
    ("Content-Type", "application/json"),
    ("Content-Length", toString body.length)]
  if !Text.sameIgnoringCase (← get).tx.request.method "HEAD" then Job.writeBody body
  return 200

def status (m : Monitor) : WorkerStatus := .plain m.name .status m.phase

end Monitor

end AjpGateway
