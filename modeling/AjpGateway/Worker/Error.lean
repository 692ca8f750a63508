import AjpGateway.Net.Failure
import AjpGateway.Packet.Error

/-!
# Errors of service

Why a request was not served.  An error is recoverable if another worker may be asked; an error on
the client's side says nothing about a worker.
-/

namespace AjpGateway

inductive ServiceError where
  | transport (worker : String) (e : NetFailure) (recoverable : Bool)
  | packet (worker : String) (e : PacketError)
  | client (f : Fault)
  | noEndpoint (worker : String)
  | unavailable (worker : String)
  | unknownWorker (worker : String)
  | destroyed (worker : String)
  | unmapped (uri : String)
deriving DecidableEq, Repr

namespace ServiceError

def recoverable : ServiceError → Bool
  | transport _ _ r => r
  | noEndpoint _ | unavailable _ | destroyed _ => true
  | packet .. | client _ | unknownWorker _ | unmapped _ => false

def isClient : ServiceError → Bool
  | client _ => true
  | _ => false

/-- The status given to the client. -/
def status : ServiceError → Nat
  | unmapped _ => 404
  | client _ => 400
  | _ => 500

def message : ServiceError → String
  | transport worker e _ => "worker " ++ worker ++ ": " ++ e.message
  | packet worker e => "worker " ++ worker ++ ": protocol error: " ++ e.message
  | client f => "client connection failed: " ++ f.message
  | noEndpoint worker => "worker " ++ worker ++ " has no endpoint available (not initialized)"
  | unavailable worker => "no usable member in " ++ worker
  | unknownWorker worker => "unknown worker " ++ worker
  | destroyed worker => "worker " ++ worker ++ " has been destroyed"
  | unmapped uri => "no worker mapped for " ++ uri

end ServiceError

/-- The status of a response, or why there is none. -/
abbrev Outcome := Except ServiceError Nat

end AjpGateway
