import AjpGateway.Routing.Rule

/-!
# Problems

What validation finds.  A problem names the worker, balancer or mount it lies with.
-/

namespace AjpGateway

/-- What is wrong with one worker. -/
inductive WorkerFault where
  | setting (e : SettingError)
  | emptyHost
  | zeroPort
  | balancedStatus
deriving DecidableEq, Repr

def WorkerFault.message : WorkerFault → String
  | setting e => e.message
  | emptyHost => "host is empty"
  | zeroPort => "port must be non-zero"
  | balancedStatus => "a status worker cannot be balanced"

inductive Problem where
  | noWorkers
  | inWorker (name : String) (fault : WorkerFault)
  | undefinedMember (balancer member : String)
  | duplicateRoute (balancer route first second : String)
  | cycle (balancer member : String)
  | inMount (pattern : String) (error : RuleError)
  | unlistedWorker (pattern worker : String)
deriving DecidableEq, Repr

def Problem.message : Problem → String
  | noWorkers => "worker.list is missing or empty"
  | inWorker name fault => "worker " ++ name ++ ": " ++ fault.message
  | undefinedMember balancer member =>
    "balancer " ++ balancer ++ ": member " ++ member ++ " is not defined"
  | duplicateRoute balancer route first second =>
    "balancer " ++ balancer ++ ": route " ++ Text.quoted route ++ " is used by both " ++ first ++
      " and " ++ second
  | cycle balancer member =>
    "balancer " ++ balancer ++ ": members form a cycle through " ++ member
  | inMount pattern error => "mount " ++ pattern ++ ": " ++ error.message
  | unlistedWorker pattern worker =>
    "mount " ++ pattern ++ " references " ++ worker ++ ", which is not in worker.list"

end AjpGateway
