import AjpGateway.Config.Problem
import AjpGateway.Config.Settings

/-!
# Validation

Checks a configuration as a whole and finds every problem: workers without proper settings,
balancers whose members are undefined, share a route or lead back to themselves, and mounts that
are no rules or name a worker that is not listed.
-/

namespace AjpGateway.Validation

open Properties

/-- The problems of a container's settings. -/
def backendProblems (p : Properties) (name : String) : List Problem :=
  match BackendSettings.read p name with
  | .error e => [.inWorker name (.setting e)]
  | .ok s =>
    (if (Text.trim s.host.toList).isEmpty then [.inWorker name .emptyHost] else []) ++
      (if s.port = 0 then [.inWorker name .zeroPort] else [])

/-- Whether a worker is declared to be a balancer. -/
def isBalancer (p : Properties) (name : String) : Bool :=
  match WorkerKind.read p name with
  | .ok .lb => true
  | _ => false

/-- The first worker met twice on a walk from `name` down through balancers, below the workers of
`path`.  A step adds a balancer to the path, so at most as many steps are taken as balancers have
entries. -/
def repeated? (p : Properties) : Nat → List String → String → Option String
  | steps, path, name =>
    if name ∈ path then some name
    else if isBalancer p name then
      match steps with
      | 0 => none
      | n + 1 => (BalancerSettings.memberNames p name).findSome? (repeated? p n (name :: path))
    else none

/-- The cycle that a member leads a balancer into. -/
def cycle? (p : Properties) (balancer member : String) : Option String :=
  repeated? p (p.entries.length + 1) [balancer] member

/-- The problems of a defined member as a worker. -/
def memberWorkerProblems (p : Properties) (balancer member : String) : List Problem :=
  match WorkerKind.read p member with
  | .error e => [.inWorker member (.setting e)]
  | .ok .ajp13 => backendProblems p member
  | .ok .status => [.inWorker member .balancedStatus]
  | .ok .lb =>
    match cycle? p balancer member with
    | some found => [.cycle balancer found]
    | none => []

/-- The problems of a balancer's members in turn; `routes` maps the routes of the members before
to the last that has it. -/
def memberProblems (p : Properties) (balancer : String) :
    List (String × String) → List String → List Problem
  | _, [] => []
  | routes, member :: rest =>
    if p.defines member then
      memberWorkerProblems p balancer member ++
        match MemberSettings.read p member with
        | .error e => .inWorker member (.setting e) :: memberProblems p balancer routes rest
        | .ok s =>
          (match routes.lookup s.route with
            | some first => [.duplicateRoute balancer s.route first member]
            | none => []) ++
            memberProblems p balancer ((s.route, member) :: routes) rest
    else .undefinedMember balancer member :: memberProblems p balancer routes rest

def balancerProblems (p : Properties) (name : String) : List Problem :=
  match BalancerSettings.read p name with
  | .error e => [.inWorker name (.setting e)]
  | .ok _ => memberProblems p name [] (BalancerSettings.memberNames p name)

def workerProblems (p : Properties) (name : String) : List Problem :=
  match WorkerKind.read p name with
  | .error e => [.inWorker name (.setting e)]
  | .ok .ajp13 => backendProblems p name
  | .ok .status => []
  | .ok .lb => balancerProblems p name

/-- The problem of a mount, whose worker has to be listed. -/
def mountProblems (workers : List String) (m : Mount) : List Problem :=
  match Rule.readMount m.pattern m.worker with
  | .error e => [.inMount m.pattern e]
  | .ok _ =>
    if workers.contains (Text.trimmed m.worker) then [] else [.unlistedWorker m.pattern m.worker]

/-- Every problem, in the order of the workers and then of the mounts. -/
def problems (p : Properties) : List Problem :=
  (if p.workers.isEmpty then [.noWorkers] else []) ++
    p.workers.flatMap (workerProblems p) ++ p.mounts.flatMap (mountProblems p.workers)

end AjpGateway.Validation
