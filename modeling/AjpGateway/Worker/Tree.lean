import AjpGateway.Balancer.Service
import AjpGateway.Worker.Status

/-!
# Worker trees

A worker is a leaf or a balancer over workers.  Leaves are of any type with the operations of
`Leaf`, so what holds of balancers holds whatever their members do.

A leaf may report on all workers.  It is served with a view: the statuses of all workers, given the
state of its own.
-/

namespace AjpGateway

/-- The operations of a worker that is no balancer. -/
class Leaf (α : Type) where
  /-- what one request holds of the worker -/
  Endpoint : Type
  name : α → String
  kind : α → WorkerKind
  phase : α → Phase
  acquire : α → Job → Except ServiceError Endpoint × α × Job
  /-- serves the job and hands the endpoint back -/
  serveOn : (α → List WorkerStatus) → Endpoint → α → Job → Outcome × α × Job
  checkRefresh : Properties → α → Except ConfigError Unit
  refresh : Properties → α → Except ConfigError Unit × α
  destroy : α → α
  attach : α → α
  status : α → WorkerStatus

/-- Serves a job by an endpoint of its own. -/
def Leaf.serve {α : Type} [Leaf α] (view : α → List WorkerStatus) (a : α) (job : Job) :
    Outcome × α × Job :=
  match Leaf.acquire a job with
  | (.error e, a, job) => (.error e, a, job)
  | (.ok endpoint, a, job) => Leaf.serveOn view endpoint a job

inductive Worker (α : Type) where
  | leaf (a : α)
  | balancer (b : Balancer Float) (members : List (Worker α))

namespace Worker

variable {α : Type} [Leaf α]

def name : Worker α → String
  | leaf a => Leaf.name a
  | balancer b _ => b.name

def kind : Worker α → WorkerKind
  | leaf a => Leaf.kind a
  | balancer .. => .lb

def phase : Worker α → Phase
  | leaf a => Leaf.phase a
  | balancer b _ => b.phase

/-! ## Service -/

/-- Serves a job in view of all workers. -/
abbrev Server (α : Type) := (Worker α → List WorkerStatus) → Job → Outcome × Worker α × Job

/-- Serves a job by the members' servers.  A member is asked at most once, so each server stands
for its worker as it was before. -/
def serveMembers (servers : List (Server α)) (b : Balancer Float) (members : List (Worker α)) :
    Server α := fun view job =>
  match b.phase.ready b.name with
  | .error e => (.error e, .balancer b members, job)
  | .ok () =>
    let ask (i : Nat) (s : Bench Float (Worker α)) : Outcome × Bench Float (Worker α) :=
      match servers[i]? with
      | none => (.error (.noEndpoint s.balancer.name), s)
      | some server =>
        let (r, w, job) := server (fun w => view (.balancer s.balancer (s.workers.set i w))) s.job
        (r, { s with workers := s.workers.set i w, job })
    let (r, s) := Bench.serve ask { balancer := b, workers := members, job }
    (r, .balancer s.balancer s.workers, s.job)

mutual

def serve : Worker α → Server α
  | leaf a => fun view job =>
    let (r, a, job) := Leaf.serve (fun a => view (.leaf a)) a job
    (r, .leaf a, job)
  | balancer b members => serveMembers (servers members) b members

def servers : List (Worker α) → List (Server α)
  | [] => []
  | w :: rest => w.serve :: servers rest

end

/-- What one request holds of a worker. -/
inductive Endpoint (α : Type) [Leaf α] where
  | leaf (e : Leaf.Endpoint α)
  | balancer

def acquire (w : Worker α) (job : Job) : Except ServiceError (Endpoint α) × Worker α × Job :=
  match w with
  | leaf a =>
    let (r, a, job) := Leaf.acquire a job
    (r.map .leaf, .leaf a, job)
  | balancer b members => ((b.phase.ready b.name).map fun _ => .balancer, .balancer b members, job)

/-- Serves a job by an endpoint that was acquired before. -/
def serveOn (e : Endpoint α) (w : Worker α) : Server α := fun view job =>
  match e, w with
  | .leaf e, leaf a =>
    let (r, a, job) := Leaf.serveOn (fun a => view (.leaf a)) e a job
    (r, .leaf a, job)
  | .balancer, balancer b members => serve (.balancer b members) view job
  | _, w => (.error (.noEndpoint w.name), w, job)

/-! ## Settings -/

mutual

/-- Whether a refresh would be accepted. -/
def checkRefresh (p : Properties) : Worker α → Except ConfigError Unit
  | leaf a => Leaf.checkRefresh p a
  | balancer b members =>
    match b.readSettings (members.map name) p with
    | .error e => .error e
    | .ok _ => checkRefreshAll p members

def checkRefreshAll (p : Properties) : List (Worker α) → Except ConfigError Unit
  | [] => .ok ()
  | w :: rest =>
    match w.checkRefresh p with
    | .error e => .error e
    | .ok () => checkRefreshAll p rest

end

mutual

/-- Takes over new settings.  A balancer checks all that lies behind it before anything changes. -/
def refresh (p : Properties) : Worker α → Except ConfigError Unit × Worker α
  | leaf a =>
    let (r, a) := Leaf.refresh p a
    (r, .leaf a)
  | balancer b members =>
    match b.readSettings (members.map name) p with
    | .error e => (.error e, .balancer b members)
    | .ok (settings, updated) =>
      match checkRefreshAll p members with
      | .error e => (.error e, .balancer b members)
      | .ok () =>
        match refreshAll p members with
        | (.error e, members) => (.error e, .balancer b members)
        | (.ok (), members) => (.ok (), .balancer (b.apply settings updated) members)

/-- Refreshes workers in turn, up to the first that refuses. -/
def refreshAll (p : Properties) : List (Worker α) → Except ConfigError Unit × List (Worker α)
  | [] => (.ok (), [])
  | w :: rest =>
    match w.refresh p with
    | (.error e, w) => (.error e, w :: rest)
    | (.ok (), w) =>
      let (r, rest) := refreshAll p rest
      (r, w :: rest)

end

/-! ## The rest of a worker's life -/

mutual

/-- Destroys a worker and all that lies behind it. -/
def destroy : Worker α → Worker α
  | leaf a => .leaf (Leaf.destroy a)
  | balancer b members => .balancer { b with phase := .destroyed } (destroyAll members)

def destroyAll : List (Worker α) → List (Worker α)
  | [] => []
  | w :: rest => w.destroy :: destroyAll rest

end

mutual

/-- Lets the leaves know of all workers. -/
def attach : Worker α → Worker α
  | leaf a => .leaf (Leaf.attach a)
  | balancer b members => .balancer b (attachAll members)

def attachAll : List (Worker α) → List (Worker α)
  | [] => []
  | w :: rest => w.attach :: attachAll rest

end

mutual

def status (now : Moment) : Worker α → WorkerStatus
  | leaf a => Leaf.status a
  | balancer b members =>
    .balancer b.name b.phase b.settings (memberStatuses now b.members members)

/-- The records of members with the statuses of their workers. -/
def memberStatuses (now : Moment) :
    List (Member Float) → List (Worker α) → List (Member Float × Option Nat × WorkerStatus)
  | m :: ms, w :: ws =>
    (m, m.errorTime?.map fun t => (elapsed now t).toSeconds, w.status now) ::
      memberStatuses now ms ws
  | _, _ => []

end

end Worker

end AjpGateway
