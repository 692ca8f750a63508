import AjpGateway.Worker.Backend
import AjpGateway.Worker.Monitor
import AjpGateway.Worker.Tree

/-!
# Targets

The leaves of the gateway's worker trees: backends and monitors.  A worker of any kind is built
out of the first phase: it is validated and then initialized, members before their balancer.
-/

namespace AjpGateway

inductive Target where
  | backend (b : Backend)
  | monitor (m : Monitor)

namespace Target

/-- What one request holds of a target. -/
inductive Hold where
  | line (l : Line)
  | report

def name : Target → String
  | backend b => b.name
  | monitor m => m.name

def phase : Target → Phase
  | backend b => b.phase
  | monitor m => m.phase

def acquire (t : Target) (job : Job) : Except ServiceError Hold × Target × Job :=
  match t with
  | backend b =>
    let (r, b, job) := b.acquire job
    (r.map .line, .backend b, job)
  | monitor m => ((m.phase.ready m.name).map fun _ => .report, .monitor m, job)

def serveOn (view : Target → List WorkerStatus) (h : Hold) (t : Target) (job : Job) :
    Outcome × Target × Job :=
  match h, t with
  | .line l, backend b =>
    let (r, b, job) := b.serveOn l job
    (r, .backend b, job)
  | .report, monitor m =>
    let (r, job) := (m.respond (view (.monitor m))).run job
    (r, .monitor m, job)
  | _, t => (.error (.noEndpoint t.name), t, job)

def refresh (p : Properties) : Target → Except ConfigError Unit × Target
  | backend b =>
    let (r, b) := b.refresh p
    (r, .backend b)
  | monitor m => (.ok (), .monitor m)

instance : Leaf Target where
  Endpoint := Hold
  name := name
  kind
    | backend _ => .ajp13
    | monitor _ => .status
  phase := phase
  acquire := acquire
  serveOn := serveOn
  checkRefresh p
    | backend b => b.checkRefresh p
    | monitor _ => .ok ()
  refresh := refresh
  destroy
    | backend b => .backend b.destroy
    | monitor m => .monitor { m with phase := .destroyed }
  attach
    | backend b => .backend b
    | monitor m => .monitor { m with attached := true }
  status
    | backend b => b.status
    | monitor m => m.status

end Target

namespace Worker

/-- A worker in the first phase. -/
def new (kind : WorkerKind) (name : String) : Worker Target :=
  match kind with
  | .ajp13 => .leaf (.backend { name })
  | .lb => .balancer { name } []
  | .status => .leaf (.monitor { name })

/-- Reads the settings and moves on from the first phase. -/
def validate (hosts : Hosts) (p : Properties) : Worker Target → Except ConfigError (Worker Target)
  | leaf (.backend b) => (b.validate hosts p).map fun b => .leaf (.backend b)
  | leaf (.monitor m) => m.validate.map fun m => .leaf (.monitor m)
  | balancer b members => (b.validate p).map (.balancer · members)

/-- Opens the worker for service. -/
def init : Worker Target → Except ConfigError (Worker Target)
  | leaf (.backend b) => b.init.map fun b => .leaf (.backend b)
  | leaf (.monitor m) => m.init.map fun m => .leaf (.monitor m)
  | balancer b members => b.init.map (.balancer · members)

/-- An open balancer over the members that its settings name; `make` builds their workers. -/
def balance {α : Type} (p : Properties) (name : String)
    (make : String → Except ConfigError (Worker α)) : Except ConfigError (Worker α) := do
  let b ← ({ name : Balancer Float }).validate p
  let members ← b.settings.members.mapM fun member => do
    let settings ← (MemberSettings.read p member).mapError .setting
    let worker ← make member
    return (Member.ofSettings member settings, worker)
  let b ← { b with members := members.map Prod.fst : Balancer Float }.init
  return .balancer b (members.map Prod.snd)

/-- How deep balancers may lie within balancers. -/
def maxDepth : Nat := 8

/-- Builds the worker of a name with all that lies behind it; `room` bounds the levels. -/
def build (hosts : Hosts) (p : Properties) : (room : Nat) → (name : String) →
    Except ConfigError (Worker Target)
  | 0, name => .error (.setting (.invalidValue (Properties.workerKey name "balance_workers")
      ("nesting deeper than " ++ toString maxDepth)))
  | room + 1, name => do
    match ← (WorkerKind.read p name).mapError .setting with
    | .lb => balance p name (build hosts p room)
    | kind => ((new kind name).validate hosts p).bind init

/-- Builds the worker of a name. -/
def create (hosts : Hosts) (p : Properties) (name : String) : Except ConfigError (Worker Target) :=
  build hosts p (maxDepth + 1) name

end Worker

end AjpGateway
