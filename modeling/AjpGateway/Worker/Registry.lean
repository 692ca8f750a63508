import AjpGateway.Worker.Target

/-!
# Registries

The workers that requests may be given to, in the order of their names.  A balancer owns its
members, which are not registered on their own.
-/

namespace AjpGateway

structure Registry (α : Type) where
  /-- names with their workers, by name -/
  entries : List (String × Worker α) := []

namespace Registry

variable {α : Type} [Leaf α]

def names (r : Registry α) : List String := r.entries.map Prod.fst

def find? (r : Registry α) (name : String) : Option (Worker α) := r.entries.lookup name

def contains (r : Registry α) (name : String) : Bool := (r.find? name).isSome

/-- Puts a worker at its place; it replaces the one of its name. -/
def insertEntry (name : String) (w : Worker α) : List (String × Worker α) → List (String × Worker α)
  | [] => [(name, w)]
  | e :: rest =>
    if name = e.1 then (name, w) :: rest
    else if name < e.1 then (name, w) :: e :: rest
    else e :: insertEntry name w rest

def insert (r : Registry α) (w : Worker α) : Registry α := ⟨insertEntry w.name w r.entries⟩

/-- Changes every worker. -/
def map (f : Worker α → Worker α) (r : Registry α) : Registry α :=
  ⟨r.entries.map fun e => (e.1, f e.2)⟩

/-- The statuses of all workers. -/
def statuses (r : Registry α) (now : Moment) : List WorkerStatus :=
  r.entries.map fun e => e.2.status now

/-- Lets every worker know of all. -/
def attach (r : Registry α) : Registry α := r.map Worker.attach

def destroy (r : Registry α) : Registry α := r.map Worker.destroy

/-- Whether every worker would accept new settings. -/
def checkRefresh (r : Registry α) (p : Properties) : Except ConfigError Unit :=
  r.entries.forM fun e => e.2.checkRefresh p

/-- Refreshes workers in turn, up to the first that refuses. -/
def refreshEntries (p : Properties) :
    List (String × Worker α) → Except ConfigError Unit × List (String × Worker α)
  | [] => (.ok (), [])
  | (name, w) :: rest =>
    match w.refresh p with
    | (.error e, w) => (.error e, (name, w) :: rest)
    | (.ok (), w) =>
      let (r, rest) := refreshEntries p rest
      (r, (name, w) :: rest)

def refresh (r : Registry α) (p : Properties) : Except ConfigError Unit × Registry α :=
  let (result, entries) := refreshEntries p r.entries
  (result, ⟨entries⟩)

/-- Serves a job by a worker in view of all, if there is one of the name. -/
def serve? (r : Registry α) (name : String) (job : Job) : Option (Outcome × Registry α × Job) :=
  (r.find? name).map fun w =>
    let view (w : Worker α) := (r.insert w).statuses job.world.clock
    let (outcome, w, job) := w.serve view job
    (outcome, r.insert w, job)

/-- The listed workers of a configuration. -/
def ofProperties (hosts : Hosts) (p : Properties) : Except ConfigError (Registry Target) :=
  (p.workers.foldlM (fun (r : Registry Target) name => (Worker.create hosts p name).map r.insert)
    {}).map attach

end Registry

end AjpGateway
