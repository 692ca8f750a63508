import AjpGateway.Config.Loading
import AjpGateway.Worker.Registry

/-!
# The gateway

A live table that says which worker a URI goes to, and the registry of the workers.  A request
goes to the worker of its URI.  New settings are checked as a whole before any of them is applied.
-/

namespace AjpGateway

structure Gateway where
  table : LiveTable
  registry : Registry Target
  /-- whether the workers were destroyed for good -/
  shutDown : Bool := false

/-- The status that the client gets. -/
def Outcome.status : Outcome → Nat
  | .ok status => status
  | .error e => e.status

namespace Gateway

/-! ## Building -/

/-- The gateway of a configuration without problems. -/
def ofProperties (hosts : Hosts) (p : Properties) : Except ConfigError Gateway := do
  Config.validate p
  let registry ← Registry.ofProperties hosts p
  let table ← (LiveTable.new p.mounts).mapError .rule
  return { table, registry }

/-- The gateway of a file. -/
def load (hosts : Hosts) (env : Environment) (file : File) : Except ConfigError Gateway := do
  ofProperties hosts (← Config.read env file)

/-! ## Requests -/

/-- Finds the way of a URI, and counts a disguise that led there. -/
def resolve (g : Gateway) (uri : String) (c : Counters) : Option Resolution × Counters :=
  let found := g.table.resolve uri
  (found, c.recordResolution found)

/-- Serves a job by the worker of its URI. -/
def serve (g : Gateway) (job : Job) : Outcome × Gateway × Job :=
  let uri := job.tx.request.uri
  let (found, counters) := g.resolve uri job.world.counters
  let job := { job with world.counters := counters }
  match found with
  | none => (.error (.unmapped uri), g, job)
  | some r =>
    match g.registry.serve? r.worker job with
    | none => (.error (.unknownWorker r.worker), g, job)
    | some (outcome, registry, job) =>
      (outcome, { g with registry }, job.count (.request r.worker (Outcome.status outcome)))

/-! ## Changes -/

/-- Accepts mounts whose workers are registered. -/
def checkMounts (g : Gateway) (mounts : List Mount) : Except ConfigError Unit :=
  Config.checkMounts g.registry.contains mounts

/-- Takes over other mounts. -/
def reload (g : Gateway) (mounts : List Mount) : Except ConfigError Gateway := do
  g.checkMounts mounts
  let table ← (g.table.reload mounts).mapError .rule
  return { g with table }

/-- Whether a changed configuration would be accepted. -/
def checkRefresh (g : Gateway) (p : Properties) : Except ConfigError Unit := do
  Config.validate p
  g.checkMounts p.mounts
  let _ ← (RuleTable.build p.mounts 0).mapError .rule
  g.registry.checkRefresh p

/-- Takes over a changed configuration.  The workers stay the same. -/
def refresh (g : Gateway) (p : Properties) : Except ConfigError Unit × Gateway :=
  match g.checkRefresh p with
  | .error e => (.error e, g)
  | .ok () =>
    match g.registry.refresh p with
    | (.error e, registry) => (.error e, { g with registry })
    | (.ok (), registry) =>
      match g.table.reload p.mounts with
      | .error e => (.error (.rule e), { g with registry })
      | .ok table => (.ok (), { g with registry, table })

/-- Destroys the workers, once. -/
def shutdown (g : Gateway) : Gateway :=
  if g.shutDown then g else { g with registry := g.registry.destroy, shutDown := true }

def statuses (g : Gateway) (now : Moment) : List WorkerStatus := g.registry.statuses now

/-- The gateway in one line. -/
def summary (g : Gateway) : String :=
  "ConnectorContext \x7b uri_map: " ++ g.table.summary ++ ", workers: [" ++
    ", ".intercalate (g.registry.names.map Text.quoted) ++ "], shut_down: " ++
    toString g.shutDown ++ " \x7d"

end Gateway

end AjpGateway
