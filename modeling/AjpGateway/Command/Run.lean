import AjpGateway.Command.Arguments
import AjpGateway.Gateway

/-!
# Running commands

Runs a command on the files and the network it is given.  A result is a JSON document with its
keys in order; a failure is a line of its own.  The exit code is 0 for success, 1 where the answer
is negative or there is none, 2 for a command line that cannot be understood, and 101 where memory
gave out.
-/

namespace AjpGateway.Command

/-- What a run leaves: its exit code, its output and its complaints, a line each. -/
structure Printout where
  code : Nat := 0
  out : String := ""
  errors : List String := []
deriving DecidableEq, Repr

/-- What a command finds when it runs. -/
structure Surroundings where
  file : String → File
  env : Environment := fun _ => none
  hosts : Hosts := .loopback
  world : World := {}

/-- A document, as the answer. -/
def Printout.document (v : Json) (good : Bool) : Printout where
  code := if good then 0 else 1
  out := v.sorted.pretty ++ "\n"

def Printout.failure (message : String) : Printout where
  code := 1
  errors := ["Error: " ++ message]

/-- The printout of a configuration that is refused. -/
def Printout.refusal : ConfigError → Printout
  | .noRoom => { code := 101, errors := [ConfigError.noRoom.message] }
  | e => .failure e.message

def ruleSummary (r : Rule) : Json := .obj [
  ("pattern", .str r.pattern),
  ("kind", .str r.shape.name),
  ("worker", .str r.worker),
  ("exclusion", .bool r.excludes),
  ("disabled", .bool r.disabled)]

def routeSummary (uri : String) : Option Resolution → Json
  | none => .obj [("uri", .str uri), ("worker", .null)]
  | some r => .obj [
      ("uri", .str uri),
      ("worker", .str r.worker),
      ("kind", .str r.shape.name),
      ("context_len", .nat r.contextSize),
      ("fraud", .bool r.fraud)]

def responseSummary (status : Nat) (c : Channel) : Json := .obj [
  ("status", .nat status),
  ("reason", .ofStr? c.reason?),
  ("headers", .arr (c.headers.map fun h => .arr [.str h.1, .str h.2])),
  ("body", .str (Text.lossy c.response))]

/-! ## Commands -/

namespace Surroundings

def check (s : Surroundings) (config : String) : Printout :=
  match Config.read s.env (s.file config) with
  | .error e => .refusal e
  | .ok p =>
    match Validation.problems p with
    | q :: rest =>
      let messages := (q :: rest).map Problem.message
      { Printout.document (.obj [
          ("valid", .bool false),
          ("errors", .arr (messages.map .str))]) false with errors := messages.map ("  " ++ ·) }
    | [] =>
      match Gateway.ofProperties s.hosts p with
      | .error e => .refusal e
      | .ok g => .document (.obj [
          ("valid", .bool true),
          ("workers", .arr ((g.statuses s.world.clock).map WorkerStatus.toJson)),
          ("mounts", .arr (g.table.table.all.map ruleSummary))]) true

def route (s : Surroundings) (config uri : String) : Printout :=
  match Gateway.load s.hosts s.env (s.file config) with
  | .error e => .refusal e
  | .ok g =>
    let found := g.table.resolve uri
    .document (routeSummary uri found) found.isSome

/-- A header written `name:value`. -/
def readHeader (header : String) : Except String (String × String) :=
  match Text.cutAt? ':' header.toList with
  | some (name, value) =>
    .ok (String.ofList (Text.trim name), String.ofList (Text.trim value))
  | none => .error ("header " ++ Text.quoted header ++ " is not name:value")

/-- The request that the options describe.  A body without a length that can be read gets one. -/
def requestOf (uri : String) (o : ForwardOptions) : Except String ClientRequest := do
  let headers ← o.headers.mapM readHeader
  let r : ClientRequest := { method := o.method, uri, headers, query := o.query }
  if o.body = "" ∨ r.contentLength?.isSome then return r
  return { r with headers := headers ++ [("Content-Length", toString o.body.utf8ByteSize)] }

def forward (s : Surroundings) (config uri : String) (o : ForwardOptions) : Printout × World :=
  match Gateway.load s.hosts s.env (s.file config) with
  | .error e => (.refusal e, s.world)
  | .ok g =>
    match requestOf uri o with
    | .error message => (.failure message, s.world)
    | .ok request =>
      let tx := Transaction.begin request { unread := Text.utf8 o.body }
      let (outcome, _, job) := g.serve { tx, world := s.world }
      let status := Outcome.status outcome
      (.document (responseSummary status job.tx.channel) (200 ≤ status && status < 400), job.world)

def status (s : Surroundings) (config : String) : Printout :=
  match Gateway.load s.hosts s.env (s.file config) with
  | .error e => .refusal e
  | .ok g => .document (WorkerStatus.report (g.statuses s.world.clock)) true

end Surroundings

/-- The commands, a line each. -/
def usage : List String := [
  "check CONFIG",
  "route CONFIG URI",
  "forward CONFIG URI [-X METHOD] [-H NAME:VALUE]... [-d BODY] [-q QUERY]",
  "status CONFIG"]

/-- Runs a command: what it leaves, and the world after it. -/
def run (s : Surroundings) : Command → Printout × World
  | check config => (s.check config, s.world)
  | route config uri => (s.route config uri, s.world)
  | forward config uri o => s.forward config uri o
  | status config => (s.status config, s.world)
  | help => ({ out := "\n".intercalate usage ++ "\n" }, s.world)

/-- Runs a command line. -/
def runLine (s : Surroundings) (args : List String) : Printout × World :=
  match parse args with
  | .error e => ({ code := 2, errors := ("error: " ++ e.message) :: usage }, s.world)
  | .ok command => command.run s

end AjpGateway.Command
