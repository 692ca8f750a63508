import AjpGateway.Net.Host
import AjpGateway.Packet.Frame
import AjpGateway.Packet.Reply
import AjpGateway.Worker.Pool
import AjpGateway.Worker.Readiness
import AjpGateway.Worker.Status
import AjpGateway.Worker.Transaction

/-!
# Backends

The worker of one container.  A request runs over a line: a connection, kept from an earlier
request or opened now, with a buffer for each direction.  The container answers with packets until
it ends the response, and says whether the connection may be kept.

A kept connection may have gone stale: it is probed before use where probes are set, and if the
exchange on it fails while another attempt is possible, the exchange runs once more on a new one.
-/

namespace AjpGateway

open Packet

/-- What is kept for the next request. -/
structure Line where
  connection? : Option Connection := none
  request : Buffer
  reply : Buffer

/-- The bytes that a kept line takes, apart from its buffers. -/
def Line.size : Nat := 168

def Line.new (packetSize : Nat) : Line := { request := .new packetSize, reply := .new packetSize }

/-- The options of the sockets under some settings. -/
def BackendSettings.socketOptions (s : BackendSettings) : SocketOptions where
  keepAlive := s.keepAlive
  connectLimit? := s.connectLimit?
  socketLimit? := s.socketLimit?

structure Backend where
  name : String
  phase : Phase := .unvalidated
  settings : BackendSettings := {}
  /-- known once validated -/
  address? : Option Address := none
  options : SocketOptions := {}
  /-- there once initialized -/
  pool? : Option (Pool Line) := none
  requests : Nat := 0
  errors : Nat := 0

/-! ## One exchange -/

/-- A connection in use, the buffers and the job. -/
structure Talk where
  connection : Connection
  request : Buffer
  reply : Buffer
  job : Job

abbrev Talking := ExceptT ServiceError (StateM Talk)

namespace Talk

/-- Sends what the request buffer holds. -/
def transmit (t : Talk) (what : Sending) : Except NetFailure Unit × Talk :=
  let (r, taken, stream) := t.connection.stream.send t.request.frame
  (r, { t with
    connection.stream := stream
    job.world := t.job.world.note (.sent t.connection.id what taken) })

/-- Receives a packet into the reply buffer. -/
def collect (t : Talk) : Except FrameError Unit × Talk :=
  let (r, reply, stream, n) := Packet.receive t.connection.stream t.reply fromContainer
  (r.map fun _ => (), { t with
    connection.stream := stream
    reply
    job.world := t.job.world.note (.received t.connection.id n) })

/-- Work on the request buffer. -/
def onRequest {α : Type} (act : Marshal α) (t : Talk) : Except PacketError α × Talk :=
  let (r, request) := act.run t.request
  (r, { t with request })

/-- Reads the packet in the reply buffer. -/
def decoded (t : Talk) : Except PacketError Reply × Talk :=
  let (r, reply) := Reply.decode.run t.reply
  (r, { t with reply })

/-- Work on the job. -/
def onJob {α : Type} (act : Serving α) (t : Talk) : Except ServiceError α × Talk :=
  let (r, job) := act.run t.job
  (r, { t with job })

/-- The bytes that the peer has still to give. -/
def supply (t : Talk) : Nat := t.connection.stream.pending.length

end Talk

namespace Backend

/-- A failure of the network is recoverable while another attempt is possible. -/
def transport (b : Backend) (e : NetFailure) (tx : Transaction) : ServiceError :=
  .transport b.name e (e.recoverable && tx.uncommitted)

/-- A step that meets the network. -/
def netStep {α : Type} (b : Backend) (act : Talk → Except NetFailure α × Talk) : Talking α :=
  fun t =>
    let (r, t) := act t
    (r.mapError fun e => b.transport e t.job.tx, t)

/-- A step on packets. -/
def packetStep {α : Type} (b : Backend) (act : Talk → Except PacketError α × Talk) : Talking α :=
  fun t =>
    let (r, t) := act t
    (r.mapError (.packet b.name), t)

/-- Receives a packet and reads it. -/
def nextReply (b : Backend) : Talking Reply := do
  (fun t =>
    let (r, t) := t.collect
    (r.mapError fun
      | .net e => b.transport e t.job.tx
      | .packet e => .packet b.name e, t) : Talking Unit)
  b.packetStep Talk.decoded

/-- The attributes of a request, the secret and the chosen route among them. -/
def attributes (b : Backend) (tx : Transaction) : List Attribute :=
  let r := tx.request
  let named (name : AttributeName) (value : Option String) : List Attribute :=
    (value.map (.named name)).toList
  let ssl := r.ssl.getD {}
  named .remoteUser r.remoteUser ++ named .authType r.authType ++ named .queryString r.query ++
    named .jvmRoute tx.route ++ named .sslCert ssl.cert ++ named .sslCipher ssl.cipher ++
    named .sslSession ssl.session ++ (ssl.keySize.map .sslKeySize).toList ++
    named .secret b.settings.secret ++ r.attributes.map fun a => .custom a.1 a.2

/-- The request in the form that the container gets. -/
def forwardRequest (b : Backend) (tx : Transaction) : ForwardRequest where
  method := tx.request.method
  protocol := tx.request.protocol
  uri := tx.request.uri
  remoteAddr := tx.request.remoteAddr
  remoteHost := tx.request.remoteHost
  serverName := tx.request.serverName
  serverPort := tx.request.serverPort
  isSsl := tx.request.isSsl
  headers := tx.request.headers
  attributes := b.attributes tx

/-- Sends a piece of the request's body. -/
def sendBody (b : Backend) (data : Bytes) : Talking Unit := do
  b.packetStep (Talk.onRequest (encodeBody data))
  b.netStep (·.transmit .body)

/-- Answers the container's packets until the response ends.  Each packet takes a byte of the
peer's supply at least: `fuel` bytes hold no more than `fuel` packets, and the supply is enough. -/
def relay (b : Backend) (fuel : Nat) (status? : Option Nat) : Talking (Nat × Bool) := do
  match ← b.nextReply with
  | .sendHeaders status reason headers =>
    Talk.onJob (Job.writeHeaders status.toNat (reason.getD "") headers)
    next fuel (some status.toNat)
  | .sendBody data =>
    Talk.onJob (Job.writeBody data)
    next fuel status?
  | .getBody requested =>
    let room := min requested.toNat (bodyRoom (← get).request.capacity)
    let data ← Talk.onJob (Job.nextPiece room)
    b.sendBody data
    next fuel status?
  | .endResponse reuse =>
    match status? with
    | some status => return (status, reuse)
    | none => throw (.packet b.name (.unexpectedMessage MessageType.endResponse.code))
  | .pong => throw (.packet b.name (.unexpectedMessage MessageType.pong.code))
where
  next (fuel : Nat) (status? : Option Nat) : Talking (Nat × Bool) :=
    match fuel with
    | 0 => throw (.packet b.name (.unexpectedMessage 0))
    | n + 1 => relay b n status?

/-- Sends the request and the first piece of its body, then relays the response. -/
def talk (b : Backend) : Talking (Nat × Bool) := do
  let request := b.forwardRequest (← get).job.tx
  b.packetStep (Talk.onRequest request.encode)
  b.netStep (·.transmit .forward)
  let first ← Talk.onJob Job.firstPiece
  if first ≠ [] then b.sendBody first
  b.relay (← get).supply none

/-- Sends a probe and waits for its answer; whether the peer gave it. -/
def answersProbe (t : Talk) : Bool × Talk :=
  match Talk.onRequest encodePing t with
  | (.error _, t) => (false, t)
  | (.ok (), t) =>
    match t.transmit .probe with
    | (.error _, t) => (false, t)
    | (.ok (), t) =>
      match t.collect with
      | (.error _, t) => (false, t)
      | (.ok (), t) =>
        match t.decoded with
        | (.ok .pong, t) => (true, t)
        | (_, t) => (false, t)

/-- Probes a kept connection where probes are set, and drops it without an answer. -/
def probe (b : Backend) (line : Line) (job : Job) : Line × Job :=
  match line.connection?, b.settings.probeLimit? with
  | some connection, some _ =>
    let (alive, t) := answersProbe { connection, request := line.request, reply := line.reply, job }
    ({ connection? := if alive then some t.connection else none, request := t.request,
       reply := t.reply }, t.job)
  | _, _ => (line, job)

/-- The line's connection, opened now if there is none. -/
def connected (b : Backend) (line : Line) (job : Job) : Except ServiceError Connection × Job :=
  match line.connection? with
  | some connection => (.ok connection, job)
  | none =>
    match b.address? with
    | none => (.error (.noEndpoint b.name), job)
    | some address =>
      let (r, world) := job.world.connect address b.options
      (r.mapError fun e => b.transport e job.tx, { job with world })

/-- Runs one exchange over a line: the status and whether the connection may be kept. -/
def exchange (b : Backend) (line : Line) (job : Job) :
    Except ServiceError (Nat × Bool) × Line × Job :=
  let (line, job) := b.probe line job
  match b.connected line job with
  | (.error e, job) => (.error e, line, job)
  | (.ok connection, job) =>
    let (r, t) := b.talk.run { connection, request := line.request, reply := line.reply, job }
    (r, { connection? := some t.connection, request := t.request, reply := t.reply }, t.job)

/-! ## Requests -/

/-- Whether an error leaves another attempt open. -/
def mayRetry : ServiceError → Bool
  | .transport _ _ recoverable => recoverable
  | _ => false

/-- Runs the exchange, and once more on a new connection where a kept one failed. -/
def exchangeTwice (b : Backend) (line : Line) (job : Job) :
    Except ServiceError (Nat × Bool) × Line × Job :=
  let kept := line.connection?.isSome
  match b.exchange line job with
  | (.error e, line, job) =>
    if kept && mayRetry e then b.exchange { line with connection? := none } job
    else (.error e, line, job)
  | r => r

/-- Serves the job over a line: the outcome, and the line if it is to be kept. -/
def serve (b : Backend) (line : Line) (job : Job) : Outcome × Option Line × Backend × Job :=
  match b.phase.ready b.name with
  | .error e => (.error e, none, b, job)
  | .ok () =>
    let b := { b with requests := b.requests + 1 }
    match b.exchangeTwice line job with
    | (.ok (status, reuse), line, job) => (.ok status, if reuse then some line else none, b, job)
    | (.error e, _, job) =>
      if e.isClient then (.error e, none, b, job)
      else
        (.error e, none, { b with errors := b.errors + 1 },
          job.count (.workerError b.name e.recoverable))

/-- A line for the next request: the one kept last, or a new one. -/
def acquire (b : Backend) (job : Job) : Except ServiceError Line × Backend × Job :=
  match b.phase.ready b.name, b.pool? with
  | .error e, _ => (.error e, b, job)
  | .ok (), none => (.error (.noEndpoint b.name), b, job)
  | .ok (), some pool =>
    let (now, job) := job.now
    let (line?, pool) := pool.take now
    (.ok (line?.getD (.new b.settings.packetSize)), { b with pool? := some pool }, job)

/-- Keeps a line, if the worker still hands out endpoints and there is room. -/
def keep (b : Backend) (line : Line) (job : Job) : Backend × Job :=
  if b.phase = .initialized ∧ line.connection?.isSome then
    match b.pool? with
    | none => (b, job)
    | some pool =>
      let (now, job) := job.now
      ({ b with pool? := some (pool.put line now).2 }, job)
  else (b, job)

/-- Serves the job over a line and keeps or drops the line. -/
def serveOn (b : Backend) (line : Line) (job : Job) : Outcome × Backend × Job :=
  match b.serve line job with
  | (r, none, b, job) => (r, b, job)
  | (r, some line, b, job) =>
    let (b, job) := b.keep line job
    (r, b, job)

/-! ## Phases and settings -/

/-- Reads the settings, finds the address and moves on from the first phase. -/
def validate (b : Backend) (hosts : Hosts) (p : Properties) : Except ConfigError Backend := do
  let settings ← (BackendSettings.read p b.name).mapError .setting
  let address ← (hosts.resolve settings.host settings.port).mapError fun e =>
    .setting (.invalidValue (Properties.workerKey b.name "host")
      (settings.host ++ ":" ++ toString settings.port ++ " (" ++ e.message ++ ")"))
  let phase ← b.phase.move b.name .unvalidated .validated
  return { b with phase, settings, address? := some address, options := settings.socketOptions }

/-- Opens the worker with an empty pool. -/
def init (b : Backend) : Except ConfigError Backend := do
  let phase ← b.phase.move b.name .validated .initialized
  match Pool.new? Line.size b.settings.cacheSize b.settings.cacheLimit? with
  | some pool => return { b with phase, pool? := some pool }
  | none => throw .noRoom

def destroy (b : Backend) : Backend :=
  { b with phase := .destroyed, pool? := b.pool?.map Pool.clear }

/-- Whether new settings can be read. -/
def checkRefresh (p : Properties) (b : Backend) : Except ConfigError Unit :=
  match BackendSettings.read p b.name with
  | .error e => .error (.setting e)
  | .ok _ => .ok ()

/-- Takes over new settings.  The address and the packet size stay, and connections with other
options than the new ones are dropped. -/
def apply (b : Backend) (s : BackendSettings) : Backend :=
  let settings := { s with
    host := b.settings.host, port := b.settings.port, packetSize := b.settings.packetSize }
  let options := settings.socketOptions
  { b with
    settings
    options
    pool? := b.pool?.map fun pool =>
      let pool := pool.reconfigure settings.cacheSize settings.cacheLimit?
      if options = b.options then pool else pool.clear }

def refresh (p : Properties) (b : Backend) : Except ConfigError Unit × Backend :=
  match BackendSettings.read p b.name with
  | .error e => (.error (.setting e), b)
  | .ok s => (.ok (), b.apply s)

def status (b : Backend) : WorkerStatus :=
  .backend b.name b.phase {
    host := b.settings.host
    port := b.settings.port
    address := b.address?
    cached := (b.pool?.map Pool.size).getD 0
    capacity := (b.pool?.map Pool.capacity).getD b.settings.cacheSize
    requests := b.requests
    errors := b.errors }

end Backend

end AjpGateway
