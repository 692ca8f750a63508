import AjpGateway.Client.Channel
import AjpGateway.Client.Request
import AjpGateway.Packet.Code
import AjpGateway.Worker.Error
import AjpGateway.Worker.World

/-!
# Transactions

A transaction is one request while it is served.  The first piece of its body is read from the
client once and kept, so that every attempt can send it again.  Once a part of the response was
given to the client, or a container demanded more of the body, no further attempt is possible.
-/

namespace AjpGateway

structure Transaction where
  request : ClientRequest
  channel : Channel
  /-- the route of the member that a balancer chose -/
  route : Option String := none
  first : Option Bytes := none
  /-- bytes of the declared body not yet read -/
  remaining : Nat
  /-- a part of the response was given to the client -/
  started : Bool := false
  /-- a container demanded more of the body -/
  streamed : Bool := false

/-- A transaction and the world it runs in. -/
structure Job where
  tx : Transaction
  world : World

/-- Work on a job that may fail; the job stays as the failed step left it. -/
abbrev Serving := ExceptT ServiceError (StateM Job)

namespace Transaction

/-- The most bytes kept for further attempts. -/
def keptSize : Nat := Packet.bodyRoom Packet.defaultSize

def begin (request : ClientRequest) (channel : Channel) : Transaction where
  request
  channel
  remaining := request.contentLength?.getD 0

/-- Whether an attempt may still follow this one. -/
def uncommitted (t : Transaction) : Bool := !t.started && !t.streamed

end Transaction

namespace Job

/-- Reads up to `most` bytes of the declared body.  The history shows a read that fails midway with
the bytes that came before. -/
def pull (demanded : Bool) (most : Nat) : Serving Bytes := fun j =>
  match j.tx.channel.fill (min j.tx.remaining most) with
  | (.error f, channel) =>
    (.error (.client f), {
      tx := { j.tx with channel }
      world := j.world.note (.read demanded (channel.readSince j.tx.channel)) })
  | (.ok bytes, channel) =>
    (.ok bytes, {
      tx := { j.tx with channel, remaining := j.tx.remaining - bytes.length }
      world := j.world.note (.read demanded bytes) })

/-- The first piece of the body, read on first use. -/
def firstPiece : Serving Bytes := do
  match (← get).tx.first with
  | some bytes => return bytes
  | none =>
    let bytes ← pull false Transaction.keptSize
    modify fun j => { j with tx.first := some bytes }
    return bytes

/-- The next piece of the body, for a container that demands it. -/
def nextPiece (most : Nat) : Serving Bytes := do
  modify fun j => { j with tx.streamed := true }
  pull true most

/-- Gives the status and headers to the client. -/
def writeHeaders (status : Nat) (reason : String) (headers : List (String × String)) :
    Serving Unit := fun j =>
  let (r, channel) := j.tx.channel.writeHeaders status reason headers
  (r.mapError .client, {
    tx := { j.tx with channel, started := true }
    world := j.world.note (.headersWritten status reason headers) })

/-- Gives a piece of the response to the client. -/
def writeBody (data : Bytes) : Serving Unit := fun j =>
  let (r, channel) := j.tx.channel.writeBody data
  (r.mapError .client, {
    tx := { j.tx with channel, started := true }
    world := j.world.note (.bodyWritten data) })

/-- Reads the clock. -/
def now (j : Job) : Moment × Job :=
  let (t, world) := j.world.now
  (t, { j with world })

def count (j : Job) (m : Metric) : Job := { j with world := j.world.count m }

end Job

end AjpGateway
