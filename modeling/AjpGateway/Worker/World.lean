import AjpGateway.Metrics
import AjpGateway.Net.Network

/-!
# The world of a request

What serving a request acts on beside the worker: the clock, the network and the counters.  How much
time passes between two readings of the clock is up to the world.  The history holds every step that
a peer or the client can see, the latest first.
-/

namespace AjpGateway

/-- What a packet to a container holds. -/
inductive Sending where
  | forward
  | body
  | probe
deriving DecidableEq, Repr

/-- A step that a peer or the client can see. -/
inductive Event where
  | opened (connection : Nat) (peer : Address)
  /-- bytes taken by a connection, out of a packet -/
  | sent (connection : Nat) (what : Sending) (bytes : Bytes)
  | received (connection : Nat) (count : Nat)
  /-- bytes of the request's body read from the client, on a container's demand or not; where the
  client broke off, those that came -/
  | read (demanded : Bool) (bytes : Bytes)
  | headersWritten (status : Nat) (reason : String) (headers : List (String × String))
  | bodyWritten (bytes : Bytes)
deriving DecidableEq, Repr

structure World where
  clock : Moment := 0
  /-- how much later each reading of the clock is than the one before; one where there is none -/
  delays : List Duration := []
  network : Network := {}
  counters : Counters := {}
  history : List Event := []

namespace World

/-- Reads the clock, which has moved on since the reading before. -/
def now (w : World) : Moment × World :=
  let clock := w.clock + w.delays.headD 1
  (clock, { w with clock, delays := w.delays.tail })

def note (w : World) (e : Event) : World := { w with history := e :: w.history }

def count (w : World) (m : Metric) : World := { w with counters := w.counters.record m }

/-- Opens a connection. -/
def connect (w : World) (peer : Address) (options : SocketOptions) :
    Except NetFailure Connection × World :=
  match w.network.connect peer options with
  | (.error e, network) => (.error e, { w with network })
  | (.ok c, network) => (.ok c, { w with network }.note (.opened c.id peer))

end World

end AjpGateway
