import AjpGateway.Clock
import AjpGateway.Net.Stream

/-!
# Networks

A network answers each attempt to connect.  A listener accepts connections in turn, each with the
stream that the peer plays; whoever does not listen gives the network's fault.
-/

namespace AjpGateway

/-- What is set on a socket when it is opened. -/
structure SocketOptions where
  noDelay : Bool := true
  keepAlive : Bool := false
  connectLimit? : Option Duration := none
  socketLimit? : Option Duration := none
deriving DecidableEq, Repr

/-- How an attempt to connect ends. -/
inductive Answer where
  | accepted (stream : Stream)
  | fault (f : Fault)
deriving DecidableEq, Repr

structure Listener where
  address : Address
  /-- the answers to the next attempts -/
  pending : List Answer := []
  /-- the answer to every attempt after them -/
  later : Answer
deriving DecidableEq, Repr

structure Network where
  listeners : List Listener := []
  /-- what an attempt meets where nobody listens -/
  elsewhere : Fault := .refused
  /-- the number of connections opened so far -/
  opened : Nat := 0
deriving DecidableEq, Repr

/-- An open connection.  Connections are numbered in the order in which they are opened. -/
structure Connection where
  id : Nat
  peer : Address
  options : SocketOptions
  stream : Stream
deriving DecidableEq, Repr

namespace Network

/-- The failure of an attempt; waiting too long is a timeout. -/
def connectFailure (peer : Address) (f : Fault) : NetFailure :=
  match f.kind with
  | .wouldBlock | .timedOut => .timeout .connect 0
  | _ => .unconnected peer f

/-- The answer to an attempt, and the listeners after it. -/
def answer (peer : Address) (elsewhere : Fault) : List Listener → Answer × List Listener
  | [] => (.fault elsewhere, [])
  | l :: rest =>
    if l.address = peer then
      match l.pending with
      | [] => (l.later, l :: rest)
      | a :: pending => (a, { l with pending } :: rest)
    else
      let (a, rest) := answer peer elsewhere rest
      (a, l :: rest)

/-- Opens a connection. -/
def connect (n : Network) (peer : Address) (options : SocketOptions) :
    Except NetFailure Connection × Network :=
  match answer peer n.elsewhere n.listeners with
  | (.fault f, listeners) => (.error (connectFailure peer f), { n with listeners })
  | (.accepted stream, listeners) =>
    (.ok ⟨n.opened, peer, options, stream⟩, { n with listeners, opened := n.opened + 1 })

end Network

end AjpGateway
