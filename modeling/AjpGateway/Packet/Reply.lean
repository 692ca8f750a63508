import AjpGateway.Packet.ForwardRequest

/-!
# Replies

What the container sends: the status and headers of a response, pieces of its body, demands for
more of the request's body, the end of the response, and answers to probes.
-/

namespace AjpGateway.Packet

inductive Reply where
  | sendHeaders (status : UInt16) (reason : Option String) (headers : List (String × String))
  | sendBody (data : Bytes)
  | getBody (requested : UInt16)
  | endResponse (reuse : Bool)
  | pong
deriving DecidableEq, Repr

namespace Reply

open Buffer

def messageType : Reply → MessageType
  | sendHeaders .. => .sendHeaders
  | sendBody _ => .sendBodyChunk
  | getBody _ => .getBodyChunk
  | endResponse _ => .endResponse
  | pong => .pong

/-- A header value; an absent one is empty. -/
def readValue : Marshal String := do return (← readText?).getD ""

/-- Reads the reply in a received packet.  A container may leave out whether the connection is
kept, and then it is not. -/
def decode : Marshal Reply := do
  let code ← readByte
  match MessageType.ofCode? code with
  | some .sendHeaders =>
    let status ← readWord
    let reason ← readText?
    let count ← readWord
    return .sendHeaders status reason (← decodeHeaders responseHeaders readValue count.toNat)
  | some .sendBodyChunk =>
    let size ← readWord
    return .sendBody (← take size.toNat)
  | some .getBodyChunk => return .getBody (← readWord)
  | some .endResponse =>
    if 0 < (← get).remaining then return .endResponse ((← readByte) == 1)
    else return .endResponse false
  | some .pong => return .pong
  | _ => throw (.unexpectedMessage code)

/-- What follows the message type.  The number of headers is written modulo `2 ^ 16`, and the data
of a body piece is followed by a NUL. -/
def encodeFields : Reply → Marshal Unit
  | sendHeaders status reason headers => do
    appendWord status
    appendText? reason
    appendWord (UInt16.ofNat headers.length)
    encodeHeaders responseHeaders headers
  | sendBody data => do appendChunk data; appendByte 0
  | getBody requested => appendWord requested
  | endResponse reuse => appendByte (if reuse then 1 else 0)
  | pong => return

/-- Writes the reply in place of what the buffer held. -/
def encode (r : Reply) : Marshal Unit := do
  modify reset
  appendByte r.messageType.code
  r.encodeFields
  modify (finish · fromContainer)

end Reply

end AjpGateway.Packet
