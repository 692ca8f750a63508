import AjpGateway.Net.Stream
import AjpGateway.Packet.Buffer

/-!
# Packets on streams

Receives one packet into a buffer: its header, then the payload that the header announces.  The
count of a failure covers header and payload, so a failure within the payload is never taken for a
peer that closed between two packets.
-/

namespace AjpGateway

inductive FrameError where
  | net (e : NetFailure)
  | packet (e : PacketError)
deriving DecidableEq, Repr

namespace Packet

/-- Receives a packet with the magic word: its payload length or the error, and the buffer, the
stream and the number of bytes received. -/
def receive (s : Stream) (m : Buffer) (magic : UInt16) :
    Except FrameError Nat × Buffer × Stream × Nat :=
  match s.receive headerSize with
  | (.error e, bytes, s) => (.error (.net e), m.overwrite 0 bytes, s, bytes.length)
  | (.ok (), header, s) =>
    match (Buffer.parseHeader magic).run (m.overwrite 0 header) with
    | (.error e, m) => (.error (.packet e), m, s, header.length)
    | (.ok size, m) =>
      match s.receive size with
      | (.error e, bytes, s) =>
        (.error (.net (e.after headerSize)), m.overwrite headerSize bytes, s,
          header.length + bytes.length)
      | (.ok (), bytes, s) =>
        (.ok size, m.overwrite headerSize bytes, s, header.length + bytes.length)

end Packet

end AjpGateway
