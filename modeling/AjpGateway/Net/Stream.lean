import AjpGateway.Net.Failure
import AjpGateway.Text.Utf8

/-!
# Streams

A stream answers each read and each write with the next result of a script.  Sending goes on until
all bytes are taken and receiving until the room is filled; interruptions are passed over.
-/

namespace AjpGateway

inductive ReadResult where
  /-- at most as many bytes as there is room for; what is left is read next -/
  | data (bytes : Bytes)
  | fault (f : Fault)
deriving DecidableEq, Repr

/-- The bytes that a result holds. -/
def ReadResult.bytes : ReadResult → Bytes
  | data bytes => bytes
  | fault _ => []

inductive WriteResult where
  /-- at most this many bytes are taken -/
  | accepts (n : Nat)
  | fault (f : Fault)
deriving DecidableEq, Repr

structure Stream where
  reads : List ReadResult := []
  writes : List WriteResult := []
  /-- whether writes past the script take everything, rather than nothing -/
  drains : Bool := false
deriving DecidableEq, Repr

namespace Stream

/-- All the bytes that a stream holds, whatever comes between them. -/
def pending (s : Stream) : Bytes := s.reads.flatMap ReadResult.bytes

/-- Sends `rest` after `sent` bytes: the outcome, the bytes taken in all, the script left. -/
def sendLoop (drains : Bool) :
    List WriteResult → (sent : Nat) → (rest : Bytes) → Except NetFailure Unit × Nat × List WriteResult
  | script, sent, [] => (.ok (), sent, script)
  | [], sent, b :: rest =>
    if drains then (.ok (), sent + (b :: rest).length, []) else (.error (.closed .send sent), sent, [])
  | .accepts n :: script, sent, b :: rest =>
    if n = 0 then (.error (.closed .send sent), sent, script)
    else
      let k := min n (b :: rest).length
      sendLoop drains script (sent + k) ((b :: rest).drop k)
  | .fault f :: script, sent, b :: rest =>
    if f.kind = .interrupted then sendLoop drains script sent (b :: rest)
    else (.error (.ofFault .send sent f), sent, script)

/-- Sends all of `data`; also the bytes that were taken. -/
def send (s : Stream) (data : Bytes) : Except NetFailure Unit × Bytes × Stream :=
  let (result, sent, writes) := sendLoop s.drains s.writes 0 data
  (result, data.take sent, { s with writes })

/-- Receives `room` bytes after `got` others: the outcome, the bytes received, the script left. -/
def receiveLoop :
    List ReadResult → (got room : Nat) → Except NetFailure Unit × Bytes × List ReadResult
  | script, _, 0 => (.ok (), [], script)
  | [], got, _ + 1 => (.error (.closed .recv got), [], [])
  | .data bytes :: script, got, room + 1 =>
    if bytes = [] then (.error (.closed .recv got), [], script)
    else if room + 1 < bytes.length then
      (.ok (), bytes.take (room + 1), .data (bytes.drop (room + 1)) :: script)
    else
      let (result, more, left) := receiveLoop script (got + bytes.length) (room + 1 - bytes.length)
      (result, bytes ++ more, left)
  | .fault f :: script, got, room + 1 =>
    if f.kind = .interrupted then receiveLoop script got (room + 1)
    else (.error (.ofFault .recv got f), [], script)

/-- Receives `room` bytes; also the bytes that came. -/
def receive (s : Stream) (room : Nat) : Except NetFailure Unit × Bytes × Stream :=
  let (result, bytes, reads) := receiveLoop s.reads 0 room
  (result, bytes, { s with reads })

end Stream

end AjpGateway
