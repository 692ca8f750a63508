import AjpGateway.Net.Address

/-!
# Failures of transfer

A failure says which operation failed, after how many bytes, and why.  It is recoverable if the
request may be given to another container: nothing of an answer can have been lost.
-/

namespace AjpGateway

/-- The kinds of faults that a system reports. -/
inductive FaultKind where
  | interrupted | wouldBlock | timedOut | connectionReset | connectionAborted | connectionRefused
  | brokenPipe | notConnected | permissionDenied | unexpectedEof | invalidInput
  | networkUnreachable | uncategorized
deriving DecidableEq, Repr

/-- A fault: of a kind, or with a text of the system's own. -/
inductive Fault where
  | ofKind (kind : FaultKind)
  | refused
  | unreachable
  | nulInName
  | unknownName
deriving DecidableEq, Repr

def FaultKind.message : FaultKind → String
  | interrupted => "operation interrupted"
  | wouldBlock => "operation would block"
  | timedOut => "timed out"
  | connectionReset => "connection reset"
  | connectionAborted => "connection aborted"
  | connectionRefused => "connection refused"
  | brokenPipe => "broken pipe"
  | notConnected => "not connected"
  | permissionDenied => "permission denied"
  | unexpectedEof => "unexpected end of file"
  | invalidInput => "invalid input parameter"
  | networkUnreachable => "network unreachable"
  | uncategorized => "uncategorized error"

namespace Fault

def kind : Fault → FaultKind
  | ofKind k => k
  | refused => .connectionRefused
  | unreachable => .networkUnreachable
  | nulInName => .invalidInput
  | unknownName => .uncategorized

def message : Fault → String
  | ofKind k => k.message
  | refused => "Connection refused (os error 111)"
  | unreachable => "Network is unreachable (os error 101)"
  | nulInName => "file name contained an unexpected NUL byte"
  | unknownName => "failed to lookup address information: Name or service not known"

end Fault

inductive NetOp where
  | resolve | connect | send | recv
deriving DecidableEq, Repr

def NetOp.name : NetOp → String
  | resolve => "resolve"
  | connect => "connect"
  | send => "send"
  | recv => "recv"

inductive NetFailure where
  | unresolved (host : String) (port : Nat) (fault : Fault)
  | noAddress (host : String) (port : Nat)
  | unconnected (peer : Address) (fault : Fault)
  | timeout (op : NetOp) (transferred : Nat)
  /-- the peer closed, or took or gave no byte -/
  | closed (op : NetOp) (transferred : Nat)
  | broken (op : NetOp) (transferred : Nat) (fault : Fault)
deriving DecidableEq, Repr

namespace NetFailure

def op : NetFailure → NetOp
  | unresolved .. | noAddress .. => .resolve
  | unconnected .. => .connect
  | timeout op _ | closed op _ | broken op _ _ => op

/-- Counts `n` bytes that were moved before. -/
def after (n : Nat) : NetFailure → NetFailure
  | timeout op k => timeout op (k + n)
  | closed op k => closed op (k + n)
  | broken op k fault => broken op (k + n) fault
  | e => e

/-- The faults of a peer that has gone away. -/
def isDeparture (k : FaultKind) : Bool :=
  k == .connectionReset || k == .connectionAborted || k == .brokenPipe

/-- A failed receipt is recoverable only if the peer went away before its first byte. -/
def recoverable : NetFailure → Bool
  | unresolved .. | noAddress .. => false
  | unconnected .. | timeout .. => true
  | closed .recv k => k == 0
  | closed .. => true
  | broken .recv k fault => k == 0 && isDeparture fault.kind
  | broken .. => true

def message : NetFailure → String
  | unresolved host port fault =>
    "cannot resolve " ++ host ++ ":" ++ toString port ++ ": " ++ fault.message
  | noAddress host port => "no usable address for " ++ host ++ ":" ++ toString port
  | unconnected peer fault => "connect to " ++ peer.text ++ " failed: " ++ fault.message
  | timeout op k => op.name ++ " timed out after " ++ toString k ++ " bytes"
  | closed op k =>
    "connection closed by peer during " ++ op.name ++ " after " ++ toString k ++ " bytes"
  | broken op k fault =>
    op.name ++ " failed after " ++ toString k ++ " bytes: " ++ fault.message

/-- A fault met after `k` bytes; waiting too long is a timeout of its own. -/
def ofFault (op : NetOp) (k : Nat) (fault : Fault) : NetFailure :=
  match fault.kind with
  | .wouldBlock | .timedOut => timeout op k
  | _ => broken op k fault

end NetFailure

end AjpGateway
