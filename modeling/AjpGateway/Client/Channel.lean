import AjpGateway.Net.Failure
import AjpGateway.Text.Utf8

/-!
# Channels to the client

Through its channel the gateway reads the body of a request and gives back the response.  A plan
says how each call goes: how many bytes a read returns at most, and which calls fail.  A failing
call has no effect but to be counted.
-/

namespace AjpGateway

/-- The behaviour of a client, by the number of the call. -/
structure ChannelPlan where
  /-- the most bytes that a read returns, if there is a limit -/
  read : Nat → Except Fault (Option Nat)
  headers : Nat → Except Fault Unit
  body : Nat → Except Fault Unit

/-- Reads return what there is room for, and no call fails. -/
def ChannelPlan.willing : ChannelPlan where
  read := fun _ => .ok none
  headers := fun _ => .ok ()
  body := fun _ => .ok ()

structure Channel where
  plan : ChannelPlan := .willing
  /-- the bytes of the request's body not yet read -/
  unread : Bytes := []
  consumed : Nat := 0
  reads : Nat := 0
  headerCalls : Nat := 0
  bodyCalls : Nat := 0
  status? : Option Nat := none
  reason? : Option String := none
  headers : List (String × String) := []
  /-- the response's body -/
  response : Bytes := []

namespace Channel

/-- Reads at most `room` bytes; none mean the end of the body. -/
def read (c : Channel) (room : Nat) : Except Fault Bytes × Channel :=
  let counted := { c with reads := c.reads + 1 }
  match c.plan.read c.reads with
  | .error f => (.error f, counted)
  | .ok limit? =>
    let bytes := c.unread.take (min room (limit?.getD room))
    (.ok bytes,
      { counted with unread := c.unread.drop bytes.length, consumed := c.consumed + bytes.length })

/-- Reads until `room` bytes have come or the body ends. -/
def fill (c : Channel) (room : Nat) : Except Fault Bytes × Channel :=
  if _ : 0 < room then
    match c.read room with
    | (.error f, c) => (.error f, c)
    | (.ok [], c) => (.ok [], c)
    | (.ok (b :: bytes), c) =>
      let (rest, c) := c.fill (room - (b :: bytes).length)
      (rest.map (b :: bytes ++ ·), c)
  else (.ok [], c)
termination_by room
decreasing_by simp only [List.length_cons]; omega

/-- The bytes that were read since the channel stood as `earlier`. -/
def readSince (c earlier : Channel) : Bytes := earlier.unread.take (c.consumed - earlier.consumed)

/-- Gives the status and headers to the client. -/
def writeHeaders (c : Channel) (status : Nat) (reason : String) (headers : List (String × String)) :
    Except Fault Unit × Channel :=
  let counted := { c with headerCalls := c.headerCalls + 1 }
  match c.plan.headers c.headerCalls with
  | .error f => (.error f, counted)
  | .ok () => (.ok (), { counted with status? := some status, reason? := some reason, headers })

/-- Gives a piece of the body to the client. -/
def writeBody (c : Channel) (data : Bytes) : Except Fault Unit × Channel :=
  let counted := { c with bodyCalls := c.bodyCalls + 1 }
  match c.plan.body c.bodyCalls with
  | .error f => (.error f, counted)
  | .ok () => (.ok (), { counted with response := c.response ++ data })

end Channel

end AjpGateway
