import AjpGateway.Text.Cut

/-!
# Codes on the wire

The numbers of AJP13: the magic words of the two directions, packet sizes, message types, and the
tables that give common methods and header names a code in place of their text.
-/

namespace AjpGateway

namespace Packet

/-- Opens a packet from the web server to the container. -/
def toContainer : UInt16 := 0x1234

/-- Opens a packet from the container to the web server. -/
def fromContainer : UInt16 := 0x4142

/-- The default, and smallest, packet size. -/
def defaultSize : Nat := 8 * 1024

def largestSize : Nat := 64 * 1024

/-- The magic word and the payload length. -/
def headerSize : Nat := 4

/-- The most body bytes that one packet carries, beside its header and their length.  Sizes are
words of 64 bits: that of a packet without room for these two wraps round. -/
def bodyRoom (packetSize : Nat) : Nat :=
  if packetSize < headerSize + 2 then packetSize + UInt64.size - (headerSize + 2)
  else packetSize - (headerSize + 2)

/-- Stands for the length of a text that is absent. -/
def absentLength : UInt16 := 0xFFFF

/-- The first payload byte of every packet but a request body. -/
inductive MessageType where
  | forwardRequest | sendBodyChunk | sendHeaders | endResponse | getBodyChunk | shutdown | pong
  | ping
deriving DecidableEq, Repr

def MessageType.code : MessageType → UInt8
  | forwardRequest => 2
  | sendBodyChunk => 3
  | sendHeaders => 4
  | endResponse => 5
  | getBodyChunk => 6
  | shutdown => 7
  | pong => 9
  | ping => 10

def MessageType.ofCode? (n : UInt8) : Option MessageType :=
  [forwardRequest, sendBodyChunk, sendHeaders, endResponse, getBodyChunk, shutdown, pong,
    ping].find? (·.code == n)

theorem MessageType.ofCode?_code (t : MessageType) : ofCode? t.code = some t := by
  cases t <;> rfl

/-! ## Methods -/

/-- The methods in the order of their codes, from 1. -/
def methods : List String :=
  ["OPTIONS", "GET", "HEAD", "POST", "PUT", "DELETE", "TRACE", "PROPFIND", "PROPPATCH", "MKCOL",
   "COPY", "MOVE", "LOCK", "UNLOCK", "ACL", "REPORT", "VERSION-CONTROL", "CHECKIN", "CHECKOUT",
   "UNCHECKOUT", "SEARCH", "MKWORKSPACE", "UPDATE", "LABEL", "MERGE", "BASELINE-CONTROL",
   "MKACTIVITY"]

/-- Methods are told apart by case. -/
def methodCode? (method : String) : Option UInt8 :=
  (methods.findIdx? (· == method)).map fun i => UInt8.ofNat (i + 1)

def methodName? (code : UInt8) : Option String :=
  if code = 0 then none else methods[code.toNat - 1]?

/-! ## Header names -/

/-- Coded header names lie above this word. -/
def codedHeader : UInt16 := 0xA000

/-- Whether a word has the form of a coded header name. -/
def isCodedHeader (w : UInt16) : Bool := w &&& 0xFF00 == codedHeader

/-- The coded request headers in the order of their codes. -/
def requestHeaders : List String :=
  ["accept", "accept-charset", "accept-encoding", "accept-language", "authorization", "connection",
   "content-type", "content-length", "cookie", "cookie2", "host", "pragma", "referer",
   "user-agent"]

/-- The coded response headers in the order of their codes. -/
def responseHeaders : List String :=
  ["Content-Type", "Content-Language", "Content-Length", "Date", "Last-Modified", "Location",
   "Set-Cookie", "Set-Cookie2", "Servlet-Engine", "Status", "WWW-Authenticate"]

/-- The code of a name in a table; the case of letters does not count. -/
def headerCode? (table : List String) (name : String) : Option UInt16 :=
  (table.findIdx? (Text.sameIgnoringCase · name)).map fun i => codedHeader + UInt16.ofNat (i + 1)

/-- The name behind a code, in the spelling of the table. -/
def headerName? (table : List String) (code : UInt16) : Option String :=
  if code ≤ codedHeader then none else table[code.toNat - codedHeader.toNat - 1]?

end Packet

end AjpGateway
