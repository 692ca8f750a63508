import AjpGateway.Decimal.Reading
import AjpGateway.Text.Cut

/-!
# Client requests

One request as the web server received it.  Header names are compared without regard to case;
order and repetitions of headers are kept.
-/

namespace AjpGateway

/-- What is known of a TLS connection. -/
structure SslInfo where
  cert : Option String := none
  cipher : Option String := none
  session : Option String := none
  keySize : Option UInt16 := none
deriving DecidableEq, Repr

structure ClientRequest where
  method : String := "GET"
  protocol : String := "HTTP/1.1"
  /-- the decoded path, with its session marker if it has one -/
  uri : String
  query : Option String := none
  headers : List (String × String) := []
  remoteAddr : String := "127.0.0.1"
  remoteHost : Option String := none
  remoteUser : Option String := none
  authType : Option String := none
  serverName : String := "localhost"
  serverPort : UInt16 := 80
  ssl : Option SslInfo := none
  /-- attributes passed on to the container -/
  attributes : List (String × String) := []
deriving DecidableEq, Repr

namespace ClientRequest

/-- The values of a header, in order. -/
def headerValues (r : ClientRequest) (name : String) : List String :=
  (r.headers.filter fun h => Text.sameIgnoringCase h.1 name).map Prod.snd

def header? (r : ClientRequest) (name : String) : Option String := (r.headerValues name).head?

/-- The declared length of the body, if there is one that can be read. -/
def contentLength? (r : ClientRequest) : Option Nat :=
  (r.header? "content-length").bind fun v => Decimal.readNat? Decimal.maxUInt64 (Text.trim v.toList)

def isSsl (r : ClientRequest) : Bool := r.ssl.isSome

end ClientRequest

end AjpGateway
