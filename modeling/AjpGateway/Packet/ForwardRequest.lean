import AjpGateway.Packet.Buffer

/-!
# Forwarded requests

What the web server sends: a request with its headers and attributes, the pieces of its body, and
probes.  A header name with a code is sent as the code, and read back in the spelling of the
table; every other text is read back as it was written.
-/

namespace AjpGateway.Packet

/-! ## Attributes -/

/-- The attributes whose value is one text. -/
inductive AttributeName where
  | context | servletPath | remoteUser | authType | queryString | jvmRoute | sslCert | sslCipher
  | sslSession | secret
deriving DecidableEq, Repr

namespace AttributeName

def code : AttributeName → UInt8
  | context => 1
  | servletPath => 2
  | remoteUser => 3
  | authType => 4
  | queryString => 5
  | jvmRoute => 6
  | sslCert => 7
  | sslCipher => 8
  | sslSession => 9
  | secret => 12

def name : AttributeName → String
  | context => "context"
  | servletPath => "servlet_path"
  | remoteUser => "remote_user"
  | authType => "auth_type"
  | queryString => "query_string"
  | jvmRoute => "jvm_route"
  | sslCert => "ssl_cert"
  | sslCipher => "ssl_cipher"
  | sslSession => "ssl_session"
  | secret => "secret"

def all : List AttributeName :=
  [context, servletPath, remoteUser, authType, queryString, jvmRoute, sslCert, sslCipher,
    sslSession, secret]

def ofCode? (code : UInt8) : Option AttributeName := all.find? (·.code == code)

def ofName? (name : String) : Option AttributeName := all.find? (·.name == name)

theorem ofCode?_code (n : AttributeName) : ofCode? n.code = some n := by cases n <;> rfl

end AttributeName

inductive Attribute where
  | named (name : AttributeName) (value : String)
  | sslKeySize (bits : UInt16)
  /-- an attribute that only the container knows -/
  | custom (name value : String)
deriving DecidableEq, Repr

namespace Attribute

def customCode : UInt8 := 10

def sslKeySizeCode : UInt8 := 11

/-- Ends the attributes. -/
def endCode : UInt8 := 0xFF

open Buffer

def encode : Attribute → Marshal Unit
  | named name value => do appendByte name.code; appendText value
  | sslKeySize bits => do appendByte sslKeySizeCode; appendWord bits
  | custom name value => do appendByte customCode; appendText name; appendText value

/-- The attribute that starts with a code. -/
def decode (code : UInt8) : Marshal Attribute :=
  match AttributeName.ofCode? code with
  | some name => do return named name (← readText name.name)
  | none =>
    if code = customCode then do
      let name ← readText "attribute name"
      return custom name (← readText "attribute value")
    else if code = sslKeySizeCode then do return sslKeySize (← readWord)
    else throw (.unknownAttribute code)

end Attribute

/-! ## Headers -/

open Buffer

/-- A header name, by its code if the table has one. -/
def encodeHeaderName (table : List String) (name : String) : Marshal Unit :=
  match headerCode? table name with
  | some code => appendWord code
  | none => appendText name

def encodeHeaders (table : List String) : List (String × String) → Marshal Unit
  | [] => return
  | (name, value) :: rest => do
    encodeHeaderName table name
    appendText value
    encodeHeaders table rest

/-- A header name.  A word in the form of a code is one, whatever it was written as. -/
def decodeHeaderName (table : List String) : Marshal String := do
  if isCodedHeader (← peekWord) then
    let code ← readWord
    match headerName? table code with
    | some name => return name
    | none => throw (.unknownHeaderCode code)
  else readText "header name"

/-- `n` headers, whose values are read by `readValue`. -/
def decodeHeaders (table : List String) (readValue : Marshal String) :
    Nat → Marshal (List (String × String))
  | 0 => return []
  | n + 1 => do
    let name ← decodeHeaderName table
    let value ← readValue
    return (name, value) :: (← decodeHeaders table readValue n)

/-! ## Requests -/

structure ForwardRequest where
  method : String
  protocol : String
  uri : String
  remoteAddr : String
  remoteHost : Option String
  serverName : String
  serverPort : UInt16
  isSsl : Bool
  headers : List (String × String)
  attributes : List Attribute
deriving DecidableEq, Repr

namespace ForwardRequest

def encodeAttributes : List Attribute → Marshal Unit
  | [] => return
  | a :: rest => do a.encode; encodeAttributes rest

/-- Writes the request in place of what the buffer held. -/
def encode (r : ForwardRequest) : Marshal Unit := do
  let some method := methodCode? r.method | throw (.unknownMethod r.method)
  if 0xFFFF < r.headers.length then
    throw (.overflow (← get).len r.headers.length 0xFFFF)
  modify reset
  appendByte MessageType.forwardRequest.code
  appendByte method
  appendText r.protocol
  appendText r.uri
  appendText r.remoteAddr
  appendText? r.remoteHost
  appendText r.serverName
  appendWord r.serverPort
  appendByte (if r.isSsl then 1 else 0)
  appendWord (UInt16.ofNat r.headers.length)
  encodeHeaders requestHeaders r.headers
  encodeAttributes r.attributes
  appendByte Attribute.endCode
  modify (finish · toContainer)

/-- The attributes up to their end.  Each takes a byte at least, so `fuel` bytes hold no more than
`fuel` of them. -/
def decodeAttributes (fuel : Nat) : Marshal (List Attribute) := do
  let code ← readByte
  if code = Attribute.endCode then return []
  else
    let a ← Attribute.decode code
    match fuel with
    | 0 => return [a]
    | n + 1 => return a :: (← decodeAttributes n)

/-- Reads the request in a received packet. -/
def decode : Marshal ForwardRequest := do
  let kind ← readByte
  if kind ≠ MessageType.forwardRequest.code then throw (.unexpectedMessage kind)
  let code ← readByte
  let some method := methodName? code | throw (.unknownMethodCode code)
  let protocol ← readText "protocol"
  let uri ← readText "req_uri"
  let remoteAddr ← readText "remote_addr"
  let remoteHost ← readText?
  let serverName ← readText "server_name"
  let serverPort ← readWord
  let isSsl := (← readByte) != 0
  let count ← readWord
  let headers ← decodeHeaders requestHeaders (readText "header value") count.toNat
  let attributes ← decodeAttributes (← get).remaining
  return {
    method, protocol, uri, remoteAddr, remoteHost, serverName, serverPort, isSsl, headers,
    attributes }

end ForwardRequest

/-! ## Bodies and probes -/

/-- A piece of a body; an empty one ends it and has an empty payload. -/
def encodeBody (data : Bytes) : Marshal Unit := do
  modify reset
  if data ≠ [] then appendChunk data
  modify (finish · toContainer)

def decodeBody : Marshal Bytes := do
  if (← get).remaining = 0 then return []
  else
    let size ← readWord
    take size.toNat

def encodePing : Marshal Unit := do
  modify reset
  appendByte MessageType.ping.code
  modify (finish · toContainer)

end AjpGateway.Packet
