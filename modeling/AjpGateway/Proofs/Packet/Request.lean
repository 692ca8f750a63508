import AjpGateway.Proofs.Packet.Headers
import AjpGateway.Proofs.Packet.Receiving

/-!
# Requests on the wire

The payload of a request is its leading fields, its headers, its attributes and their end.  What
encodes is received and decoded as it was, but for the spelling of the header names with a code.

    r.encode.run m = (.ok (), sent) → sent = m.message toContainer (r.payload code)
                                                                          (eq_of_run_encode)
    (∀ p ∈ r.headers, ¬ LooksCoded requestHeaders p.1) →
      Reads decode (r.payload code) { r with headers := respell requestHeaders r.headers }
                                                                          (reads_decode)
    a request that encodes is received as its canonical form              (decode_receive_encode)
-/

namespace AjpGateway.Packet

open Buffer

/-! ## Methods -/

theorem methodName?_of_methodCode? {method : String} {code : UInt8}
    (h : methodCode? method = some code) : methodName? code = some method := by
  obtain ⟨i, hi, rfl⟩ := Option.map_eq_some_iff.1 h
  obtain ⟨hlt, heq, -⟩ := List.findIdx?_eq_some_iff_getElem.1 hi
  have hcode : (UInt8.ofNat (i + 1)).toNat = i + 1 := by
    have hlen : methods.length = 27 := rfl
    rw [UInt8.toNat_ofNat']
    omega
  have hne : UInt8.ofNat (i + 1) ≠ 0 := by
    intro h0
    have h := congrArg UInt8.toNat h0
    rw [hcode] at h
    cases h
  rw [methodName?, if_neg hne, hcode, Nat.add_sub_cancel, List.getElem?_eq_getElem hlt,
    beq_iff_eq.1 heq]

/-! ## Attributes -/

namespace Attribute

def code : Attribute → UInt8
  | named name _ => name.code
  | sslKeySize _ => sslKeySizeCode
  | custom _ _ => customCode

theorem code_ne_endCode (a : Attribute) : a.code ≠ endCode := by
  cases a with
  | named name value =>
    show name.code ≠ endCode
    cases name <;> decide
  | sslKeySize bits => exact (by decide : sslKeySizeCode ≠ endCode)
  | custom name value => exact (by decide : customCode ≠ endCode)

end Attribute

namespace Wire

/-- What follows the code of an attribute. -/
def attributeValue : Attribute → Bytes
  | .named _ value => text value
  | .sslKeySize bits => wordBytes bits
  | .custom name value => text name ++ text value

def attributes : List Attribute → Bytes
  | [] => []
  | a :: rest => [a.code] ++ (attributeValue a ++ attributes rest)

theorem length_attributes (as : List Attribute) : as.length ≤ (attributes as).length := by
  induction as with
  | nil => exact Nat.le_refl _
  | cons a rest ih =>
    rw [attributes, List.length_append, List.length_append, List.length_cons, List.length_singleton]
    omega

end Wire

theorem writes_attribute (a : Attribute) : Writes a.encode ([a.code] ++ Wire.attributeValue a) := by
  cases a with
  | named name value => exact (writes_appendByte name.code).seq (writes_appendText value)
  | sslKeySize bits => exact (writes_appendByte _).seq (writes_appendWord bits)
  | custom name value =>
    exact (writes_appendByte _).seq ((writes_appendText name).seq (writes_appendText value))

theorem writes_encodeAttributes (as : List Attribute) :
    Writes (ForwardRequest.encodeAttributes as) (Wire.attributes as) := by
  induction as with
  | nil => exact Writes.nothing
  | cons a rest ih =>
    have h := (writes_attribute a).seq ih
    rwa [List.append_assoc] at h

theorem reads_attribute {a : Attribute} (hf : (Wire.attributeValue a).length ≤ 0xFFFF) :
    Reads (Attribute.decode a.code) (Wire.attributeValue a) a := by
  unfold Attribute.decode
  cases a with
  | named name value =>
    rw [Attribute.code, AttributeName.ofCode?_code]
    exact (reads_readText hf name.name).bind_pure
  | sslKeySize bits => exact (reads_readWord bits).bind_pure
  | custom name value =>
    rw [Wire.attributeValue, List.length_append] at hf
    exact (reads_readText (by omega) "attribute name").bind
      (reads_readText (by omega) "attribute value").bind_pure

/-- Each attribute takes a byte of the fuel, and more of the packet. -/
theorem reads_decodeAttributes {as : List Attribute} {fuel : Nat} (hfuel : as.length ≤ fuel)
    (hf : (Wire.attributes as).length ≤ 0xFFFF) :
    Reads (ForwardRequest.decodeAttributes fuel) (Wire.attributes as ++ [Attribute.endCode]) as := by
  induction as generalizing fuel with
  | nil =>
    unfold ForwardRequest.decodeAttributes
    exact (reads_readByte Attribute.endCode).bind (Reads.pure [])
  | cons a rest ih =>
    rw [Wire.attributes, List.length_append, List.length_append] at hf
    rw [List.length_cons] at hfuel
    obtain ⟨n, rfl⟩ : ∃ n, fuel = n + 1 := ⟨fuel - 1, by omega⟩
    have hrest := ih (Nat.le_of_succ_le_succ hfuel) (by omega)
    rw [Wire.attributes, List.append_assoc, List.append_assoc]
    unfold ForwardRequest.decodeAttributes
    refine (reads_readByte a.code).bind ?_
    rw [if_neg a.code_ne_endCode]
    exact (reads_attribute (by omega)).bind hrest.bind_pure

namespace ForwardRequest

/-! ## Writing -/

/-- The fields before the headers, and the number of headers. -/
def leading (r : ForwardRequest) (code : UInt8) : Bytes :=
  [MessageType.forwardRequest.code] ++ ([code] ++ (Wire.text r.protocol ++ (Wire.text r.uri ++
    (Wire.text r.remoteAddr ++ (Wire.text? r.remoteHost ++ (Wire.text r.serverName ++
      (wordBytes r.serverPort ++ ([if r.isSsl then 1 else 0] ++
        wordBytes (UInt16.ofNat r.headers.length)))))))))

/-- The payload of the packet, with the code of the method. -/
def payload (r : ForwardRequest) (code : UInt8) : Bytes :=
  r.leading code ++ (Wire.headers requestHeaders r.headers ++
    (Wire.attributes r.attributes ++ [Attribute.endCode]))

/-- Writes the payload. -/
def encodeFields (r : ForwardRequest) (code : UInt8) : Marshal Unit := do
  appendByte MessageType.forwardRequest.code
  appendByte code
  appendText r.protocol
  appendText r.uri
  appendText r.remoteAddr
  appendText? r.remoteHost
  appendText r.serverName
  appendWord r.serverPort
  appendByte (if r.isSsl then 1 else 0)
  appendWord (UInt16.ofNat r.headers.length)
  encodeHeaders requestHeaders r.headers
  encodeAttributes r.attributes
  appendByte Attribute.endCode

theorem writes_encodeFields (r : ForwardRequest) (code : UInt8) :
    Writes (r.encodeFields code) (r.payload code) := by
  have h := (writes_appendByte MessageType.forwardRequest.code).seq <| (writes_appendByte code).seq <|
    (writes_appendText r.protocol).seq <| (writes_appendText r.uri).seq <|
    (writes_appendText r.remoteAddr).seq <| (writes_appendText? r.remoteHost).seq <|
    (writes_appendText r.serverName).seq <| (writes_appendWord r.serverPort).seq <|
    (writes_appendByte (if r.isSsl then 1 else 0)).seq <|
    (writes_appendWord (UInt16.ofNat r.headers.length)).seq <|
    (writes_encodeHeaders requestHeaders r.headers).seq <|
    (writes_encodeAttributes r.attributes).seq (writes_appendByte Attribute.endCode)
  unfold payload leading
  simp only [List.append_assoc]
  exact h

theorem encode_eq {r : ForwardRequest} {code : UInt8} (hm : methodCode? r.method = some code)
    (hh : r.headers.length ≤ 0xFFFF) :
    r.encode =
      (do modify reset; r.encodeFields code; modify (finish · toContainer) : Marshal Unit) := by
  unfold encode encodeFields
  rw [hm]
  simp only [if_neg (Nat.not_lt.2 hh), bind_assoc]

theorem encode_of_unknown {r : ForwardRequest} (hm : methodCode? r.method = none) :
    r.encode = throw (.unknownMethod r.method) := by
  unfold encode
  rw [hm]

theorem encode_of_many {r : ForwardRequest} {code : UInt8} (hm : methodCode? r.method = some code)
    (hh : 0xFFFF < r.headers.length) :
    r.encode = (do throw (.overflow (← get).len r.headers.length 0xFFFF) : Marshal Unit) := by
  unfold encode
  rw [hm]
  simp only [if_pos hh]
  rfl

theorem run_encode {r : ForwardRequest} {code : UInt8} {m : Buffer}
    (hm : methodCode? r.method = some code) (hh : r.headers.length ≤ 0xFFFF)
    (hc : m.capacity ≤ largestSize) (hf : headerSize + (r.payload code).length ≤ m.capacity) :
    r.encode.run m = (.ok (), m.message toContainer (r.payload code)) := by
  rw [encode_eq hm hh]
  exact (r.writes_encodeFields code).run_message hc hf

/-- A request that encodes has a method with a code and a number of headers that fits in a word,
and its packet is its payload behind the header. -/
theorem eq_of_run_encode {r : ForwardRequest} {m sent : Buffer} (hc : m.capacity ≤ largestSize)
    (h : r.encode.run m = (.ok (), sent)) :
    ∃ code, methodCode? r.method = some code ∧ r.headers.length ≤ 0xFFFF ∧
      headerSize + (r.payload code).length ≤ m.capacity ∧
      sent = m.message toContainer (r.payload code) := by
  cases hcode : methodCode? r.method with
  | none =>
    rw [encode_of_unknown hcode] at h
    cases h
  | some code =>
    by_cases hh : r.headers.length ≤ 0xFFFF
    · rw [encode_eq hcode hh] at h
      obtain ⟨hf, hsent⟩ := Writes.eq_message (r.writes_encodeFields code) hc h
      exact ⟨code, rfl, hh, hf, hsent⟩
    · rw [encode_of_many hcode (Nat.not_le.1 hh)] at h
      cases h

/-- Whether a request encodes depends on the capacity of the buffer only. -/
theorem encode_of_capacity {r : ForwardRequest} {m m' sent : Buffer} (hc : m.capacity ≤ largestSize)
    (hm : m'.capacity = m.capacity) (h : r.encode.run m = (.ok (), sent)) :
    ∃ sent', r.encode.run m' = (.ok (), sent') := by
  obtain ⟨code, hcode, hcount, hfits, -⟩ := eq_of_run_encode hc h
  rw [← hm] at hc hfits
  exact ⟨_, run_encode hcode hcount hc hfits⟩

/-! ## Reading -/

/-- Reads what follows the leading fields of `r`. -/
def decodeLists (r : ForwardRequest) : Marshal ForwardRequest := do
  let headers ← decodeHeaders requestHeaders (readText "header value") r.headers.length
  let attributes ← decodeAttributes (← get).remaining
  return { r with headers, attributes }

theorem leads_decode {r : ForwardRequest} {code : UInt8} (hm : methodCode? r.method = some code)
    (hh : r.headers.length ≤ 0xFFFF) (hf : (r.leading code).length ≤ 0xFFFF) :
    Leads decode (r.leading code) r.decodeLists := by
  have hcount : (UInt16.ofNat r.headers.length).toNat = r.headers.length := by
    rw [UInt16.toNat_ofNat']
    omega
  have hssl : ((if r.isSsl then 1 else 0 : UInt8) != 0) = r.isSsl := by cases r.isSsl <;> rfl
  unfold leading at hf
  simp only [List.length_append] at hf
  unfold decode leading
  refine (reads_readByte MessageType.forwardRequest.code).leads.trans ?_
  rw [if_neg (by simp)]
  refine (reads_readByte code).leads.trans ?_
  rw [methodName?_of_methodCode? hm]
  refine (reads_readText (by omega) "protocol").leads.trans ?_
  refine (reads_readText (by omega) "req_uri").leads.trans ?_
  refine (reads_readText (by omega) "remote_addr").leads.trans ?_
  refine (reads_readText? (by omega)).leads.trans ?_
  refine (reads_readText (by omega) "server_name").leads.trans ?_
  refine (reads_readWord r.serverPort).leads.trans ?_
  refine (reads_readByte (if r.isSsl then 1 else 0)).leads.trans ?_
  have h := (reads_readWord (UInt16.ofNat r.headers.length)).leads (f := fun count => do
    let headers ← decodeHeaders requestHeaders (readText "header value") count.toNat
    let attributes ← decodeAttributes (← get).remaining
    return { r with headers, attributes })
  rw [hcount] at h
  simp only [hssl]
  exact h

/-- As many attributes are looked for as there are bytes left, which are enough. -/
theorem reads_decodeLists {r : ForwardRequest}
    (hf : (Wire.headers requestHeaders r.headers ++
      (Wire.attributes r.attributes ++ [Attribute.endCode])).length ≤ 0xFFFF)
    (h : ∀ p ∈ r.headers, ¬ LooksCoded requestHeaders p.1) :
    Reads r.decodeLists (Wire.headers requestHeaders r.headers ++
      (Wire.attributes r.attributes ++ [Attribute.endCode]))
      { r with headers := respell requestHeaders r.headers } := by
  rw [List.length_append, List.length_append] at hf
  have hheaders := reads_decodeHeaders (fun value hv => reads_readText hv "header value")
    (by decide) (by omega) h
  refine hheaders.bind ?_
  intro m rest hm hu
  have hfuel : r.attributes.length ≤ m.remaining := by
    have hl := hm.length_unread
    have ha := Wire.length_attributes r.attributes
    rw [hu, List.length_append, List.length_append] at hl
    show _ ≤ m.len - m.pos
    omega
  rw [run_bind_of_ok (run_get m)]
  exact (reads_decodeAttributes hfuel (by omega)).bind_pure m rest hm hu

theorem reads_decode {r : ForwardRequest} {code : UInt8} (hm : methodCode? r.method = some code)
    (hh : r.headers.length ≤ 0xFFFF) (hf : (r.payload code).length ≤ 0xFFFF)
    (h : ∀ p ∈ r.headers, ¬ LooksCoded requestHeaders p.1) :
    Reads decode (r.payload code) { r with headers := respell requestHeaders r.headers } := by
  rw [payload, List.length_append] at hf
  exact (leads_decode hm hh (by omega)).reads (reads_decodeLists (by omega) h)

/-! ## Round trip -/

/-- A header name as it is read back: in lower case if it has a code. -/
def canonicalName (name : String) : String :=
  if (headerCode? requestHeaders name).isSome then Text.lowerAscii name else name

/-- The request as it is read back. -/
def canonical (r : ForwardRequest) : ForwardRequest :=
  { r with headers := r.headers.map fun h => (canonicalName h.1, h.2) }

/-- The table of request headers is in lower case. -/
theorem spelling_requestHeaders (name : String) :
    spelling requestHeaders name = canonicalName name := by
  unfold canonicalName
  cases hc : headerCode? requestHeaders name with
  | none =>
    rw [if_neg (by simp)]
    exact spelling_of_headerCode?_eq_none hc
  | some code =>
    rw [if_pos (by simp)]
    obtain ⟨i, s, hi, hf, -, -⟩ := headerCode?_eq_some (by decide) hc
    have hlower : ∀ s ∈ requestHeaders, Text.lowerAscii s = s := by decide
    have hsame : s.toList.map Char.toLower = name.toList.map Char.toLower := by
      have h := List.find?_some hf
      rwa [Text.sameIgnoringCase, beq_iff_eq] at h
    rw [spelling, hf, Option.getD_some, ← hlower s (List.mem_of_getElem? hi), Text.lowerAscii,
      hsame, Text.lowerAscii]

/-- **A request that encodes is received as its canonical form.**  A name without a code of less
than `0xA000` bytes has a length below the words of the codes. -/
theorem decode_receive_encode {r : ForwardRequest} {m sent : Buffer}
    (hnames : ∀ h ∈ r.headers, headerCode? requestHeaders h.1 = none → h.1.utf8ByteSize < 0xA000)
    (hc : m.capacity ≤ largestSize) (h : r.encode.run m = (.ok (), sent)) :
    sent.len ≤ m.capacity ∧
      ∀ (s : Stream) (b : Buffer) (more : Bytes), s.available = sent.frame ++ more →
        sent.len ≤ b.capacity →
        ∃ received s' final,
          receive s b toContainer = (.ok sent.payloadSize, received, s', sent.len) ∧
          s'.available = more ∧ decode.run received = (.ok r.canonical, final) ∧
          final.remaining = 0 := by
  obtain ⟨code, hcode, hcount, hfits, rfl⟩ := eq_of_run_encode hc h
  refine ⟨hfits, fun s b more hs hb => ?_⟩
  obtain ⟨received, s', hreceive, hwf, hunread, hmore⟩ := receive_message hc hfits hs hb
  have hsize : (r.payload code).length ≤ 0xFFFF := by
    have hlimits : largestSize = 0x10000 ∧ headerSize = 4 := ⟨rfl, rfl⟩
    omega
  have hplain : ∀ p ∈ r.headers, ¬ LooksCoded requestHeaders p.1 := by
    intro p hp hl
    have hshort := hnames p hp hl.1
    have hlong := hl.2.1
    omega
  have hdecode := reads_decode hcode hcount hsize hplain received [] hwf
    (by rw [hunread, List.append_nil])
  have hcanonical : r.canonical = { r with headers := respell requestHeaders r.headers } := by
    unfold canonical respell
    simp only [spelling_requestHeaders]
  rw [← hcanonical] at hdecode
  refine ⟨received, s', _, hreceive, hmore, hdecode, ?_⟩
  have hrest := hwf.length_unread
  rw [hunread] at hrest
  show received.len - (received.pos + (r.payload code).length) = 0
  omega

/-- A request with `Host` in mixed case and a name without a code given twice. -/
def mixedCase : ForwardRequest where
  method := "POST"
  protocol := "HTTP/1.1"
  uri := "/app"
  remoteAddr := "10.0.0.7"
  remoteHost := none
  serverName := "www"
  serverPort := 443
  isSsl := true
  headers := [("Host", "www"), ("X-Trace", "b"), ("X-Trace", "a")]
  attributes := [.named .queryString "a=1", .sslKeySize 256, .custom "tenant" ""]

theorem decode_receive_mixedCase :
    ∃ sent, mixedCase.encode.run (new defaultSize) = (.ok (), sent) ∧
      sent.len ≤ (new defaultSize).capacity ∧
      ∀ (s : Stream) (b : Buffer) (more : Bytes), s.available = sent.frame ++ more →
        sent.len ≤ b.capacity →
        ∃ received s' final,
          receive s b toContainer = (.ok sent.payloadSize, received, s', sent.len) ∧
          s'.available = more ∧
          decode.run received = (.ok { mixedCase with
            headers := [("host", "www"), ("X-Trace", "b"), ("X-Trace", "a")] }, final) ∧
          final.remaining = 0 := by
  have hcode : methodCode? mixedCase.method = some 4 := by decide
  have hsmall : (new defaultSize).capacity ≤ largestSize := by
    rw [capacity_new]
    decide
  have hfits : headerSize + (mixedCase.payload 4).length ≤ (new defaultSize).capacity := by
    rw [capacity_new]
    decide
  have hcanonical : mixedCase.canonical = { mixedCase with
      headers := [("host", "www"), ("X-Trace", "b"), ("X-Trace", "a")] } := by decide
  have hencode := run_encode hcode (by decide) hsmall hfits
  have h := decode_receive_encode (by decide) hsmall hencode
  rw [hcanonical] at h
  exact ⟨_, hencode, h⟩

end ForwardRequest

end AjpGateway.Packet
