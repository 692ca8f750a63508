import AjpGateway.Packet.Reply
import AjpGateway.Proofs.Packet.Headers

/-!
# Replies on the wire

The payload of a reply is its message type and its fields.  A reply that encodes has no more
headers than are counted, since each takes five bytes at least.

    r.encode.run m = (.ok (), sent) → sent = m.message fromContainer r.payload
                                                                          (eq_of_run_encode)
    Leads decode … (decodeHeaders responseHeaders readValue headers.length …)   (leads_decode)
    no name LooksCoded → r.payload = x ++ r.trailing ∧ Reads decode x r.canonical
                                                                          (reads_decode)
-/

namespace AjpGateway.Packet.Reply

open Buffer

/-- What follows the message type. -/
def fields : Reply → Bytes
  | sendHeaders status reason headers =>
    wordBytes status ++ (Wire.text? reason ++ (wordBytes (UInt16.ofNat headers.length) ++
      Wire.headers responseHeaders headers))
  | sendBody data => Wire.chunk data ++ [0]
  | getBody requested => wordBytes requested
  | endResponse reuse => [if reuse then 1 else 0]
  | pong => []

def payload (r : Reply) : Bytes := [r.messageType.code] ++ r.fields

/-! ## Writing -/

theorem writes_encodeFields (r : Reply) : Writes r.encodeFields r.fields := by
  cases r with
  | sendHeaders status reason headers =>
    exact (writes_appendWord status).seq <| (writes_appendText? reason).seq <|
      (writes_appendWord (UInt16.ofNat headers.length)).seq
        (writes_encodeHeaders responseHeaders headers)
  | sendBody data => exact (writes_appendChunk data).seq (writes_appendByte 0)
  | getBody requested => exact writes_appendWord requested
  | endResponse reuse => exact writes_appendByte (if reuse then 1 else 0)
  | pong => exact Writes.nothing

theorem writes_encode (r : Reply) :
    Writes (do appendByte r.messageType.code; r.encodeFields) r.payload :=
  (writes_appendByte r.messageType.code).seq r.writes_encodeFields

theorem encode_eq (r : Reply) :
    r.encode = (do
      modify reset
      (do appendByte r.messageType.code; r.encodeFields)
      modify (finish · fromContainer) : Marshal Unit) := by
  unfold encode
  simp only [bind_assoc]

theorem run_encode {r : Reply} {m : Buffer} (hc : m.capacity ≤ largestSize)
    (hf : headerSize + r.payload.length ≤ m.capacity) :
    r.encode.run m = (.ok (), m.message fromContainer r.payload) := by
  rw [encode_eq]
  exact r.writes_encode.run_message hc hf

theorem eq_of_run_encode {r : Reply} {m sent : Buffer} (hc : m.capacity ≤ largestSize)
    (h : r.encode.run m = (.ok (), sent)) :
    headerSize + r.payload.length ≤ m.capacity ∧
      sent = m.message fromContainer r.payload := by
  rw [encode_eq] at h
  exact Writes.eq_message r.writes_encode hc h

/-! ## Reading -/

section
variable {status : UInt16} {reason : Option String} {headers : List (String × String)}

/-- The fields before the headers, and the number of headers. -/
def leading (status : UInt16) (reason : Option String) (headers : List (String × String)) : Bytes :=
  [MessageType.sendHeaders.code] ++ (wordBytes status ++ (Wire.text? reason ++
    wordBytes (UInt16.ofNat headers.length)))

theorem payload_sendHeaders :
    (sendHeaders status reason headers).payload =
      leading status reason headers ++ Wire.headers responseHeaders headers := by
  unfold payload fields leading
  simp only [List.append_assoc]
  rfl

theorem leads_decode (hf : (sendHeaders status reason headers).payload.length ≤ 0xFFFF) :
    Leads decode (leading status reason headers) (do
      return .sendHeaders status reason
        (← decodeHeaders responseHeaders readValue headers.length)) := by
  have hmany := Wire.length_headers responseHeaders headers
  rw [payload_sendHeaders] at hf
  unfold leading at hf
  simp only [List.length_append] at hf
  have hcount : (UInt16.ofNat headers.length).toNat = headers.length := by
    rw [UInt16.toNat_ofNat']
    omega
  unfold decode leading
  refine (reads_readByte MessageType.sendHeaders.code).leads.trans ?_
  rw [MessageType.ofCode?_code]
  refine (reads_readWord status).leads.trans ?_
  refine (reads_readText? (by omega)).leads.trans ?_
  have h := (reads_readWord (UInt16.ofNat headers.length)).leads (f := fun count => do
    return Reply.sendHeaders status reason
      (← decodeHeaders responseHeaders readValue count.toNat))
  rw [hcount] at h
  exact h

theorem reads_readValue {value : String} (hf : (Wire.text value).length ≤ 0xFFFF) :
    Reads readValue (Wire.text value) value :=
  (reads_readText? (s := some value) hf).bind_pure

end

/-- The headers of the reply, if it carries any. -/
def headers : Reply → List (String × String)
  | sendHeaders _ _ headers => headers
  | _ => []

/-- The reply as it is read back: each name with a code is in the spelling of the table. -/
def canonical : Reply → Reply
  | sendHeaders status reason headers => sendHeaders status reason (respell responseHeaders headers)
  | r => r

/-- What is left unread of the payload: the NUL behind the data of a body piece. -/
def trailing : Reply → Bytes
  | sendBody _ => [0]
  | _ => []

/-- A reply is read as its canonical form, from all of its payload but what is left unread. -/
theorem reads_decode {r : Reply} (hf : r.payload.length ≤ 0xFFFF)
    (h : ∀ p ∈ r.headers, ¬ LooksCoded responseHeaders p.1) :
    ∃ x, r.payload = x ++ r.trailing ∧ Reads decode x r.canonical := by
  have hfields : r.fields.length ≤ 0xFFFF := by
    rw [payload, List.length_append] at hf
    omega
  cases r with
  | sendHeaders status reason headers =>
    refine ⟨_, (List.append_nil _).symm, ?_⟩
    have hleads := leads_decode hf
    rw [payload_sendHeaders] at hf ⊢
    rw [List.length_append] at hf
    have hplain : ∀ p ∈ headers, ¬ LooksCoded responseHeaders p.1 := h
    have hheaders := reads_decodeHeaders (fun value hv => reads_readValue hv) (by decide)
      (by omega) hplain
    exact hleads.reads (hheaders.bind_pure (f := Reply.sendHeaders status reason))
  | sendBody data =>
    rw [fields, List.length_append] at hfields
    refine ⟨[MessageType.sendBodyChunk.code] ++ Wire.chunk data, (List.append_assoc ..).symm, ?_⟩
    have hsize : (Wire.chunk data).length ≤ 0xFFFF := by omega
    have hchunk := (reads_chunk hsize).bind_pure (f := Reply.sendBody)
    simp only [bind_assoc] at hchunk
    exact (reads_readByte _).bind hchunk
  | getBody requested =>
    refine ⟨_, (List.append_nil _).symm, ?_⟩
    exact (reads_readByte _).bind (reads_readWord requested).bind_pure
  | endResponse reuse =>
    refine ⟨_, (List.append_nil _).symm, ?_⟩
    have hreuse : ((if reuse then 1 else 0 : UInt8) == 1) = reuse := by cases reuse <;> rfl
    refine (reads_readByte _).bind ?_
    -- the flag is there, so it is not taken for one that was left out
    intro m rest hm hu
    have hl := hm.length_unread
    rw [hu, List.length_append] at hl
    have hsome : 0 < m.remaining := by
      show 0 < m.len - m.pos
      rw [← hl]
      exact Nat.lt_add_right _ (Nat.succ_pos 0)
    have hflag := (reads_readByte (if reuse then 1 else 0)).bind_pure
      (f := fun b => Reply.endResponse (b == 1)) m rest hm hu
    rw [hreuse] at hflag
    rw [MessageType.ofCode?_code]
    refine (run_bind_of_ok (run_get m)).trans ?_
    rw [if_pos hsome]
    exact hflag
  | pong =>
    refine ⟨_, (List.append_nil _).symm, ?_⟩
    exact (reads_readByte _).bind (Reads.pure Reply.pong)

end AjpGateway.Packet.Reply
