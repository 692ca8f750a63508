import Mathlib.Data.List.Forall2
import AjpGateway.Proofs.Packet.Receiving
import AjpGateway.Proofs.Packet.Reply
import AjpGateway.Proofs.Packet.Request

/-!
# Which header names come back

A name without a code is written behind its length, in the place of a code.  Lengths from `0xA000`
to `0xA0FF` have the form of codes, and such a name is read, if it is, as one of the table.  These
are the only names that do not come back:

    NamesKept table headers received → ∀ h ∈ headers, ¬ LooksCoded table h.1
                                                             (not_looksCoded_of_namesKept)
    the names of a request or a reply come back exactly if none looks coded   (namesKept_iff)
-/

namespace AjpGateway.Packet

open Buffer

/-- No header is lost or added, and a name without a code comes back as it was. -/
def NamesKept (table : List String) (sent received : List (String × String)) : Prop :=
  List.Forall₂ (fun s r => headerCode? table s.1 = none → r.1 = s.1) sent received

theorem namesKept_respell (table : List String) (headers : List (String × String)) :
    NamesKept table headers (respell table headers) := by
  induction headers with
  | nil => exact List.Forall₂.nil
  | cons h rest ih => exact List.Forall₂.cons spelling_of_headerCode?_eq_none ih

section
variable {table : List String} {readValue : Marshal String}
  (hvalue : ∀ value, (Wire.text value).length ≤ 0xFFFF → Reads readValue (Wire.text value) value)
include hvalue

/-- The first name that looks coded is read as another; up to it, names come back. -/
theorem not_looksCoded_of_namesKept (hs : table.length < 0x100)
    {headers received : List (String × String)} {m m' : Buffer} {rest : Bytes}
    (hf : (Wire.headers table headers).length ≤ 0xFFFF) (hm : m.WellFormed)
    (hu : m.unread = Wire.headers table headers ++ rest)
    (hr : (decodeHeaders table readValue headers.length).run m = (.ok received, m'))
    (hk : NamesKept table headers received) :
    ∀ h ∈ headers, ¬ LooksCoded table h.1 := by
  induction headers generalizing received m m' with
  | nil => exact List.forall_mem_nil _
  | cons h headers ih =>
    rw [Wire.headers, List.length_append, List.length_append] at hf
    rw [Wire.headers, List.append_assoc] at hu
    obtain ⟨name, m₁, hname, hr⟩ := run_bind_eq_ok_iff.1 hr
    obtain ⟨value, m₂, hval, hr⟩ := run_bind_eq_ok_iff.1 hr
    obtain ⟨tail, m₃, htail, hr⟩ := run_bind_eq_ok_iff.1 hr
    obtain rfl : received = (name, value) :: tail := by
      cases hr
      rfl
    obtain ⟨hfirst, hkept⟩ := List.forall₂_cons.1 hk
    have hplain : ¬ LooksCoded table h.1 := by
      intro hl
      have htext : Wire.headerName table h.1 = Wire.text h.1 := by rw [Wire.headerName, hl.1]
      rw [htext] at hu
      have hcode := headerCode?_ne_none_of_looksCoded hm hu hl hname
      rw [show name = h.1 from hfirst hl.1] at hcode
      exact hcode hl.1
    -- the name and the value come back, and the other headers follow
    have hname' := reads_decodeHeaderName hs (by omega) hplain m _ hm hu
    obtain ⟨hm₁, hu₁⟩ := hm.advance_of_unread hu
    rw [hname'] at hname
    cases hname
    rw [List.append_assoc] at hu₁
    have hval' := hvalue h.2 (by omega) _ _ hm₁ hu₁
    obtain ⟨hm₂, hu₂⟩ := hm₁.advance_of_unread hu₁
    rw [hval'] at hval
    cases hval
    have hrest := ih (by omega) hm₂ hu₂ htail hkept
    intro p hp
    rcases List.mem_cons.1 hp with rfl | hp
    · exact hplain
    · exact hrest p hp

end

theorem ForwardRequest.namesKept_decode_iff {r : ForwardRequest} {code : UInt8} {received : Buffer}
    (hcode : methodCode? r.method = some code) (hcount : r.headers.length ≤ 0xFFFF)
    (hf : (r.payload code).length ≤ 0xFFFF) (hm : received.WellFormed)
    (hu : received.unread = r.payload code) :
    (∃ decoded final, decode.run received = (.ok decoded, final) ∧
        NamesKept requestHeaders r.headers decoded.headers) ↔
      ∀ h ∈ r.headers, ¬ LooksCoded requestHeaders h.1 := by
  constructor
  · rintro ⟨decoded, final, hr, hk⟩
    rw [payload, List.length_append, List.length_append] at hf
    rw [payload] at hu
    rw [leads_decode hcode hcount (by omega) received _ hm hu] at hr
    obtain ⟨hm', hu'⟩ := hm.advance_of_unread hu
    obtain ⟨headers, m₁, hheaders, hr⟩ := run_bind_eq_ok_iff.1 hr
    obtain ⟨_, m₂, -, hr⟩ := run_bind_eq_ok_iff.1 hr
    obtain ⟨attributes, m₃, -, hr⟩ := run_bind_eq_ok_iff.1 hr
    cases hr
    exact not_looksCoded_of_namesKept (fun value hv => reads_readText hv "header value") (by decide)
      (by omega) hm' hu' hheaders hk
  · intro h
    have hr := reads_decode hcode hcount hf h received [] hm (by rw [hu, List.append_nil])
    exact ⟨_, _, hr, namesKept_respell requestHeaders r.headers⟩

theorem Reply.namesKept_decode_iff {status : UInt16} {reason : Option String}
    {headers : List (String × String)} {received : Buffer}
    (hf : (sendHeaders status reason headers).payload.length ≤ 0xFFFF) (hm : received.WellFormed)
    (hu : received.unread = (sendHeaders status reason headers).payload) :
    (∃ decoded final, decode.run received = (.ok (.sendHeaders status reason decoded), final) ∧
        NamesKept responseHeaders headers decoded) ↔
      ∀ h ∈ headers, ¬ LooksCoded responseHeaders h.1 := by
  have hleads := leads_decode hf
  rw [payload_sendHeaders] at hf hu
  rw [List.length_append] at hf
  constructor
  · rintro ⟨decoded, final, hr, hk⟩
    rw [← List.append_nil (Wire.headers _ _)] at hu
    rw [hleads received _ hm hu] at hr
    obtain ⟨hm', hu'⟩ := hm.advance_of_unread hu
    obtain ⟨headers', m₁, hheaders, hr⟩ := run_bind_eq_ok_iff.1 hr
    cases hr
    exact not_looksCoded_of_namesKept (fun value hv => reads_readValue hv) (by decide) (by omega)
      hm' hu' hheaders hk
  · intro h
    have hheaders := reads_decodeHeaders (fun value hv => reads_readValue hv) (by decide)
      (by omega) h
    have hr := hleads.reads (hheaders.bind_pure (f := Reply.sendHeaders status reason)) received []
      hm (by rw [hu, List.append_nil])
    exact ⟨_, _, hr, namesKept_respell responseHeaders headers⟩

/-- **The names of a message come back exactly if none looks coded**, wherever it is received. -/
theorem namesKept_iff {m sent : Buffer} (hc : m.capacity ≤ largestSize) :
    (∀ r : ForwardRequest, r.encode.run m = (.ok (), sent) →
      ∀ (s : Stream) (b : Buffer) (more : Bytes), s.available = sent.frame ++ more →
        sent.len ≤ b.capacity →
        ∃ received s',
          receive s b toContainer = (.ok sent.payloadSize, received, s', sent.len) ∧
          ((∃ decoded final, ForwardRequest.decode.run received = (.ok decoded, final) ∧
              NamesKept requestHeaders r.headers decoded.headers) ↔
            ∀ h ∈ r.headers, ¬ LooksCoded requestHeaders h.1)) ∧
    ∀ status reason headers,
      (Reply.sendHeaders status reason headers).encode.run m = (.ok (), sent) →
      ∀ (s : Stream) (b : Buffer) (more : Bytes), s.available = sent.frame ++ more →
        sent.len ≤ b.capacity →
        ∃ received s',
          receive s b fromContainer = (.ok sent.payloadSize, received, s', sent.len) ∧
          ((∃ decoded final,
              Reply.decode.run received = (.ok (.sendHeaders status reason decoded), final) ∧
              NamesKept responseHeaders headers decoded) ↔
            ∀ h ∈ headers, ¬ LooksCoded responseHeaders h.1) := by
  have hlimits : largestSize = 0x10000 ∧ headerSize = 4 := ⟨rfl, rfl⟩
  constructor
  · intro r h s b more hs hb
    obtain ⟨code, hcode, hcount, hfits, rfl⟩ := ForwardRequest.eq_of_run_encode hc h
    obtain ⟨received, s', hreceive, hwf, hunread, -⟩ := receive_message hc hfits hs hb
    exact ⟨received, s', hreceive,
      ForwardRequest.namesKept_decode_iff hcode hcount (by omega) hwf hunread⟩
  · intro status reason headers h s b more hs hb
    obtain ⟨hfits, rfl⟩ := Reply.eq_of_run_encode hc h
    obtain ⟨received, s', hreceive, hwf, hunread, -⟩ := receive_message hc hfits hs hb
    exact ⟨received, s', hreceive, Reply.namesKept_decode_iff (by omega) hwf hunread⟩

/-- A name of `n` letters. -/
def longName (n : Nat) : String := String.ofList (List.replicate n 'a')

theorem utf8ByteSize_longName (n : Nat) : (longName n).utf8ByteSize = n := by
  unfold longName
  induction n with
  | zero => rfl
  | succ n ih =>
    rw [List.replicate_succ, String.ofList_cons, String.utf8ByteSize_append, ih,
      String.utf8ByteSize_singleton]
    show 1 + n = n + 1
    omega

/-- The names with codes are short. -/
theorem headerCode?_longName {table : List String} {n : Nat}
    (h : ∀ s ∈ table, s.toList.length < n) : headerCode? table (longName n) = none := by
  unfold headerCode?
  rw [Option.map_eq_none_iff, List.findIdx?_eq_none_iff]
  intro s hs
  have hlt := h s hs
  rw [Text.sameIgnoringCase, beq_eq_false_iff_ne]
  intro heq
  have hl := congrArg List.length heq
  rw [List.length_map, List.length_map, longName, String.toList_ofList, List.length_replicate] at hl
  omega

/-- A request with a header name of `0xA001` bytes, the code of `accept`. -/
def longNamed : ForwardRequest where
  method := "GET"
  protocol := "HTTP/1.1"
  uri := "/"
  remoteAddr := "10.0.0.7"
  remoteHost := none
  serverName := "www"
  serverPort := 80
  isSsl := false
  headers := [(longName 0xA001, "v")]
  attributes := []

/-- A name of `0xA001` letters, the code of the first header of either table. -/
theorem looksCoded_longName {table : List String} (h : ∀ s ∈ table, s.toList.length < 0xA001) :
    LooksCoded table (longName 0xA001) := by
  refine ⟨headerCode?_longName h, ?_, ?_⟩
  · rw [utf8ByteSize_longName]
    decide
  · rw [utf8ByteSize_longName]
    decide

theorem length_headers_longName {table : List String} (h : LooksCoded table (longName 0xA001)) :
    (Wire.headers table [(longName 0xA001, "v")]).length = 0xA001 + 3 + 4 := by
  have hname : (Wire.headerName table (longName 0xA001)).length = 0xA001 + 3 := by
    rw [Wire.headerName, h.1, Wire.length_text, utf8ByteSize_longName]
  have hvalue : (Wire.text "v").length = 4 := by decide
  rw [Wire.headers, Wire.headers, List.append_nil, List.length_append, hname, hvalue]

/-- A request and a reply lose the name `longName 0xA001`. -/
theorem longName_lost :
    (∃ sent, longNamed.encode.run (new largestSize) = (.ok (), sent) ∧
      ∀ (s : Stream) (b : Buffer) (more : Bytes), s.available = sent.frame ++ more →
        sent.len ≤ b.capacity →
        ∃ received s',
          receive s b toContainer = (.ok sent.payloadSize, received, s', sent.len) ∧
          ¬ ∃ decoded final, ForwardRequest.decode.run received = (.ok decoded, final) ∧
              NamesKept requestHeaders longNamed.headers decoded.headers) ∧
    ∃ sent, (Reply.sendHeaders 200 none [(longName 0xA001, "v")]).encode.run (new largestSize) =
        (.ok (), sent) ∧
      ∀ (s : Stream) (b : Buffer) (more : Bytes), s.available = sent.frame ++ more →
        sent.len ≤ b.capacity →
        ∃ received s',
          receive s b fromContainer = (.ok sent.payloadSize, received, s', sent.len) ∧
          ¬ ∃ decoded final,
              Reply.decode.run received = (.ok (.sendHeaders 200 none decoded), final) ∧
              NamesKept responseHeaders [(longName 0xA001, "v")] decoded := by
  have hcapacity : (new largestSize).capacity = 0x10000 := by
    rw [capacity_new]
    rfl
  have hsmall : (new largestSize).capacity ≤ largestSize := Nat.le_of_eq hcapacity
  have hroom : ∀ {n k : Nat}, n ≤ 100 → k ≤ 50000 →
      headerSize + (n + k) ≤ (new largestSize).capacity := by
    intro n k hn hk
    have hheader : headerSize = 4 := rfl
    omega
  have hrequest : LooksCoded requestHeaders (longName 0xA001) := looksCoded_longName (by decide)
  have hresponse : LooksCoded responseHeaders (longName 0xA001) := looksCoded_longName (by decide)
  constructor
  · have hfits : headerSize + (longNamed.payload 2).length ≤ (new largestSize).capacity := by
      have hlead : (longNamed.leading 2).length ≤ 100 := by decide
      have hheaders : (Wire.headers requestHeaders longNamed.headers).length = _ :=
        length_headers_longName hrequest
      have hend : (Wire.attributes longNamed.attributes ++ [Attribute.endCode]).length = 1 := rfl
      rw [ForwardRequest.payload, List.length_append, List.length_append, hheaders, hend]
      exact hroom hlead (by decide)
    have hencode := ForwardRequest.run_encode (r := longNamed) (by decide) (by decide) hsmall hfits
    refine ⟨_, hencode, fun s b more hs hb => ?_⟩
    obtain ⟨received, s', hreceive, hiff⟩ :=
      (namesKept_iff hsmall).1 longNamed hencode s b more hs hb
    exact ⟨received, s', hreceive, fun hk =>
      hiff.1 hk (longName 0xA001, "v") List.mem_cons_self hrequest⟩
  · have hfits : headerSize + (Reply.sendHeaders 200 none [(longName 0xA001, "v")]).payload.length ≤
        (new largestSize).capacity := by
      have hlead : (Reply.leading 200 none [(longName 0xA001, "v")]).length ≤ 100 := by decide
      rw [Reply.payload_sendHeaders, List.length_append, length_headers_longName hresponse]
      exact hroom hlead (by decide)
    have hencode := Reply.run_encode hsmall hfits
    refine ⟨_, hencode, fun s b more hs hb => ?_⟩
    obtain ⟨received, s', hreceive, hiff⟩ :=
      (namesKept_iff hsmall).2 200 none [(longName 0xA001, "v")] hencode s b more hs hb
    exact ⟨received, s', hreceive, fun hk =>
      hiff.1 hk (longName 0xA001, "v") List.mem_cons_self hresponse⟩

end AjpGateway.Packet
