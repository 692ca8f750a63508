import AjpGateway.Proofs.Packet.Attributes
import AjpGateway.Proofs.Packet.Receiving

/-!
# What a packet can make of itself

A packet is read within its bounds, whatever it announces.  Reading ends, each step leaves the
read position within the packet, and nothing beside the packet counts.  Each header and attribute
that was read has taken its share of the payload, and so has each byte of a body, so there are no
more of them than the payload holds.

    Perusal True act → m.WellFormed → Confined act m                      (Perusal.confined)
    Takes ForwardRequest.decode fun r =>
      4 * r.headers.length + 3 * r.attributes.length                      (takes_decode)
    what is received is confined to its payload                           (confined_received)
-/

namespace AjpGateway.Packet

open Buffer

/-! ## Bounds -/

/-- `v` is `m`, read up to some place within its packet. -/
structure Buffer.InPacket (m v : Buffer) : Prop where
  storage : v.storage = m.storage
  len : v.len = m.len
  header_le_pos : headerSize ≤ v.pos
  pos_le_len : v.pos ≤ m.len

theorem Buffer.Ahead.inPacket {m v : Buffer} (h : m.Ahead v) (hm : m.WellFormed) :
    m.InPacket v where
  storage := h.storage
  len := h.len
  header_le_pos := Nat.le_trans hm.header_le_pos h.pos_le
  pos_le_len := h.len ▸ h.within hm.pos_le_len

/-- `act` only reads the packet in `m`: it stays within it, at every step and at last, and says of
each buffer with the same packet what it says of `m`. -/
structure Confined {α : Type} (act : Marshal α) (m : Buffer) : Prop where
  steps : ∃ stops, Reading True act stops ∧ ∀ v ∈ stops m, m.InPacket v
  last : m.InPacket (act.run m).2
  alike : ∀ n, m.Alike n → (act.run n).1 = (act.run m).1

theorem Perusal.confined {α : Type} {act : Marshal α} {m : Buffer} (h : Perusal True act)
    (hm : m.WellFormed) : Confined act m where
  steps :=
    let ⟨stops, hr⟩ := h
    ⟨stops, hr, fun v hv => ((hr.ahead m).2 v hv).inPacket hm⟩
  last := (h.ahead m).inPacket hm
  alike _ hn := (h.alike hn).symm

/-! ## Shares of the payload -/

section
variable {α β : Type}

/-- A result of `act` has taken so many bytes of the packet at least. -/
def Takes (act : Marshal α) (share : α → Nat) : Prop :=
  ∀ m a v, act.run m = (.ok a, v) → m.pos + share a ≤ v.pos

theorem Takes.pure {share : α → Nat} {a : α} (h : share a = 0) :
    Takes (pure a : Marshal α) share := by
  intro m a' v hrun
  cases hrun
  exact Nat.le_of_eq (congrArg (m.pos + ·) h)

theorem Takes.throw (share : α → Nat) (e : PacketError) :
    Takes (throw e : Marshal α) share := by
  intro m a v hrun
  cases hrun

theorem Perusal.takes {act : Marshal α} (h : Perusal True act) : Takes act fun _ => 0 := by
  intro m a v hrun
  have hv := h.ahead m
  rw [hrun] at hv
  exact hv.pos_le

/-- What follows gives nothing back. -/
theorem Takes.followed {act : Marshal α} {f : α → Marshal β} {n : Nat}
    (ha : Takes act fun _ => n) (hf : ∀ a, Perusal True (f a)) :
    Takes (act >>= f) fun _ => n := by
  intro m b v hrun
  obtain ⟨a, u, hact, hrun⟩ := run_bind_eq_ok_iff.1 hrun
  exact Nat.le_trans (ha m a u hact) ((hf a).takes u b v hrun)

/-- What goes before gives nothing back. -/
theorem Takes.preceded {act : Marshal α} {f : α → Marshal β} {share : β → Nat}
    (ha : Perusal True act) (hf : ∀ a, Takes (f a) share) : Takes (act >>= f) share := by
  intro m b v hrun
  obtain ⟨a, u, hact, hrun⟩ := run_bind_eq_ok_iff.1 hrun
  have hpos : m.pos ≤ u.pos := ha.takes m a u hact
  exact Nat.le_trans (Nat.add_le_add_right hpos _) (hf a u b v hrun)

/-- What the last step makes of a result has no larger share. -/
theorem Takes.bind_pure {act : Marshal α} {f : α → β} {first : α → Nat} {share : β → Nat}
    (ha : Takes act first) (h : ∀ a, share (f a) ≤ first a) :
    Takes (act >>= fun a => Pure.pure (f a)) share := by
  intro m b v hrun
  obtain ⟨a, u, hact, hrun⟩ := run_bind_eq_ok_iff.1 hrun
  cases hrun
  exact Nat.le_trans (Nat.add_le_add_left (h a) _) (ha m a v hact)

theorem takes_take (n : Nat) : Takes (take n) fun _ => n := by
  intro m a v hrun
  by_cases hn : m.len < m.pos + n
  · rw [run_take_of_lt hn] at hrun
    cases hrun
  · rw [run_take_of_le hn] at hrun
    cases hrun
    exact Nat.le_refl _

/-- Data is no longer than what was taken for it. -/
theorem takes_data (n : Nat) : Takes (take n) List.length := by
  intro m a v hrun
  have htook := takes_take n m a v hrun
  by_cases hn : m.len < m.pos + n
  · rw [run_take_of_lt hn] at hrun
    cases hrun
  · rw [run_take_of_le hn] at hrun
    cases hrun
    exact Nat.le_trans (Nat.add_le_add_left (List.length_take_le ..) _) htook

theorem takes_readByte : Takes readByte fun _ => 1 := (takes_take 1).bind_pure fun _ => Nat.le_refl _

theorem takes_readWord : Takes readWord fun _ => 2 := (takes_take 2).bind_pure fun _ => Nat.le_refl _

/-- A text, also an absent one, has a length. -/
theorem takes_readText? : Takes readText? fun _ => 2 := by
  intro m a v hrun
  by_cases h2 : m.len < m.pos + 2
  · rw [run_readText?_of_lt h2] at hrun
    cases hrun
  · rw [run_readText?_of_le h2] at hrun
    dsimp only at hrun
    split at hrun
    · cases hrun
      exact Nat.le_refl _
    · split at hrun
      · cases hrun
      · cases hrun
        exact Nat.add_le_add_left (Nat.le_trans (by decide : 2 ≤ 3) (Nat.le_add_left ..)) _

theorem takes_readText (field : String) : Takes (readText field) fun _ => 2 := by
  refine takes_readText?.followed fun s => ?_
  cases s with
  | none => exact Perusal.throw _
  | some s => exact Perusal.pure s

end

/-! ## Headers and attributes -/

theorem takes_decodeHeaderName (table : List String) :
    Takes (decodeHeaderName table) fun _ => 2 := by
  unfold decodeHeaderName
  refine Takes.preceded Perusal.peekWord fun w => ?_
  by_cases hw : isCodedHeader w = true
  · simp only [if_pos hw]
    refine takes_readWord.followed fun code => ?_
    cases headerName? table code with
    | none => exact Perusal.throw _
    | some name => exact Perusal.pure name
  · simp only [if_neg hw]
    exact takes_readText _

/-- A header takes two bytes for its name and two for its value. -/
theorem takes_decodeHeaders (table : List String) {readValue : Marshal String}
    (hv : Takes readValue fun _ => 2) (n : Nat) :
    Takes (decodeHeaders table readValue n) fun headers => 4 * headers.length := by
  induction n with
  | zero => exact Takes.pure rfl
  | succ n ih =>
    intro m headers v hrun
    unfold decodeHeaders at hrun
    simp only [run_bind_eq_ok_iff] at hrun
    obtain ⟨name, m₁, hname, value, m₂, hvalue, rest, m₃, hrest, hrun⟩ := hrun
    cases hrun
    have h₁ : m.pos + 2 ≤ m₁.pos := takes_decodeHeaderName table _ _ _ hname
    have h₂ : m₁.pos + 2 ≤ m₂.pos := hv _ _ _ hvalue
    have h₃ : m₂.pos + 4 * rest.length ≤ v.pos := ih _ _ _ hrest
    show m.pos + 4 * (rest.length + 1) ≤ v.pos
    omega

/-- What follows the code of an attribute takes two bytes. -/
theorem takes_attribute (code : UInt8) : Takes (Attribute.decode code) fun _ => 2 := by
  unfold Attribute.decode
  split
  · exact (takes_readText _).bind_pure fun _ => Nat.le_refl _
  · split
    · refine Takes.preceded (Perusal.readText _) fun _ => ?_
      exact (takes_readText _).bind_pure fun _ => Nat.le_refl _
    · split
      · exact takes_readWord.bind_pure fun _ => Nat.le_refl _
      · exact Takes.throw _ _

namespace ForwardRequest

/-- Every turn that finds an attribute takes a byte for its code, and what follows it. -/
theorem takes_attributesRead {m v : Buffer} {attributes : List Attribute}
    (h : AttributesRead m (.ok attributes, v)) : m.pos + 3 * attributes.length ≤ v.pos := by
  generalize hout : (Except.ok attributes, v) = out at h
  induction h generalizing attributes with
  | missing hb => cases hout
  | ended hb =>
    cases hout
    exact Nat.le_trans (Nat.le_add_right _ 1) (takes_readByte _ _ _ hb)
  | broken hb hcode ha => cases hout
  | @next m u w v code a result hb hcode ha _ ih =>
    cases result with
    | error e => cases hout
    | ok rest =>
      cases hout
      have h₁ : m.pos + 1 ≤ u.pos := takes_readByte _ _ _ hb
      have h₂ : u.pos + 2 ≤ w.pos := takes_attribute _ _ _ _ ha
      have h₃ := ih rfl
      rw [List.length_cons]
      omega

theorem takes_decodeFields : Takes decodeFields fun r => 4 * r.headers.length := by
  unfold decodeFields
  refine Takes.preceded Perusal.readByte fun kind => ?_
  split
  · show Takes (throw (PacketError.unexpectedMessage kind) : Marshal ForwardRequest) _
    exact Takes.throw _ _
  refine Takes.preceded Perusal.readByte fun code => ?_
  cases methodName? code with
  | none => exact Takes.throw _ _
  | some method =>
    refine Takes.preceded (Perusal.readText _) fun _ => ?_
    refine Takes.preceded (Perusal.readText _) fun _ => ?_
    refine Takes.preceded (Perusal.readText _) fun _ => ?_
    refine Takes.preceded Perusal.readText? fun _ => ?_
    refine Takes.preceded (Perusal.readText _) fun _ => ?_
    refine Takes.preceded Perusal.readWord fun _ => ?_
    refine Takes.preceded Perusal.readByte fun _ => ?_
    refine Takes.preceded Perusal.readWord fun count => ?_
    exact (takes_decodeHeaders _ (takes_readText _) count.toNat).bind_pure fun _ => Nat.le_refl _

theorem takes_decode :
    Takes decode fun r => 4 * r.headers.length + 3 * r.attributes.length := by
  intro m r v hrun
  generalize hout : (Except.ok r, v) = out at hrun
  cases requestRead_iff.2 hrun with
  | broken hr => cases hout
  | @fields u v fields result hr ha =>
    cases result with
    | error e => cases hout
    | ok attributes =>
      cases hout
      have h₁ : m.pos + 4 * fields.headers.length ≤ u.pos := takes_decodeFields _ _ _ hr
      have h₂ := takes_attributesRead ha
      show _ + (4 * fields.headers.length + 3 * attributes.length) ≤ _
      omega

end ForwardRequest

namespace Reply

/-- The share that headers and body data have in the payload. -/
def share : Reply → Nat
  | sendHeaders _ _ headers => 4 * headers.length
  | sendBody data => data.length
  | _ => 0

theorem takes_readValue : Takes readValue fun _ => 2 :=
  takes_readText?.bind_pure fun _ => Nat.le_refl _

theorem takes_decode : Takes decode share := by
  unfold decode
  refine Takes.preceded Perusal.readByte fun code => ?_
  rcases MessageType.ofCode? code with _ | type
  · exact Takes.throw _ _
  · cases type with
    | sendHeaders =>
      refine Takes.preceded Perusal.readWord fun _ => ?_
      refine Takes.preceded Perusal.readText? fun _ => ?_
      refine Takes.preceded Perusal.readWord fun count => ?_
      exact (takes_decodeHeaders _ takes_readValue count.toNat).bind_pure fun _ => Nat.le_refl _
    | sendBodyChunk =>
      refine Takes.preceded Perusal.readWord fun size => ?_
      exact (takes_data size.toNat).bind_pure fun _ => Nat.le_refl _
    | getBodyChunk => exact Perusal.readWord.takes.bind_pure fun _ => Nat.le_refl _
    | endResponse =>
      intro m reply v hrun
      rw [run_bind_of_ok (run_get m)] at hrun
      split at hrun
      · have hflag : Takes (do return Reply.endResponse ((← readByte) == 1)) share :=
          Perusal.readByte.takes.bind_pure fun _ => Nat.le_refl _
        exact hflag m reply v hrun
      · cases hrun
        exact Nat.le_refl _
    | pong => exact Takes.pure rfl
    | forwardRequest => exact Takes.throw _ _
    | shutdown => exact Takes.throw _ _
    | ping => exact Takes.throw _ _

end Reply

/-! ## Received packets -/

/-- No result has a larger share than the payload. -/
theorem Takes.share_le {α : Type} {act : Marshal α} {share : α → Nat} {m v : Buffer} {a : α}
    (h : Takes act share) (hm : Confined act m) (hp : m.pos = headerSize)
    (hrun : act.run m = (.ok a, v)) : share a ≤ m.payloadSize := by
  have htook := h m a v hrun
  have hend := hm.last.pos_le_len
  rw [hrun] at hend
  rw [hp] at htook
  dsimp only at hend
  unfold payloadSize
  omega

/-- **What is received is confined to its payload**, whoever sent it, as a request and as a reply.
Reading ends; no step leaves the packet or goes by a byte outside it; and what is read of headers,
attributes and body data is no more than the payload holds, whatever was announced. -/
theorem confined_received {s s' : Stream} {b m : Buffer} {magic : UInt16} {n count : Nat}
    (hb : headerSize ≤ b.capacity) (h : receive s b magic = (.ok n, m, s', count)) :
    m.payloadSize = n ∧ Confined ForwardRequest.decode m ∧ Confined Reply.decode m ∧
      (∀ out, ForwardRequest.RequestRead m out ↔ ForwardRequest.decode.run m = out) ∧
      (∀ r v, ForwardRequest.decode.run m = (.ok r, v) →
        4 * r.headers.length + 3 * r.attributes.length ≤ n) ∧
      ∀ reply v, Reply.decode.run m = (.ok reply, v) →
        4 * reply.headers.length ≤ n ∧ ∀ data, reply = .sendBody data → data.length ≤ n := by
  have hsize := payloadSize_of_receive hb h
  obtain ⟨-, -, -, -, hwf, hpos, -, -⟩ := of_receive hb h
  have hrequest := ForwardRequest.perusal_decode.confined hwf
  have hreply := Reply.perusal_decode.confined hwf
  refine ⟨hsize, hrequest, hreply, fun _ => ForwardRequest.requestRead_iff, fun r v hrun => ?_,
    fun reply v hrun => ?_⟩
  · rw [← hsize]
    exact ForwardRequest.takes_decode.share_le hrequest hpos hrun
  · have hshare := Reply.takes_decode.share_le hreply hpos hrun
    rw [hsize] at hshare
    constructor
    · cases reply with
      | sendHeaders status reason headers => exact hshare
      | _ => exact Nat.zero_le _
    · rintro data rfl
      exact hshare

/-- A piece of a body of one byte, with two more behind it. -/
def padded : Bytes := [MessageType.sendBodyChunk.code, 0, 1, 7, 0xFF, 0xFF]

theorem confined_received_padded :
    ∃ m s' count, receive { reads := [.data (Wire.packet fromContainer padded)] } (new 16)
        fromContainer = (.ok 6, m, s', count) ∧
      (Reply.decode.run m).1 = .ok (.sendBody [7]) ∧
      m.payloadSize = 6 ∧ Confined ForwardRequest.decode m ∧ Confined Reply.decode m ∧
      (∀ out, ForwardRequest.RequestRead m out ↔ ForwardRequest.decode.run m = out) ∧
      (∀ r v, ForwardRequest.decode.run m = (.ok r, v) →
        4 * r.headers.length + 3 * r.attributes.length ≤ 6) ∧
      ∀ reply v, Reply.decode.run m = (.ok reply, v) →
        4 * reply.headers.length ≤ 6 ∧ ∀ data, reply = .sendBody data → data.length ≤ 6 := by
  have hroom : headerSize + padded.length ≤ (new 16).capacity := by
    rw [capacity_new]
    decide
  have hs : ({ reads := [.data (Wire.packet fromContainer padded)] } : Stream).available =
      Wire.packet fromContainer padded ++ [] := by decide
  obtain ⟨s', hreceive, -⟩ := receive_packet hs (by decide) hroom
  exact ⟨_, s', _, hreceive, by rfl,
    confined_received (Nat.le_trans (Nat.le_add_right ..) hroom) hreceive⟩

end AjpGateway.Packet
