import AjpGateway.Proofs.Packet.Reading
import AjpGateway.Proofs.Packet.Reply

/-!
# What a packet says

A buffer is used for one packet after another, and a short packet leaves the end of a longer one
behind it in the storage.  Reading does not see it, so the reply in a received packet is one of its
payload.

    m.pos = headerSize → (decode.run m).1 = Reply.ofPayload m.unread               (decode_eq)
    Reply.ofPayload payload = .ok reply → payload.head? = some reply.messageType.code
                                                                           (head?_of_ofPayload)
-/

namespace AjpGateway.Packet

open Buffer

namespace Reply

/-- A reply is read off its packet; whether a flag is there goes by how much is left. -/
theorem perusal_decode : Perusal True decode := by
  unfold decode
  refine Perusal.readByte.bind fun code => ?_
  rcases MessageType.ofCode? code with _ | type
  · exact Perusal.throw _
  · cases type with
    | sendHeaders =>
      exact Perusal.readWord.bind fun _ => Perusal.readText?.bind fun _ => Perusal.readWord.bind
        fun count => (perusal_decodeHeaders _ (Perusal.readText?.bind fun _ => Perusal.pure _)
          count.toNat).bind fun _ => Perusal.pure _
    | sendBodyChunk =>
      exact Perusal.readWord.bind fun size => (Perusal.take size.toNat).bind fun _ => Perusal.pure _
    | getBodyChunk => exact Perusal.readWord.bind fun _ => Perusal.pure _
    | endResponse =>
      refine Perusal.remaining (f := fun k => if 0 < k then _ else _) trivial fun k => ?_
      by_cases hk : 0 < k
      · rw [if_pos hk]
        exact Perusal.readByte.bind fun _ => Perusal.pure _
      · rw [if_neg hk]
        exact Perusal.pure _
    | pong => exact Perusal.pure _
    | forwardRequest => exact Perusal.throw _
    | shutdown => exact Perusal.throw _
    | ping => exact Perusal.throw _

/-- The reply that a payload says. -/
def ofPayload (payload : Bytes) : Except PacketError Reply := (decode.run (holding payload)).1

/-- The reply in a received packet is that of its payload. -/
theorem decode_eq {m : Buffer} (hm : m.WellFormed) (hp : m.pos = headerSize) :
    (decode.run m).1 = ofPayload m.unread := by
  have hl : m.len = headerSize + m.unread.length := by
    have hle := hm.pos_le_len
    rw [hm.length_unread]
    omega
  exact perusal_decode.alike ⟨hm, wellFormed_holding _, hp, hl, (unread_holding _).symm⟩

/-! ## The type of a reply -/

theorem run_readByte_holding (code : UInt8) (rest : Bytes) :
    ∃ m, readByte.run (holding (code :: rest)) = (.ok code, m) ∧ m.WellFormed ∧
      m.unread = rest := by
  have hu := unread_holding (code :: rest)
  have hroom : 1 ≤ (holding (code :: rest)).unread.length := by
    rw [hu]
    exact Nat.le_add_left ..
  refine ⟨_, reads_readByte code _ rest (wellFormed_holding _) hu,
    (wellFormed_holding _).advance hroom, ?_⟩
  rw [unread_advance, hu]
  rfl

/-- The first byte says the type of the reply. -/
theorem head?_of_ofPayload {payload : Bytes} {reply : Reply} (h : ofPayload payload = .ok reply) :
    payload.head? = some reply.messageType.code := by
  unfold ofPayload at h
  rcases hrun : decode.run (holding payload) with ⟨r, m⟩
  rw [hrun] at h
  obtain rfl : r = .ok reply := h
  unfold decode at hrun
  obtain ⟨code, u, hbyte, hrun⟩ := run_bind_eq_ok_iff.1 hrun
  have hhead : payload.head? = some code := by
    cases payload with
    | nil => cases hbyte
    | cons c rest =>
      obtain ⟨v, hc, -⟩ := run_readByte_holding c rest
      rw [hc] at hbyte
      cases hbyte
      rfl
  rw [hhead]
  cases ht : MessageType.ofCode? code with
  | none =>
    rw [ht] at hrun
    cases hrun
  | some type =>
    have hcode : type.code = code := by simpa using List.find?_some ht
    rw [ht] at hrun
    rw [← hcode]
    cases type with
    | sendHeaders =>
      simp only [run_bind_eq_ok_iff] at hrun
      obtain ⟨_, _, -, _, _, -, _, _, -, _, _, -, hrun⟩ := hrun
      cases hrun
      rfl
    | sendBodyChunk =>
      simp only [run_bind_eq_ok_iff] at hrun
      obtain ⟨_, _, -, _, _, -, hrun⟩ := hrun
      cases hrun
      rfl
    | getBodyChunk =>
      obtain ⟨_, _, -, hrun⟩ := run_bind_eq_ok_iff.1 hrun
      cases hrun
      rfl
    | endResponse =>
      obtain ⟨v, _, -, hrun⟩ := run_bind_eq_ok_iff.1 hrun
      by_cases hv : 0 < v.remaining
      · rw [if_pos hv] at hrun
        obtain ⟨_, _, -, hrun⟩ := run_bind_eq_ok_iff.1 hrun
        cases hrun
        rfl
      · rw [if_neg hv] at hrun
        cases hrun
        rfl
    | pong =>
      cases hrun
      rfl
    | forwardRequest => cases hrun
    | shutdown => cases hrun
    | ping => cases hrun

/-- The byte after the type says whether the connection may be kept; a missing one says no. -/
theorem ofPayload_endResponse (rest : Bytes) :
    ofPayload (MessageType.endResponse.code :: rest) =
      .ok (.endResponse (rest.head? == some 1)) := by
  cases rest with
  | nil => rfl
  | cons flag rest =>
    obtain ⟨m, hbyte, hm, hu⟩ := run_readByte_holding MessageType.endResponse.code (flag :: rest)
    have hsome : 0 < m.remaining := by
      have hl := hm.length_unread
      rw [hu] at hl
      exact Nat.lt_of_lt_of_eq (Nat.succ_pos _) hl
    unfold ofPayload decode
    rw [run_bind_of_ok hbyte, MessageType.ofCode?_code]
    dsimp only
    rw [run_bind_of_ok (run_get m), if_pos hsome, run_bind_of_ok (reads_readByte flag m rest hm hu)]
    rfl

/-- **An end of the response** is of this form. -/
theorem ofPayload_eq_endResponse_iff {payload : Bytes} {reuse : Bool} :
    ofPayload payload = .ok (.endResponse reuse) ↔
      ∃ rest, payload = MessageType.endResponse.code :: rest ∧ reuse = (rest.head? == some 1) := by
  constructor
  · intro h
    have hhead := head?_of_ofPayload h
    cases payload with
    | nil => cases hhead
    | cons code rest =>
      obtain rfl : code = MessageType.endResponse.code := Option.some.inj hhead
      rw [ofPayload_endResponse] at h
      cases h
      exact ⟨rest, rfl, rfl⟩
  · rintro ⟨rest, rfl, rfl⟩
    exact ofPayload_endResponse rest

end Reply

end AjpGateway.Packet
