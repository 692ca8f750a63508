import AjpGateway.Proofs.Packet.Attributes

/-!
# Requests cut short

A packet whose end is missing is read as the whole one is, until a step asks for more than is
there.  So what is read of it is either what is read of the whole, from no more than was left of it,
or it runs out.  A request that was written is read to its last byte, and then only the second can
be.

    Reading False act stops → Cut n m →
      Overflows (act.run n) ∨ (act.run n).1 = (act.run m).1 ∧ Cut (act.run n).2 (act.run m).2
                                                                                (Reading.cut)
    no proper prefix of the payload of a request is read as a request   (overflows_of_truncated)
-/

namespace AjpGateway.Packet

open Buffer

namespace Buffer

/-- `n` holds the first bytes of the packet that `m` holds, and both are read up to the same
place. -/
structure Cut (n m : Buffer) : Prop where
  left : n.WellFormed
  right : m.WellFormed
  pos : n.pos = m.pos
  unread : n.unread <+: m.unread

section
variable {n m : Buffer} {k : Nat}

theorem Cut.len_le (h : n.Cut m) : n.len ≤ m.len := by
  have hlength := h.unread.length_le
  have hleft := h.left.pos_le_len
  have hright := h.right.pos_le_len
  have hpos := h.pos
  rw [h.left.length_unread, h.right.length_unread] at hlength
  omega

/-- What is there of the part is there of the whole. -/
theorem Cut.enough (h : n.Cut m) (hk : ¬ n.len < n.pos + k) : ¬ m.len < m.pos + k := by
  have hlen := h.len_le
  have hpos := h.pos
  omega

theorem Cut.length (h : n.Cut m) (hk : ¬ n.len < n.pos + k) : k ≤ n.unread.length := by
  rw [h.left.length_unread]
  omega

theorem Cut.take (h : n.Cut m) (hk : ¬ n.len < n.pos + k) :
    n.unread.take k = m.unread.take k := by
  obtain ⟨rest, hrest⟩ := h.unread
  rw [← hrest, List.take_append_of_le_length (h.length hk)]

theorem Cut.advance (h : n.Cut m) (hk : ¬ n.len < n.pos + k) :
    (n.advance k).Cut (m.advance k) where
  left := h.left.advance (h.length hk)
  right := h.right.advance (Nat.le_trans (h.length hk) h.unread.length_le)
  pos := congrArg (· + k) h.pos
  unread := by
    obtain ⟨rest, hrest⟩ := h.unread
    rw [unread_advance, unread_advance, ← hrest, List.drop_append_of_le_length (h.length hk)]
    exact List.prefix_append ..

end

end Buffer

/-- More was to be read than there was. -/
def Overflows {α : Type} (out : Except PacketError α × Buffer) : Prop :=
  ∃ offset needed limit, out.1 = .error (.overflow offset needed limit)

section
variable {α : Type} {n m : Buffer}

/-- **A packet cut short runs out or is read as the whole one.** -/
theorem Reading.cut {act : Marshal α} {stops : Buffer → List Buffer} (h : Reading False act stops)
    (hc : n.Cut m) :
    Overflows (act.run n) ∨ (act.run n).1 = (act.run m).1 ∧ (act.run n).2.Cut (act.run m).2 := by
  induction h generalizing n m with
  | pure a => exact .inr ⟨rfl, hc⟩
  | throw e => exact .inr ⟨rfl, hc⟩
  | peek k =>
    by_cases hk : n.len < n.pos + k
    · rw [run_peek_of_lt hk]
      exact .inl ⟨_, _, _, rfl⟩
    · rw [run_peek_of_le hk, run_peek_of_le (hc.enough hk), hc.take hk]
      exact .inr ⟨rfl, hc⟩
  | take k =>
    by_cases hk : n.len < n.pos + k
    · rw [run_take_of_lt hk]
      exact .inl ⟨_, _, _, rfl⟩
    · rw [run_take_of_le hk, run_take_of_le (hc.enough hk), hc.take hk]
      exact .inr ⟨rfl, hc.advance hk⟩
  | text =>
    by_cases h2 : n.len < n.pos + 2
    · rw [run_readText?_of_lt h2]
      exact .inl ⟨_, _, _, rfl⟩
    · rw [run_readText?_of_le h2, run_readText?_of_le (hc.enough h2), hc.take h2]
      dsimp only
      split
      · exact .inr ⟨rfl, hc.advance h2⟩
      · generalize (wordOf (m.unread.take 2)).toNat = j
        by_cases hj : n.len < n.pos + (j + 3)
        · rw [if_pos hj]
          exact .inl ⟨_, _, _, rfl⟩
        · -- the text is there to its end
          have hbytes : (n.unread.drop 2).take j = (m.unread.drop 2).take j := by
            have hrest := (hc.advance h2).take (k := j) (by
              show ¬ n.len < n.pos + 2 + j
              omega)
            rwa [unread_advance, unread_advance] at hrest
          rw [if_neg hj, if_neg (hc.enough hj), hbytes]
          exact .inr ⟨rfl, hc.advance hj⟩
  | remaining hs _ _ => exact hs.elim
  | @bind _ _ act f _ _ _ _ iha ihf =>
    rw [run_bind, run_bind]
    rcases iha hc with ⟨offset, needed, limit, ha⟩ | ⟨hresult, hleft⟩
    · rcases hn : act.run n with ⟨r, n'⟩
      rw [hn] at ha
      obtain rfl : r = _ := ha
      exact .inl ⟨_, _, _, rfl⟩
    · rcases hn : act.run n with ⟨r, n'⟩
      rcases hm : act.run m with ⟨r', m'⟩
      rw [hn, hm] at hresult hleft
      obtain rfl : r = r' := hresult
      cases r with
      | error e => exact .inr ⟨rfl, hleft⟩
      | ok a => exact ihf a hleft

end

namespace ForwardRequest

/-- A request that is read to the end of its packet is not read from less. -/
theorem overflows_of_cut {r : ForwardRequest} {n m v : Buffer} (hc : n.Cut m) (hn : n.len < m.len)
    (h : decode.run m = (.ok r, v)) (hv : v.pos = m.len) : Overflows (decode.run n) := by
  have hk : n.remaining ≤ m.remaining := by
    have hlength := hc.unread.length_le
    rwa [hc.left.length_unread, hc.right.length_unread] at hlength
  rw [run_decode (Nat.le_refl _)] at h
  rw [run_decode hk]
  have hperusal : Perusal False (decodeWith m.remaining) := perusal_decodeWith m.remaining
  obtain ⟨stops, hreading⟩ := hperusal
  rcases hreading.cut hc with hover | ⟨-, hleft⟩
  · exact hover
  · have hahead := (hreading.ahead n).1
    have hpos := hleft.pos
    have hwithin := hahead.within hc.left.pos_le_len
    rw [h] at hpos
    rw [hahead.len] at hwithin
    dsimp only at hpos
    omega

/-- A name of less than `0xA000` bytes does not look coded. -/
theorem not_looksCoded {r : ForwardRequest}
    (h : ∀ h ∈ r.headers, headerCode? requestHeaders h.1 = none → h.1.utf8ByteSize < 0xA000) :
    ∀ p ∈ r.headers, ¬ LooksCoded requestHeaders p.1 := by
  intro p hp hl
  have hshort := h p hp hl.1
  exact absurd hl.2.1 (Nat.not_le.2 hshort)

/-- Behind its header, the packet of a message is the payload. -/
theorem payload_of_frame {m : Buffer} (magic : UInt16) {payload : Bytes}
    (h : headerSize + payload.length ≤ m.capacity) :
    (m.message magic payload).frame.drop headerSize = payload := by
  rw [frame_message magic h]
  exact List.drop_left' rfl

/-- **A request cut short is not accepted.**  Whatever part of its payload comes in a packet, but
for the whole, it is an overflow: not a request, not a missing text and not an unknown code. -/
theorem overflows_of_truncated {r : ForwardRequest} {m sent : Buffer}
    (hnames : ∀ h ∈ r.headers, headerCode? requestHeaders h.1 = none → h.1.utf8ByteSize < 0xA000)
    (hc : m.capacity ≤ largestSize) (h : r.encode.run m = (.ok (), sent)) {part : Bytes}
    (hpart : part <+: sent.frame.drop headerSize) (hproper : part ≠ sent.frame.drop headerSize) :
    ∀ (s : Stream) (b : Buffer) (magic : UInt16) (more : Bytes),
      s.available = Wire.packet magic part ++ more → headerSize + part.length ≤ b.capacity →
      ∃ received s',
        receive s b magic = (.ok part.length, received, s', headerSize + part.length) ∧
          ∃ offset needed limit final,
            decode.run received = (.error (.overflow offset needed limit), final) := by
  obtain ⟨code, hcode, hcount, hfits, rfl⟩ := eq_of_run_encode hc h
  rw [payload_of_frame toContainer hfits] at hpart hproper
  have hsize := length_le_of_fits hc hfits
  have hshort : part.length < (r.payload code).length :=
    Nat.lt_of_le_of_ne hpart.length_le fun heq => hproper (hpart.eq_of_length heq)
  -- the whole payload is read to its end
  have hwhole := reads_decode hcode hcount hsize (not_looksCoded hnames)
    (holding (r.payload code)) [] (wellFormed_holding _)
    (by rw [unread_holding, List.append_nil])
  intro s b magic more hs hb
  obtain ⟨s', hreceive, -⟩ := receive_packet hs (by omega) hb
  obtain ⟨hwf, hunread⟩ := unread_received magic hb
  have hcut : (b.received magic part).Cut (holding (r.payload code)) :=
    ⟨hwf, wellFormed_holding _, rfl, by rwa [hunread, unread_holding]⟩
  have hless : (b.received magic part).len < (holding (r.payload code)).len :=
    Nat.add_lt_add_left hshort headerSize
  obtain ⟨offset, needed, limit, hover⟩ := overflows_of_cut hcut hless hwhole rfl
  exact ⟨_, s', hreceive, offset, needed, limit, _, Prod.ext hover rfl⟩

/-- Without the byte that ends its attributes, the request is no request. -/
theorem overflows_of_truncated_mixedCase :
    ∃ sent, mixedCase.encode.run (new defaultSize) = (.ok (), sent) ∧
      ∀ (s : Stream) (b : Buffer) (more : Bytes),
        s.available = Wire.packet toContainer ((mixedCase.payload 4).take 103) ++ more →
        headerSize + 103 ≤ b.capacity →
        ∃ received s', receive s b toContainer = (.ok 103, received, s', headerSize + 103) ∧
          ∃ offset needed limit final,
            decode.run received = (.error (.overflow offset needed limit), final) := by
  have hsmall : (new defaultSize).capacity ≤ largestSize := by
    rw [capacity_new]
    decide
  have hfits : headerSize + (mixedCase.payload 4).length ≤ (new defaultSize).capacity := by
    rw [capacity_new]
    decide
  have hencode := run_encode (by decide) (by decide) hsmall hfits
  have hpayload := payload_of_frame toContainer hfits
  have hlength : ((mixedCase.payload 4).take 103).length = 103 := by decide
  refine ⟨_, hencode, fun s b more hs hb => ?_⟩
  have h := overflows_of_truncated (by decide) hsmall hencode
    (by rw [hpayload]; exact List.take_prefix 103 _) (by rw [hpayload]; decide) s b toContainer more
    hs (by rwa [hlength])
  rwa [hlength] at h

end ForwardRequest

end AjpGateway.Packet
