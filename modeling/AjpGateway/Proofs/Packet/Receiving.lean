import AjpGateway.Packet.Frame
import AjpGateway.Proofs.Net.Delivery
import AjpGateway.Proofs.Packet.Storage
import AjpGateway.Proofs.Running

/-!
# Receiving what was sent

A packet that arrives whole, in whatever pieces, is held by a buffer with room for it as it was
sent: its payload is what is unread.  No other packet is received.

    s.available = Wire.packet magic payload ++ more →
      receive s m magic = (.ok payload.length, m.received magic payload, s', _) ∧
        s'.available = more                                                  (receive_packet)
    s.available = (m.message magic payload).frame ++ more →
      receive s b magic = (.ok payload.length, received, s', _) ∧ received.unread = payload
                                                                             (receive_message)
    receive s m magic = (.ok n, m', s', _) →
      s.available = Wire.packet magic payload ++ s'.available ∧ m'.unread = payload     (of_receive)
-/

namespace AjpGateway.Packet

open Buffer

namespace Buffer

/-- Where the header made room for the payload, the payload is what is unread. -/
theorem unread_overwrite {m : Buffer} {payload : Bytes} (hl : m.len = headerSize + payload.length)
    (hp : m.pos = headerSize) (hc : headerSize + payload.length ≤ m.capacity) :
    (m.overwrite headerSize payload).WellFormed ∧
      (m.overwrite headerSize payload).unread = payload := by
  constructor
  · refine ⟨Nat.le_of_eq hp.symm, ?_, ?_⟩
    · show m.pos ≤ m.len
      omega
    · rw [capacity_overwrite]
      show m.len ≤ m.capacity
      omega
  · show (m.overwrite headerSize payload).slice m.pos (m.len - m.pos) = payload
    rw [hl, hp, Nat.add_sub_cancel_left]
    exact slice_overwrite hc

end Buffer

/-- A packet: the magic word, the length of the payload, and the payload. -/
def Wire.packet (magic : UInt16) (payload : Bytes) : Bytes :=
  wordBytes magic ++ wordBytes (UInt16.ofNat payload.length) ++ payload

theorem Wire.length_packet (magic : UInt16) (payload : Bytes) :
    (packet magic payload).length = headerSize + payload.length := by
  rw [packet, List.length_append]
  rfl

/-- In a buffer of an admissible size there is no room for more payload than a word counts. -/
theorem length_le_of_fits {payload : Bytes} {size : Nat} (hsize : size ≤ largestSize)
    (h : headerSize + payload.length ≤ size) : payload.length ≤ 0xFFFF := by
  have hlimits : largestSize = 0x10000 ∧ headerSize = 4 := ⟨rfl, rfl⟩
  omega

theorem run_parseHeader {m : Buffer} {magic size : UInt16}
    (hs : m.slice 0 headerSize = wordBytes magic ++ wordBytes size)
    (hc : headerSize + size.toNat ≤ m.capacity) :
    (parseHeader magic).run m =
      (.ok size.toNat, { m with len := headerSize + size.toNat, pos := headerSize }) := by
  have hmagic : word (magic >>> 8).toUInt8 magic.toUInt8 = magic := wordOf_wordBytes magic []
  have hsize : word (size >>> 8).toUInt8 size.toUInt8 = size := wordOf_wordBytes size []
  unfold parseHeader
  rw [run_bind_of_ok (run_get m), hs]
  show (if word (magic >>> 8).toUInt8 magic.toUInt8 ≠ magic then _ else if _ then _ else _ :
    Marshal Nat).run m = _
  rw [hmagic, hsize, if_neg (by simp), if_neg (by omega), run_bind_of_ok (run_set ..), run_pure]

theorem receive_eq_ok {s s₁ s₂ : Stream} {m m₁ : Buffer} {magic : UInt16} {header payload : Bytes}
    {size : Nat} (hh : s.receive headerSize = (.ok (), header, s₁))
    (hs : (parseHeader magic).run (m.overwrite 0 header) = (.ok size, m₁))
    (hp : s₁.receive size = (.ok (), payload, s₂)) :
    receive s m magic =
      (.ok size, m₁.overwrite headerSize payload, s₂, header.length + payload.length) := by
  rw [receive, hh]
  simp only [hs, hp]

/-- The buffer with a packet that was received in place of what it held. -/
def Buffer.received (m : Buffer) (magic : UInt16) (payload : Bytes) : Buffer :=
  ({ m.overwrite 0 (wordBytes magic ++ wordBytes (UInt16.ofNat payload.length)) with
    len := headerSize + payload.length, pos := headerSize } : Buffer).overwrite headerSize payload

@[simp] theorem Buffer.pos_received (m : Buffer) (magic : UInt16) (payload : Bytes) :
    (m.received magic payload).pos = headerSize :=
  rfl

@[simp] theorem Buffer.capacity_received (m : Buffer) (magic : UInt16) (payload : Bytes) :
    (m.received magic payload).capacity = m.capacity := by
  rw [received, capacity_overwrite]
  exact capacity_overwrite ..

theorem Buffer.unread_received {m : Buffer} (magic : UInt16) {payload : Bytes}
    (h : headerSize + payload.length ≤ m.capacity) :
    (m.received magic payload).WellFormed ∧ (m.received magic payload).unread = payload := by
  refine unread_overwrite rfl rfl ?_
  show _ ≤ (m.overwrite 0 _).capacity
  rwa [capacity_overwrite]

/-- A packet that was received is held as it would be sent. -/
theorem Buffer.frame_received {m : Buffer} (magic : UInt16) {payload : Bytes}
    (h : headerSize + payload.length ≤ m.capacity) :
    (m.received magic payload).frame = Wire.packet magic payload := by
  obtain ⟨header, hdef⟩ : ∃ header,
      header = wordBytes magic ++ wordBytes (UInt16.ofNat payload.length) := ⟨_, rfl⟩
  have hlen : header.length = headerSize := by rw [hdef]; rfl
  have hheader : 0 + header.length ≤ m.capacity := by omega
  have hpayload : headerSize + payload.length ≤ (m.overwrite 0 header).capacity := by
    rw [capacity_overwrite]
    exact h
  have hall : headerSize + payload.length = (header ++ payload).length := by
    rw [List.length_append, hlen]
  unfold received Wire.packet
  rw [← hdef]
  show ((m.overwrite 0 header).overwrite headerSize payload).slice 0
    (headerSize + payload.length) = _
  rw [slice_eq, List.drop_zero, toList_overwrite _ _ _ hpayload, toList_overwrite _ _ _ hheader,
    List.take_zero, List.nil_append, List.take_left' hlen, hall, List.take_left]

/-- **A packet is received as it was sent**, however it is cut into pieces, and nothing of what
follows it. -/
theorem receive_packet {s : Stream} {m : Buffer} {magic : UInt16} {payload more : Bytes}
    (hs : s.available = Wire.packet magic payload ++ more)
    (hp : payload.length ≤ 0xFFFF) (hc : headerSize + payload.length ≤ m.capacity) :
    ∃ s', receive s m magic =
        (.ok payload.length, m.received magic payload, s', headerSize + payload.length) ∧
      s'.available = more := by
  have hsize : (UInt16.ofNat payload.length).toNat = payload.length := by
    rw [UInt16.toNat_ofNat']
    omega
  obtain ⟨header, hdef⟩ :
      ∃ header, header = wordBytes magic ++ wordBytes (UInt16.ofNat payload.length) := ⟨_, rfl⟩
  have hlen : header.length = headerSize := by rw [hdef]; rfl
  rw [Wire.packet, ← hdef, List.append_assoc] at hs
  have htake : (header ++ (payload ++ more)).take headerSize = header := List.take_left' hlen
  have hdrop : (header ++ (payload ++ more)).drop headerSize = payload ++ more :=
    List.drop_left' hlen
  -- the header announces the payload
  have hroom₁ : headerSize ≤ s.available.length := by
    rw [hs, List.length_append, hlen]
    exact Nat.le_add_right _ _
  obtain ⟨s₁, hr₁, ha₁⟩ := s.receive_of_le hroom₁
  rw [hs, htake] at hr₁
  rw [hs, hdrop] at ha₁
  have hheader : (m.overwrite 0 header).slice 0 headerSize = header := by
    have hfits : 0 + header.length ≤ m.capacity := by
      rw [hlen]
      omega
    have h := slice_overwrite hfits
    rwa [hlen] at h
  have hroom : headerSize + payload.length ≤ (m.overwrite 0 header).capacity := by
    rw [capacity_overwrite]
    exact hc
  have hparse := run_parseHeader (hheader.trans hdef) (by rw [hsize]; exact hroom)
  rw [hsize] at hparse
  -- the payload
  have hroom₂ : payload.length ≤ s₁.available.length := by
    rw [ha₁, List.length_append]
    exact Nat.le_add_right _ _
  obtain ⟨s₂, hr₂, ha₂⟩ := s₁.receive_of_le hroom₂
  rw [ha₁, List.take_left] at hr₂
  rw [ha₁, List.drop_left] at ha₂
  have hreceive := receive_eq_ok hr₁ hparse hr₂
  rw [hlen, hdef] at hreceive
  exact ⟨s₂, hreceive, ha₂⟩

/-- What is unread of a packet that was received is its payload. -/
theorem receive_frame {s : Stream} {m : Buffer} {magic : UInt16} {payload more : Bytes}
    (hs : s.available =
      wordBytes magic ++ wordBytes (UInt16.ofNat payload.length) ++ payload ++ more)
    (hp : payload.length ≤ 0xFFFF) (hc : headerSize + payload.length ≤ m.capacity) :
    ∃ m' s', receive s m magic = (.ok payload.length, m', s', headerSize + payload.length) ∧
      m'.WellFormed ∧ m'.unread = payload ∧ s'.available = more := by
  obtain ⟨s', hr, hmore⟩ := receive_packet hs hp hc
  obtain ⟨hwf, hunread⟩ := unread_received magic hc
  exact ⟨_, s', hr, hwf, hunread, hmore⟩

theorem of_run_parseHeader {m m' : Buffer} {magic : UInt16} {size : Nat} {header : Bytes}
    (hs : m.slice 0 headerSize = header) (h : (parseHeader magic).run m = (.ok size, m')) :
    header = wordBytes magic ++ wordBytes (UInt16.ofNat size) ∧ size ≤ 0xFFFF ∧
      size ≤ m.capacity - headerSize ∧
      m' = { m with len := headerSize + size, pos := headerSize } := by
  unfold parseHeader at h
  rw [run_bind_of_ok (run_get m), hs] at h
  split at h
  · next a b c d =>
    by_cases hm : word a b ≠ magic
    · rw [if_pos hm] at h
      cases h
    · rw [if_neg hm] at h
      by_cases hc : m.capacity - headerSize < (word c d).toNat
      · rw [if_pos hc] at h
        cases h
      · rw [if_neg hc, run_bind_of_ok (run_set ..), run_pure] at h
        cases h
        refine ⟨?_, Nat.le_of_lt_succ (word c d).toNat_lt, Nat.le_of_not_lt hc, rfl⟩
        rw [← Decidable.not_not.1 hm, UInt16.ofNat_toNat, wordBytes_word, wordBytes_word]
        rfl
  · cases h

/-- **What was received was sent**: the packet was there, and the buffer holds it. -/
theorem of_receive {s s' : Stream} {m m' : Buffer} {magic : UInt16} {n count : Nat}
    (hm : headerSize ≤ m.capacity) (h : receive s m magic = (.ok n, m', s', count)) :
    ∃ payload, s.available = Wire.packet magic payload ++ s'.available ∧
      payload.length ≤ 0xFFFF ∧ count = headerSize + payload.length ∧
      m'.WellFormed ∧ m'.pos = headerSize ∧ m'.unread = payload ∧ m'.capacity = m.capacity := by
  unfold receive at h
  rcases hh : s.receive headerSize with ⟨result, header, s₁⟩
  rw [hh] at h
  cases result with
  | error e => cases h
  | ok _ =>
    obtain ⟨hlen, hav⟩ := Stream.available_of_receive hh
    have hheader : (m.overwrite 0 header).slice 0 headerSize = header := by
      have hfits : 0 + header.length ≤ m.capacity := by omega
      have h := slice_overwrite hfits
      rwa [hlen] at h
    dsimp only at h
    rcases hp : (parseHeader magic).run (m.overwrite 0 header) with ⟨result, m₁⟩
    rw [hp] at h
    cases result with
    | error e => cases h
    | ok size =>
      obtain ⟨hbytes, hword, hroom, rfl⟩ := of_run_parseHeader hheader hp
      rw [capacity_overwrite] at hroom
      dsimp only at h
      rcases hr : s₁.receive size with ⟨result, payload, s₂⟩
      rw [hr] at h
      cases result with
      | error e => cases h
      | ok _ =>
        obtain ⟨hsize, hav₁⟩ := Stream.available_of_receive hr
        cases h
        subst hsize hbytes
        have hroom' : headerSize + payload.length ≤ m.capacity := by omega
        obtain ⟨hwf, hunread⟩ := unread_received magic hroom'
        refine ⟨payload, ?_, hword, by rw [hlen], hwf, rfl, hunread, capacity_received ..⟩
        rw [hav, hav₁, Wire.packet]
        simp only [List.append_assoc]

theorem payloadSize_of_receive {s s' : Stream} {m m' : Buffer} {magic : UInt16} {n count : Nat}
    (hm : headerSize ≤ m.capacity) (h : receive s m magic = (.ok n, m', s', count)) :
    m'.payloadSize = n := by
  obtain ⟨payload, hs, hword, -, hwf, hpos, hunread, hcapacity⟩ := of_receive hm h
  have hroom : headerSize + payload.length ≤ m.capacity := by
    have hlen := hwf.length_unread
    have hpos_le := hwf.pos_le_len
    have hlen_le := hwf.len_le_capacity
    rw [hunread, hpos] at hlen
    omega
  obtain ⟨_, hreceive, -⟩ := receive_packet hs hword hroom
  rw [h] at hreceive
  cases hreceive
  exact Nat.add_sub_cancel_left ..

/-- What receiving bytes keeps of a stream, receiving a packet keeps. -/
theorem receive_keeps {P : Stream → Prop} (hP : ∀ s room, P s → P (s.receive room).2.2)
    {s : Stream} (hs : P s) (m : Buffer) (magic : UInt16) : P (receive s m magic).2.2.1 := by
  unfold receive
  have h₁ := hP s headerSize hs
  rcases hh : s.receive headerSize with ⟨result, header, s₁⟩
  rw [hh] at h₁
  cases result with
  | error e => exact h₁
  | ok _ =>
    dsimp only
    rcases (parseHeader magic).run (m.overwrite 0 header) with ⟨result, m₁⟩
    cases result with
    | error e => exact h₁
    | ok size =>
      have h₂ := hP s₁ size h₁
      rcases hp : s₁.receive size with ⟨result, payload, s₂⟩
      rw [hp] at h₂
      dsimp only
      rw [hp]
      cases result with
      | error e => exact h₂
      | ok _ => exact h₂

/-- Receiving a packet takes some of the bytes that there are, and gives none back. -/
theorem pending_receive_le (s : Stream) (m : Buffer) (magic : UInt16) :
    (receive s m magic).2.2.1.pending.length ≤ s.pending.length := by
  refine receive_keeps (P := fun s' => s'.pending.length ≤ s.pending.length) ?_ (Nat.le_refl _) m
    magic
  intro s' room hle
  rcases hr : s'.receive room with ⟨result, bytes, s''⟩
  have hpending := congrArg List.length (Stream.pending_of_receive hr)
  rw [List.length_append] at hpending
  dsimp only
  omega

theorem pending_receive_lt {s s' : Stream} {m m' : Buffer} {magic : UInt16} {size count : Nat}
    (h : receive s m magic = (.ok size, m', s', count)) :
    s'.pending.length < s.pending.length := by
  unfold receive at h
  rcases hh : s.receive headerSize with ⟨result, header, s₁⟩
  have hheader := congrArg List.length (Stream.pending_of_receive hh)
  rw [List.length_append] at hheader
  rw [hh] at h
  cases result with
  | error e => cases h
  | ok _ =>
    have hlen : header.length = headerSize := (Stream.available_of_receive hh).1
    have hsome : 0 < headerSize := by decide
    dsimp only at h
    rcases hp : (parseHeader magic).run (m.overwrite 0 header) with ⟨result, m₁⟩
    rw [hp] at h
    cases result with
    | error e => cases h
    | ok size =>
      dsimp only at h
      rcases hr : s₁.receive size with ⟨result, payload, s₂⟩
      have hpayload := congrArg List.length (Stream.pending_of_receive hr)
      rw [List.length_append] at hpayload
      rw [hr] at h
      cases result with
      | error e => cases h
      | ok _ =>
        cases h
        omega

/-- Receiving leaves the writes as they are. -/
theorem receive_writes (s : Stream) (m : Buffer) (magic : UInt16) :
    ∃ reads, (receive s m magic).2.2.1 = { s with reads } := by
  have hstep (t : Stream) (room : Nat) (ht : ∃ reads, t = { s with reads }) :
      ∃ reads, (t.receive room).2.2 = { s with reads } := by
    obtain ⟨reads, rfl⟩ := ht
    exact ⟨_, rfl⟩
  exact receive_keeps hstep ⟨s.reads, rfl⟩ m magic

/-- A message is received in any buffer with room for it. -/
theorem receive_message {s : Stream} {m b : Buffer} {magic : UInt16} {payload more : Bytes}
    (hc : m.capacity ≤ largestSize) (hf : headerSize + payload.length ≤ m.capacity)
    (hs : s.available = (m.message magic payload).frame ++ more)
    (hb : (m.message magic payload).len ≤ b.capacity) :
    ∃ received s', receive s b magic = (.ok (m.message magic payload).payloadSize, received, s',
        (m.message magic payload).len) ∧
      received.WellFormed ∧ received.unread = payload ∧ s'.available = more := by
  rw [frame_message magic hf] at hs
  rw [payloadSize_message]
  exact receive_frame hs (length_le_of_fits hc hf) hb

end AjpGateway.Packet
