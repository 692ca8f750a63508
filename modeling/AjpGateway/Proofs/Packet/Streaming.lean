import AjpGateway.Proofs.Packet.Receiving

/-!
# Packets in turn

Packets that are sent in turn over one stream are received in turn by one buffer, each as it was
sent, however the bytes between are cut: no receipt takes a byte of the next packet, and after the
last one the stream has closed before a first byte.

    sendEach w packets = (.ok (), frames packets, _)
    s.Delivers (frames packets) → i < packets.length →
      Took packets[i] (packets.drop (i + 1)) (receipt magic i s b)
    s.Delivers (frames packets) → packets.length ≤ i →
      (receipt magic i s b).result = .error (.net (.closed .recv 0))        (received_as_sent)
-/

namespace AjpGateway.Packet

open Buffer

/-- The bytes of packets in turn. -/
def frames (packets : List Buffer) : Bytes := packets.flatMap frame

/-- A packet whose header has been written. -/
def Finished (magic : UInt16) (p : Buffer) : Prop := ∃ m : Buffer, m.WellFormed ∧ p = m.finish magic

/-! ## Sending in turn -/

/-- Sends packets until one fails: the outcome, the bytes taken in all and the stream. -/
def sendEach (s : Stream) : List Buffer → Except NetFailure Unit × Bytes × Stream
  | [] => (.ok (), [], s)
  | p :: rest =>
    match s.send p.frame with
    | (.error e, taken, s) => (.error e, taken, s)
    | (.ok (), taken, s) =>
      let (result, more, s) := sendEach s rest
      (result, taken ++ more, s)

theorem sendEach_of_willing {w : Stream} (hw : w.Willing) (packets : List Buffer) :
    ∃ w', sendEach w packets = (.ok (), frames packets, w') ∧ w'.Willing := by
  induction packets generalizing w with
  | nil => exact ⟨w, rfl, hw⟩
  | cons p rest ih =>
    obtain ⟨w₁, hp, hw₁, -⟩ := hw.send p.frame
    obtain ⟨w₂, hrest, hw₂⟩ := ih hw₁
    refine ⟨w₂, ?_, hw₂⟩
    rw [sendEach, hp]
    dsimp only
    rw [hrest]
    rfl

/-! ## Receiving in turn -/

/-- What a receipt gave and what it left. -/
structure Receipt where
  result : Except FrameError Nat
  buffer : Buffer
  stream : Stream
  count : Nat

/-- The `i`th receipt in turn, each into the buffer that the one before it left. -/
def receipt (magic : UInt16) : (i : Nat) → Stream → Buffer → Receipt
  | 0, s, b =>
    let (result, buffer, stream, count) := receive s b magic
    { result, buffer, stream, count }
  | i + 1, s, b =>
    let (_, buffer, stream, _) := receive s b magic
    receipt magic i stream buffer

/-- A receipt took a packet, which is held as it was sent, and left those after it. -/
structure Took (p : Buffer) (later : List Buffer) (r : Receipt) : Prop where
  result : r.result = .ok p.payloadSize
  count : r.count = p.len
  frame : r.buffer.frame = p.frame
  pos : r.buffer.pos = headerSize
  stream : r.stream.Delivers (frames later)

/-- A finished packet is its magic word, the length of its payload, and the payload. -/
theorem Finished.packet {magic : UInt16} {p : Buffer} (hp : Finished magic p) :
    ∃ payload, p.frame = Wire.packet magic payload ∧ payload.length = p.payloadSize ∧
      p.len = headerSize + payload.length := by
  obtain ⟨m, hm, rfl⟩ := hp
  have hlen : headerSize + m.payloadSize = m.len := Nat.add_sub_cancel' hm.header_le_len
  have hpayload : (m.slice headerSize m.payloadSize).length = m.payloadSize := by
    apply length_slice
    rw [hlen]
    exact hm.len_le_capacity
  refine ⟨m.slice headerSize m.payloadSize, ?_, hpayload, ?_⟩
  · rw [frame_finish hm, Wire.packet, hpayload]
  · rw [hpayload]
    exact hlen.symm

theorem arrives_of_receive {s : Stream} (h : ∀ r ∈ s.reads, Stream.Arrives r) (b : Buffer)
    (magic : UInt16) : ∀ r ∈ (receive s b magic).2.2.1.reads, Stream.Arrives r :=
  receive_keeps (P := fun s => ∀ r ∈ s.reads, Stream.Arrives r)
    (fun _ room hs => Stream.arrives_of_receiveLoop hs 0 room) h b magic

/-- One receipt: the next packet, and nothing of those after it. -/
theorem receive_finished {magic : UInt16} {p b : Buffer} {later : List Buffer} {s : Stream}
    (hp : Finished magic p) (hsize : p.payloadSize ≤ 0xFFFF) (hc : p.len ≤ b.capacity)
    (hs : s.Delivers (frames (p :: later))) :
    ∃ b' s', receive s b magic = (.ok p.payloadSize, b', s', p.len) ∧ b'.frame = p.frame ∧
      b'.pos = headerSize ∧ b'.capacity = b.capacity ∧ s'.Delivers (frames later) := by
  obtain ⟨payload, hframe, hpayload, hlen⟩ := hp.packet
  have hav : s.available = Wire.packet magic payload ++ frames later := by
    rw [hs.available, ← hframe]
    rfl
  rw [hlen] at hc
  obtain ⟨s', hr, hmore⟩ := receive_packet hav (by rwa [hpayload]) hc
  have harrives := arrives_of_receive hs.arrives b magic
  rw [hr] at harrives
  refine ⟨b.received magic payload, s', ?_, ?_, pos_received .., capacity_received ..,
    harrives, hmore⟩
  · rw [hr, hpayload, hlen, hpayload]
  · rw [frame_received magic hc, hframe]

theorem receive_of_delivers_nil (magic : UInt16) {s : Stream} (hs : s.Delivers []) (b : Buffer) :
    receive s b magic = (.error (.net (.closed .recv 0)), b, { s with reads := [] }, 0) := by
  rw [receive, Stream.receive_of_delivers_nil hs (by decide)]
  rfl

/-- Where nothing is left, every receipt finds the stream closed before a first byte. -/
theorem receipt_of_delivers_nil (magic : UInt16) {s : Stream} (hs : s.Delivers []) (b : Buffer)
    (i : Nat) : (receipt magic i s b).result = .error (.net (.closed .recv 0)) := by
  induction i generalizing s with
  | zero => rw [receipt, receive_of_delivers_nil magic hs b]
  | succ i ih =>
    rw [receipt, receive_of_delivers_nil magic hs b]
    exact ih ⟨fun _ h => absurd h List.not_mem_nil, rfl⟩

/-- **Packets are received as they were sent**, one after another by one buffer with room for each
of them. -/
theorem received_as_sent {magic : UInt16} {packets : List Buffer} {w : Stream} {b : Buffer}
    (hw : w.Willing) (hp : ∀ p ∈ packets, Finished magic p)
    (hsize : ∀ p ∈ packets, p.payloadSize ≤ 0xFFFF) (hc : ∀ p ∈ packets, p.len ≤ b.capacity) :
    (∃ w', sendEach w packets = (.ok (), frames packets, w')) ∧
      ∀ s : Stream, s.Delivers (frames packets) →
        (∀ i (h : i < packets.length),
          Took packets[i] (packets.drop (i + 1)) (receipt magic i s b)) ∧
        ∀ i, packets.length ≤ i →
          (receipt magic i s b).result = .error (.net (.closed .recv 0)) := by
  obtain ⟨w', hsent, -⟩ := sendEach_of_willing hw packets
  refine ⟨⟨w', hsent⟩, fun s hs => ?_⟩
  clear hsent hw
  -- the first receipt takes the first packet; the others are those of the buffer that it leaves
  induction packets generalizing s b with
  | nil =>
    exact ⟨fun i h => absurd h (Nat.not_lt_zero i),
      fun i _ => receipt_of_delivers_nil magic hs b i⟩
  | cons p later ih =>
    obtain ⟨hp₁, hp₂⟩ := List.forall_mem_cons.1 hp
    obtain ⟨hsize₁, hsize₂⟩ := List.forall_mem_cons.1 hsize
    obtain ⟨hc₁, hc₂⟩ := List.forall_mem_cons.1 hc
    obtain ⟨b', s', hr, hframe, hpos, hcap, hs'⟩ := receive_finished hp₁ hsize₁ hc₁ hs
    rw [← hcap] at hc₂
    obtain ⟨htook, hclosed⟩ := ih hp₂ hsize₂ hc₂ s' hs'
    constructor
    · intro i h
      cases i with
      | zero =>
        rw [receipt, hr]
        exact ⟨rfl, rfl, hframe, hpos, hs'⟩
      | succ i =>
        rw [receipt, hr]
        exact htook i (Nat.lt_of_succ_lt_succ h)
    · intro i h
      cases i with
      | zero => cases h
      | succ i =>
        rw [receipt, hr]
        exact hclosed i (Nat.le_of_succ_le_succ h)

/-- A packet of three bytes. -/
def greeting : Buffer := ((new 16).put [1, 2, 3]).finish toContainer

/-- A packet without a payload. -/
def silence : Buffer := (new 4).finish toContainer

/-- Takes three bytes, is interrupted, takes one byte, and then takes all. -/
def halting : Stream where
  writes := [.accepts 3, .fault (.ofKind .interrupted), .accepts 1]
  drains := true

/-- Cut within headers and within the payload, and once across the end of a packet. -/
def cuts : Stream where
  reads := [.data [0x12], .fault (.ofKind .interrupted), .data [0x34, 0, 3, 1], .data [2],
    .data [3, 0x12, 0x34], .fault (.ofKind .interrupted), .data [0, 0],
    .fault (.ofKind .interrupted)]

theorem greeting_received_as_sent :
    (∃ w', sendEach halting [greeting, silence] = (.ok (), frames [greeting, silence], w')) ∧
      Took greeting [silence] (receipt toContainer 0 cuts (new 8)) ∧
      Took silence [] (receipt toContainer 1 cuts (new 8)) ∧
      (receipt toContainer 2 cuts (new 8)).result = .error (.net (.closed .recv 0)) := by
  have hgreeting : Finished toContainer greeting :=
    ⟨(new 16).put [1, 2, 3], (wellFormed_new 16).put (by decide), rfl⟩
  have hsilence : Finished toContainer silence := ⟨new 4, wellFormed_new 4, rfl⟩
  have hdelivers : cuts.Delivers (frames [greeting, silence]) :=
    ⟨by simp [cuts, Stream.Arrives, Fault.kind], by decide⟩
  have hwilling : halting.Willing := ⟨rfl, by simp [halting, Stream.Moves, Fault.kind]⟩
  obtain ⟨hsent, hreceived⟩ := received_as_sent (b := new 8) hwilling
    (List.forall_mem_cons.2 ⟨hgreeting, List.forall_mem_singleton.2 hsilence⟩)
    (by decide) (by decide)
  obtain ⟨htook, hclosed⟩ := hreceived cuts hdelivers
  exact ⟨hsent, htook 0 (by decide), htook 1 (by decide), hclosed 2 (by decide)⟩

end AjpGateway.Packet
