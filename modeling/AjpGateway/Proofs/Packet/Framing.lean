import AjpGateway.Packet.Frame
import AjpGateway.Proofs.Net.Transfer
import AjpGateway.Proofs.Packet.Storage
import AjpGateway.Proofs.Running

/-!
# Transfers into buffers

Each read of a receipt stores what came behind what came before, and nothing else of the buffer
changes.  A packet is received by two such receipts, whose failures count the bytes of both: a
packet of which a byte has come is never taken for one that never began.

    Transfers .recv room (reading room) k s result bytes s' →
      Transfers .recv room (filling start room) k (s, m) result bytes
        (s', m.overwrite (start + k) bytes)                                     (transfers_filling)
    Stops .recv k r e → Counts (k + n) (e.after n)                           (counts_of_stops)
-/

namespace AjpGateway.Packet

open Buffer

/-! ## Reading into a buffer -/

namespace Buffer

theorem overwrite_append (m : Buffer) (start : Nat) (x y : Bytes) :
    m.overwrite start (x ++ y) = (m.overwrite start x).overwrite (start + x.length) y := by
  unfold overwrite
  rw [writeAt_append]

theorem drop_overwrite {m : Buffer} {bytes : Bytes} (h : bytes.length ≤ m.capacity) :
    (m.overwrite 0 bytes).storage.toList.drop bytes.length =
      m.storage.toList.drop bytes.length := by
  rw [toList_overwrite _ _ _ (by rwa [Nat.zero_add]), List.take_zero, List.nil_append,
    List.drop_left, Nat.zero_add]

/-- The read into what is left of the `room` bytes from `start` on. -/
def filling (start room k : Nat) (x : Stream × Buffer) :
    Except Fault Bytes × Stream × Buffer :=
  let (r, s) := x.1.reading room k
  (r, s, x.2.overwrite (start + k) (movedBy r))

theorem filling_of_reading {s s' : Stream} {room k : Nat} {r : Except Fault Bytes}
    (h : s.reading room k = (r, s')) (start : Nat) (m : Buffer) :
    filling start room k (s, m) = (r, s', m.overwrite (start + k) (movedBy r)) := by
  unfold filling
  rw [h]

/-- Storing what comes read by read is storing all that came. -/
theorem transfers_filling {start room k : Nat} {s s' : Stream} {result : Except NetFailure Unit}
    {bytes : Bytes} (m : Buffer)
    (h : Transfers .recv room (Stream.reading room) k s result bytes s') :
    Transfers .recv room (filling start room) k (s, m) result bytes
      (s', m.overwrite (start + k) bytes) := by
  induction h generalizing m with
  | whole hk => exact .whole hk
  | moved hk hc hb _ ih =>
    rw [overwrite_append, Nat.add_assoc]
    exact .moved hk (filling_of_reading hc start m) hb (ih _)
  | interrupted hk hc hf _ ih =>
    exact .interrupted hk (filling_of_reading hc start m) hf (ih _)
  | stopped hk hc he =>
    refine .stopped hk ?_ he
    rw [filling_of_reading hc, he.movedBy_eq]

end Buffer

/-- What comes of filling the `room` bytes from `start` on. -/
structure Fills (s : Stream) (m : Buffer) (start room : Nat) (result : Except NetFailure Unit)
    (bytes : Bytes) (s' : Stream) (m' : Buffer) : Prop where
  run : Transfers .recv room (filling start room) 0 (s, m) result bytes (s', m')
  complete : result = .ok () ↔ bytes.length = room
  within : bytes.length ≤ room
  consumed : s.pending = bytes ++ s'.pending
  stored : m'.storage.toList =
    m.storage.toList.take start ++ bytes ++ m.storage.toList.drop (start + bytes.length)
  failed : ∀ e, result = .error e →
    ∃ s₀ r, Stream.reading room bytes.length s₀ = (r, s') ∧ Stops .recv bytes.length r e
  quiet : s.uninterrupted.receive room = (result, bytes, s'.uninterrupted)

theorem fills_receive {s s' : Stream} {m : Buffer} {start room : Nat}
    {result : Except NetFailure Unit} {bytes : Bytes} (hroom : start + room ≤ m.capacity)
    (h : s.receive room = (result, bytes, s')) :
    Fills s m start room result bytes s' (m.overwrite start bytes) where
  run := transfers_filling m (Stream.receive_iff.1 h)
  complete := Stream.receive_eq_ok_iff h
  within := Stream.length_le_of_receive h
  consumed := Stream.pending_of_receive h
  stored := by
    have hle := Stream.length_le_of_receive h
    exact toList_overwrite _ _ _ (by omega)
  failed := by
    rintro e rfl
    have hstops := (Stream.receive_iff.1 h).stops_of_error.2
    rwa [Nat.zero_add] at hstops
  quiet := Stream.quiet_receive h

/-- **Transfers are exact**: sending and receiving move each byte once and in order, end complete
or with the number of bytes moved, and touch nothing else. -/
theorem transfers_exact (s : Stream) :
    (∀ data, ∃ result taken s', s.send data = (result, taken, s') ∧
      s.Sends data result taken s') ∧
    ∀ (m : Buffer) (start room : Nat), start + room ≤ m.capacity →
      ∃ result bytes s', s.receive room = (result, bytes, s') ∧
        Fills s m start room result bytes s' (m.overwrite start bytes) := by
  constructor
  · intro data
    exact ⟨_, _, _, rfl, Stream.sends_send rfl⟩
  · intro m start room hroom
    exact ⟨_, _, _, rfl, fills_receive hroom rfl⟩

/-- Three bytes into a room of two, after an interruption: the third is left. -/
def threeBytes : Stream where
  reads := [.data [1], .fault (.ofKind .interrupted), .data [2, 3]]
  writes := [.accepts 1, .fault (.ofKind .timedOut)]

theorem transfers_exact_threeBytes :
    headerSize + 2 ≤ (Buffer.new 8).capacity ∧
      (∃ result bytes s', threeBytes.receive 2 = (result, bytes, s') ∧
        Fills threeBytes (Buffer.new 8) headerSize 2 result bytes s'
          ((Buffer.new 8).overwrite headerSize bytes)) ∧
      threeBytes.receive 2 = (.ok (), [1, 2], { threeBytes with reads := [.data [3]] }) ∧
      (threeBytes.send [7, 8, 9]).2.1 = [7] :=
  ⟨by decide, (transfers_exact threeBytes).2 (Buffer.new 8) headerSize 2 (by decide), rfl, rfl⟩

/-! ## Failures of packets -/

/-- The failures of a receipt of which `n` bytes came, and which of them are recoverable. -/
def Counts (n : Nat) : NetFailure → Prop
  | e@(.closed op k) => op = .recv ∧ k = n ∧ (e.recoverable ↔ n = 0)
  | e@(.broken op k f) => op = .recv ∧ k = n ∧
    (e.recoverable ↔ n = 0 ∧ f.kind ∈ [.connectionReset, .connectionAborted, .brokenPipe])
  | .timeout op k => op = .recv ∧ k = n
  | .unresolved .. | .noAddress .. | .unconnected .. => False

theorem isDeparture_iff (kind : FaultKind) :
    NetFailure.isDeparture kind ↔
      kind ∈ [.connectionReset, .connectionAborted, .brokenPipe] := by
  cases kind <;> decide

theorem counts_of_stops {k : Nat} {r : Except Fault Bytes} {e : NetFailure}
    (h : Stops .recv k r e) (n : Nat) : Counts (k + n) (e.after n) := by
  cases h with
  | closed => exact ⟨rfl, rfl, beq_iff_eq⟩
  | late _ => exact ⟨rfl, rfl⟩
  | broken =>
    refine ⟨rfl, rfl, ?_⟩
    show (k + n == 0 && NetFailure.isDeparture _) = true ↔ _
    rw [Bool.and_eq_true, beq_iff_eq, isDeparture_iff]

theorem after_zero (e : NetFailure) : e.after 0 = e := by
  cases e <;> rfl

theorem of_parseHeader_error {m m' : Buffer} {magic : UInt16} {e : PacketError}
    (hm : headerSize ≤ m.capacity) (h : (parseHeader magic).run m = (.error e, m')) :
    m' = m ∧
      ((∃ found, e = .badMagic magic found) ∨ ∃ size, e = .frameTooLarge size m.capacity) := by
  have hlen : (m.slice 0 headerSize).length = 4 := length_slice (by rwa [Nat.zero_add])
  unfold parseHeader at h
  rw [run_bind_of_ok (run_get m)] at h
  generalize m.slice 0 headerSize = header at h hlen
  match header, hlen with
  | [a, b, c, d], _ =>
    dsimp only at h
    by_cases hmagic : word a b ≠ magic
    · rw [if_pos hmagic] at h
      cases h
      exact ⟨rfl, .inl ⟨_, rfl⟩⟩
    · rw [if_neg hmagic] at h
      by_cases hc : m.capacity - headerSize < (word c d).toNat
      · rw [if_pos hc] at h
        cases h
        exact ⟨rfl, .inr ⟨_, rfl⟩⟩
      · rw [if_neg hc, run_bind_of_ok (run_set ..)] at h
        cases h

/-- What comes of receiving a packet for which `consumed` was taken off the stream. -/
def Frames (m : Buffer) (magic : UInt16) (consumed : Bytes) (m' : Buffer) :
    Except FrameError Nat → Prop
  | .ok size => consumed.length = headerSize + size
  | .error (.net e) => Counts consumed.length e
  | .error (.packet e) =>
    ((∃ found, e = .badMagic magic found) ∨ ∃ size, e = .frameTooLarge size m.capacity) ∧
      consumed.length = headerSize ∧ m'.len = m.len ∧ m'.pos = m.pos ∧
      m'.storage.toList.drop headerSize = m.storage.toList.drop headerSize

/-- The payload is received after the header, and so are its failures counted. -/
theorem frames_of_header {s s₁ : Stream} {m m₁ : Buffer} {magic : UInt16} {header : Bytes}
    {size : Nat} (hh : s.receive headerSize = (.ok (), header, s₁))
    (hp : (parseHeader magic).run (m.overwrite 0 header) = (.ok size, m₁)) :
    ∃ result m' s' consumed, receive s m magic = (result, m', s', consumed.length) ∧
      s.pending = consumed ++ s'.pending ∧ Frames m magic consumed m' result := by
  rcases hr : s₁.receive size with ⟨result, payload, s₂⟩
  have hlen : header.length = headerSize := (Stream.receive_eq_ok_iff hh).1 rfl
  have hcount : header.length + payload.length = (header ++ payload).length :=
    List.length_append.symm
  have hpending : s.pending = header ++ payload ++ s₂.pending := by
    rw [Stream.pending_of_receive hh, Stream.pending_of_receive hr, List.append_assoc]
  cases result with
  | error e =>
    have hreceive : receive s m magic = (.error (.net (e.after headerSize)),
        m₁.overwrite headerSize payload, s₂, (header ++ payload).length) := by
      rw [receive, hh]
      simp only [hp, hr, hcount]
    obtain ⟨-, _, _, -, hstops⟩ := (Stream.receive_iff.1 hr).stops_of_error
    have hcounts := counts_of_stops hstops headerSize
    have htotal : 0 + payload.length + headerSize = (header ++ payload).length := by omega
    rw [htotal] at hcounts
    exact ⟨_, _, _, _, hreceive, hpending, hcounts⟩
  | ok _ =>
    have hreceive : receive s m magic = (.ok size,
        m₁.overwrite headerSize payload, s₂, (header ++ payload).length) := by
      rw [receive, hh]
      simp only [hp, hr, hcount]
    have hsize : payload.length = size := (Stream.receive_eq_ok_iff hr).1 rfl
    refine ⟨_, _, _, _, hreceive, hpending, ?_⟩
    show (header ++ payload).length = headerSize + size
    omega

/-- **The failures of receiving a packet**: the count covers header and payload, and only a peer
that went away before the first byte of the packet is recoverable. -/
theorem receive_frames {m : Buffer} (hm : headerSize ≤ m.capacity) (s : Stream) (magic : UInt16) :
    ∃ result m' s' consumed, receive s m magic = (result, m', s', consumed.length) ∧
      s.pending = consumed ++ s'.pending ∧ Frames m magic consumed m' result := by
  rcases hh : s.receive headerSize with ⟨result, header, s₁⟩
  have hpending := Stream.pending_of_receive hh
  cases result with
  | error e =>
    have hreceive : receive s m magic =
        (.error (.net e), m.overwrite 0 header, s₁, header.length) := by
      rw [receive, hh]
    obtain ⟨-, _, _, -, hstops⟩ := (Stream.receive_iff.1 hh).stops_of_error
    have hcounts := counts_of_stops hstops 0
    rw [after_zero, Nat.zero_add] at hcounts
    exact ⟨_, _, _, _, hreceive, hpending, hcounts⟩
  | ok _ =>
    have hlen : header.length = headerSize := (Stream.receive_eq_ok_iff hh).1 rfl
    rcases hp : (parseHeader magic).run (m.overwrite 0 header) with ⟨result, m₁⟩
    cases result with
    | error e =>
      have hroom : headerSize ≤ (m.overwrite 0 header).capacity := by rwa [capacity_overwrite]
      obtain ⟨rfl, he⟩ := of_parseHeader_error hroom hp
      rw [capacity_overwrite] at he
      have hreceive : receive s m magic =
          (.error (.packet e), m.overwrite 0 header, s₁, header.length) := by
        rw [receive, hh]
        simp only [hp]
      have hfits : header.length ≤ m.capacity := by rwa [hlen]
      have hkept := drop_overwrite hfits
      rw [hlen] at hkept
      exact ⟨_, _, _, header, hreceive, hpending, he, hlen, rfl, rfl, hkept⟩
    | ok size => exact frames_of_header hh hp

/-- Four bytes announce five, of which one comes: five bytes are counted. -/
def cutShort : Stream where
  reads := [.data [0x41], .fault (.ofKind .interrupted), .data [0x42, 0, 5, 3]]

theorem receive_frames_cutShort :
    (∃ result m' s' consumed,
      receive cutShort (Buffer.new 64) fromContainer = (result, m', s', consumed.length) ∧
        cutShort.pending = consumed ++ s'.pending ∧
        Frames (Buffer.new 64) fromContainer consumed m' result) ∧
      (receive cutShort (Buffer.new 64) fromContainer).1 =
        .error (.net (.closed .recv 5)) :=
  ⟨receive_frames (by decide) cutShort fromContainer, rfl⟩

end AjpGateway.Packet
