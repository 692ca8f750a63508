import AjpGateway.Packet.ForwardRequest
import AjpGateway.Proofs.Packet.Field
import AjpGateway.Proofs.Packet.Receiving

/-!
# Pieces of a body on the wire

The payload of a piece is its bytes behind their length; a piece that ends the body is empty and has
an empty payload.  No piece is too large for a packet, and each is read as it was written.

    data.length ≤ bodyRoom m.capacity → (encodeBody data).run m = (.ok (), _)     (run_encodeBody)
    (encodeBody data).run m = (.ok (), sent) →
      sent = m.message toContainer (Wire.piece data)                         (eq_of_run_encodeBody)
    m.unread = Wire.piece data → decodeBody.run m = (.ok data, _)                 (run_decodeBody)
-/

namespace AjpGateway.Packet

open Buffer

/-- The payload of a piece; one that ends the body is empty. -/
def Wire.piece (data : Bytes) : Bytes := if data = [] then [] else Wire.chunk data

theorem Wire.length_piece_le (data : Bytes) : (Wire.piece data).length ≤ data.length + 2 := by
  unfold piece
  split
  · exact Nat.zero_le _
  · rw [chunk, List.length_append, length_wordBytes]
    omega

theorem bodyRoom_of_le {size : Nat} (h : defaultSize ≤ size) : bodyRoom size = size - 6 := by
  have hd : defaultSize = 8192 := rfl
  have hh : headerSize = 4 := rfl
  unfold bodyRoom
  rw [if_neg (by omega), hh]

/-! ## Writing -/

/-- Writes the payload. -/
def encodePiece (data : Bytes) : Marshal Unit := if data = [] then pure () else appendChunk data

theorem writes_encodePiece (data : Bytes) : Writes (encodePiece data) (Wire.piece data) := by
  unfold encodePiece Wire.piece
  split
  · exact Writes.nothing
  · exact writes_appendChunk data

theorem encodeBody_eq (data : Bytes) :
    encodeBody data =
      (do modify reset; encodePiece data; modify (finish · toContainer) : Marshal Unit) := by
  unfold encodeBody encodePiece
  by_cases hd : data = []
  · simp only [if_pos hd, if_neg (not_not_intro hd), pure_bind]
  · simp only [if_neg hd, if_pos hd]

/-- **Writing a piece of the body does not fail** where it has no more bytes than a packet
carries. -/
theorem run_encodeBody {m : Buffer} {data : Bytes} (hl : defaultSize ≤ m.capacity)
    (hc : m.capacity ≤ largestSize) (hd : data.length ≤ bodyRoom m.capacity) :
    (encodeBody data).run m = (.ok (), m.message toContainer (Wire.piece data)) := by
  have hp := Wire.length_piece_le data
  have hsize : defaultSize = 8192 ∧ headerSize = 4 := ⟨rfl, rfl⟩
  rw [bodyRoom_of_le hl] at hd
  rw [encodeBody_eq]
  exact (writes_encodePiece data).run_message hc (by omega)

theorem eq_of_run_encodeBody {m sent : Buffer} {data : Bytes} (hm : headerSize ≤ m.capacity)
    (hc : m.capacity ≤ largestSize) (h : (encodeBody data).run m = (.ok (), sent)) :
    headerSize + (Wire.piece data).length ≤ m.capacity ∧
      sent = m.message toContainer (Wire.piece data) := by
  rw [encodeBody_eq] at h
  exact (writes_encodePiece data).eq_message_of_le hc hm h

@[simp] theorem Buffer.capacity_message (m : Buffer) (magic : UInt16) (payload : Bytes) :
    (m.message magic payload).capacity = m.capacity := by
  unfold message finish
  rw [capacity_overwrite, capacity_put, capacity_reset]

theorem frame_piece {m : Buffer} {data : Bytes} (hl : defaultSize ≤ m.capacity)
    (hd : data.length ≤ bodyRoom m.capacity) :
    (m.message toContainer (Wire.piece data)).frame =
      Wire.packet toContainer (Wire.piece data) := by
  have hp := Wire.length_piece_le data
  have hsize : defaultSize = 8192 ∧ headerSize = 4 := ⟨rfl, rfl⟩
  rw [bodyRoom_of_le hl] at hd
  exact frame_message toContainer (by omega)

/-! ## Reading -/

/-- The end of the body is told from other pieces by what is left of the packet, so nothing may
follow the piece. -/
theorem run_decodeBody {m : Buffer} {data : Bytes} (hf : (Wire.piece data).length ≤ 0xFFFF)
    (hm : m.WellFormed) (hu : m.unread = Wire.piece data) :
    decodeBody.run m = (.ok data, m.advance (Wire.piece data).length) := by
  have hl := hm.length_unread
  rw [hu] at hl
  unfold decodeBody
  rw [run_bind_of_ok (run_get m)]
  by_cases hd : data = []
  · have hnone : m.remaining = 0 := by
      rw [Wire.piece, if_pos hd] at hl
      exact hl.symm
    rw [if_pos hnone, Wire.piece, if_pos hd, hd]
    rfl
  · rw [Wire.piece, if_neg hd] at hf hl hu ⊢
    have hsome : m.remaining ≠ 0 := by
      rw [Wire.chunk, List.length_append, length_wordBytes] at hl
      show m.len - m.pos ≠ 0
      omega
    rw [if_neg hsome]
    exact reads_chunk hf m [] hm (by rw [hu, List.append_nil])

end AjpGateway.Packet
