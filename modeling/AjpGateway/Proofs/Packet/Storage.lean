import AjpGateway.Packet.Buffer

/-!
# Bytes of a buffer

What the operations of a buffer do to its bytes, on lists: what was put is in the frame, and what
is unread is the rest of the payload.  Numbers of two bytes are read back as they were written.

    (m.put x).put y = m.put (x ++ y)                                        (put_put)
    (m.finish magic).frame
      = wordBytes magic ++ wordBytes (.ofNat m.payloadSize)
          ++ m.slice headerSize m.payloadSize                               (frame_finish)
    (m.message magic payload).frame
      = wordBytes magic ++ wordBytes (.ofNat payload.length) ++ payload     (frame_message)
    (m.advance n).unread = m.unread.drop n                                  (unread_advance)
-/

namespace AjpGateway.Packet.Buffer

/-! ## Words -/

theorem toNat_word (hi lo : UInt8) : (word hi lo).toNat = 256 * hi.toNat + lo.toNat := by
  have hh := hi.toNat_lt
  have hl := lo.toNat_lt
  have hs : hi.toNat <<< 8 % 2 ^ 16 = hi.toNat <<< 8 := by
    rw [Nat.shiftLeft_eq]
    omega
  unfold word
  rw [UInt16.toNat_or, UInt16.toNat_shiftLeft, UInt8.toNat_toUInt16, UInt8.toNat_toUInt16]
  show hi.toNat <<< 8 % 2 ^ 16 ||| lo.toNat = _
  rw [hs, ← Nat.shiftLeft_add_eq_or_of_lt hl, Nat.shiftLeft_eq]
  omega

theorem wordBytes_eq (w : UInt16) :
    wordBytes w = [UInt8.ofNat (w.toNat / 256), UInt8.ofNat (w.toNat % 256)] := by
  have hi : (w >>> 8).toUInt8 = UInt8.ofNat (w.toNat / 256) := by
    apply UInt8.toNat_inj.1
    rw [UInt16.toNat_toUInt8, UInt16.toNat_shiftRight, UInt8.toNat_ofNat']
    show w.toNat >>> 8 % 256 = _
    rw [Nat.shiftRight_eq_div_pow]
  have lo : w.toUInt8 = UInt8.ofNat (w.toNat % 256) := by
    apply UInt8.toNat_inj.1
    simp
  unfold wordBytes
  rw [hi, lo]

@[simp] theorem length_wordBytes (w : UInt16) : (wordBytes w).length = 2 := rfl

@[simp] theorem wordOf_wordBytes (w : UInt16) (rest : Bytes) :
    wordOf (wordBytes w ++ rest) = w := by
  have hw := w.toNat_lt
  rw [wordBytes_eq]
  show word _ _ = w
  apply UInt16.toNat_inj.1
  rw [toNat_word, UInt8.toNat_ofNat', UInt8.toNat_ofNat']
  omega

theorem wordBytes_word (hi lo : UInt8) : wordBytes (word hi lo) = [hi, lo] := by
  have hlo := lo.toNat_lt
  have hdiv : (256 * hi.toNat + lo.toNat) / 256 = hi.toNat := by omega
  have hmod : (256 * hi.toNat + lo.toNat) % 256 = lo.toNat := by omega
  rw [wordBytes_eq, toNat_word, hdiv, hmod, UInt8.ofNat_toNat, UInt8.ofNat_toNat]

/-- A word has the form of a coded header name exactly if its first byte is `0xA0`. -/
theorem isCodedHeader_iff (w : UInt16) : isCodedHeader w ↔ w.toNat / 256 = 0xA0 := by
  have hw := w.toNat_lt
  have hd : (w.toNat &&& 0xFF00) / 2 ^ 8 = w.toNat / 2 ^ 8 % 2 ^ 8 := by
    rw [Nat.and_div_two_pow]
    exact Nat.and_two_pow_sub_one_eq_mod _ 8
  have hm : (w.toNat &&& 0xFF00) % 2 ^ 8 = 0 := by
    rw [Nat.and_mod_two_pow]
    exact Nat.and_zero _
  unfold isCodedHeader codedHeader
  rw [beq_iff_eq, ← UInt16.toNat_inj, UInt16.toNat_and]
  show w.toNat &&& 0xFF00 = 0xA000 ↔ _
  omega

/-! ## Writing -/

theorem toList_writeAt (a : Array UInt8) (i : Nat) (bytes : Bytes) (h : i + bytes.length ≤ a.size) :
    (writeAt a i bytes).toList = a.toList.take i ++ bytes ++ a.toList.drop (i + bytes.length) := by
  induction bytes generalizing a i with
  | nil => simp [writeAt]
  | cons b rest ih =>
    rw [List.length_cons] at h
    have hi : i < a.toList.length := by rw [Array.length_toList]; omega
    have hd : (a.toList.set i b).drop (i + 1 + rest.length) =
        a.toList.drop (i + (b :: rest).length) := by
      rw [List.drop_set_of_lt (by omega), List.length_cons]
      congr 1
      omega
    rw [writeAt, ih _ _ (by rw [Array.size_setIfInBounds]; omega), Array.toList_setIfInBounds, hd,
      List.take_add_one, List.take_set_of_le (Nat.le_refl i), List.getElem?_set_self hi]
    simp

theorem writeAt_append (a : Array UInt8) (i : Nat) (x y : Bytes) :
    writeAt a i (x ++ y) = writeAt (writeAt a i x) (i + x.length) y := by
  induction x generalizing a i with
  | nil => rfl
  | cons b rest ih =>
    rw [List.cons_append, writeAt, writeAt, ih, List.length_cons, Nat.add_right_comm, Nat.add_assoc]

theorem put_put (m : Buffer) (x y : Bytes) : (m.put x).put y = m.put (x ++ y) := by
  unfold put
  rw [writeAt_append, List.length_append, Nat.add_assoc]

@[simp] theorem len_put (m : Buffer) (bytes : Bytes) : (m.put bytes).len = m.len + bytes.length := rfl

theorem WellFormed.put {m : Buffer} (hm : m.WellFormed) {bytes : Bytes}
    (h : m.len + bytes.length ≤ m.capacity) : (m.put bytes).WellFormed where
  header_le_pos := hm.header_le_pos
  pos_le_len := Nat.le_trans hm.pos_le_len (Nat.le_add_right _ _)
  len_le_capacity := by rwa [len_put, capacity_put]

theorem WellFormed.header_le_len {m : Buffer} (hm : m.WellFormed) : headerSize ≤ m.len :=
  Nat.le_trans hm.header_le_pos hm.pos_le_len

theorem WellFormed.header_le_capacity {m : Buffer} (hm : m.WellFormed) :
    headerSize ≤ m.capacity :=
  Nat.le_trans hm.header_le_len hm.len_le_capacity

theorem wellFormed_reset {m : Buffer} (h : headerSize ≤ m.capacity) : m.reset.WellFormed where
  header_le_pos := Nat.le_refl _
  pos_le_len := Nat.le_refl _
  len_le_capacity := h

@[simp] theorem capacity_new (capacity : Nat) : (new capacity).capacity = max capacity headerSize :=
  Array.size_replicate

theorem capacity_new_of_le {capacity : Nat} (h : headerSize ≤ capacity) :
    (new capacity).capacity = capacity := by
  rw [capacity_new]
  exact Nat.max_eq_left h

@[simp] theorem capacity_reset (m : Buffer) : m.reset.capacity = m.capacity := rfl

/-! ## Slices -/

theorem slice_eq (m : Buffer) (start n : Nat) :
    m.slice start n = (m.storage.toList.drop start).take n := by
  unfold slice
  rw [Array.toList_extract, List.extract_eq_take_drop, Nat.add_sub_cancel_left]

theorem length_slice {m : Buffer} {start n : Nat} (h : start + n ≤ m.capacity) :
    (m.slice start n).length = n := by
  have hl : m.storage.toList.length = m.capacity := Array.length_toList
  rw [slice_eq, List.length_take, List.length_drop, hl]
  omega

/-- Bytes one by one. -/
theorem slice_succ {m : Buffer} {start n : Nat} (h : start < m.storage.size) :
    m.slice start (n + 1) = m.storage[start] :: m.slice (start + 1) n := by
  rw [slice_eq, slice_eq, List.drop_eq_getElem_cons (by rwa [Array.length_toList]),
    List.take_succ_cons, Array.getElem_toList]

theorem toList_overwrite (m : Buffer) (start : Nat) (bytes : Bytes)
    (h : start + bytes.length ≤ m.capacity) :
    (m.overwrite start bytes).storage.toList =
      m.storage.toList.take start ++ bytes ++ m.storage.toList.drop (start + bytes.length) :=
  toList_writeAt _ _ _ h

theorem slice_overwrite {m : Buffer} {start : Nat} {bytes : Bytes}
    (h : start + bytes.length ≤ m.capacity) :
    (m.overwrite start bytes).slice start bytes.length = bytes := by
  have hl : (m.storage.toList.take start).length = start := by
    rw [List.length_take, Array.length_toList]
    exact Nat.min_eq_left (Nat.le_trans (Nat.le_add_right _ _) h)
  rw [slice_eq, toList_overwrite _ _ _ h, List.append_assoc, List.drop_left' hl, List.take_left]

/-! ## Messages -/

/-- The buffer with a message in place of what it held. -/
def message (m : Buffer) (magic : UInt16) (payload : Bytes) : Buffer :=
  (m.reset.put payload).finish magic

theorem payloadSize_message (m : Buffer) (magic : UInt16) (payload : Bytes) :
    (m.message magic payload).payloadSize = payload.length :=
  Nat.add_sub_cancel_left ..

/-- The packet of a finished buffer is its header and its payload. -/
theorem frame_finish {m : Buffer} (hm : m.WellFormed) (magic : UInt16) :
    (m.finish magic).frame = wordBytes magic ++ wordBytes (UInt16.ofNat m.payloadSize) ++
      m.slice headerSize m.payloadSize := by
  obtain ⟨header, hdef⟩ : ∃ header,
      header = wordBytes magic ++ wordBytes (UInt16.ofNat m.payloadSize) := ⟨_, rfl⟩
  have hlen : header.length = headerSize := by rw [hdef]; rfl
  have hpacket : headerSize ≤ m.len := hm.header_le_len
  have hroom : 0 + header.length ≤ m.capacity := by
    rw [Nat.zero_add, hlen]
    exact hm.header_le_capacity
  unfold finish
  rw [← hdef]
  show (m.overwrite 0 header).slice 0 m.len = _
  rw [slice_eq, toList_overwrite _ _ _ hroom, List.drop_zero, List.take_zero, List.nil_append,
    Nat.zero_add, List.take_append, List.take_of_length_le (by omega), hlen, slice_eq]
  rfl

/-- The packet of a message is its header and its payload. -/
theorem frame_message {m : Buffer} (magic : UInt16) {payload : Bytes}
    (h : headerSize + payload.length ≤ m.capacity) :
    (m.message magic payload).frame =
      wordBytes magic ++ wordBytes (UInt16.ofNat payload.length) ++ payload := by
  have hm : (m.reset.put payload).WellFormed :=
    (wellFormed_reset (Nat.le_trans (Nat.le_add_right ..) h)).put h
  have hsize : (m.reset.put payload).payloadSize = payload.length := Nat.add_sub_cancel_left ..
  have hslice : (m.reset.put payload).slice headerSize payload.length = payload :=
    slice_overwrite (m := m.reset) h
  rw [message, frame_finish hm, hsize, hslice]

/-! ## Reading -/

/-- The buffer after `n` bytes were read. -/
def advance (m : Buffer) (n : Nat) : Buffer := { m with pos := m.pos + n }

@[simp] theorem advance_advance (m : Buffer) (n k : Nat) :
    (m.advance n).advance k = m.advance (n + k) := by
  unfold advance
  rw [Nat.add_assoc]

theorem unread_eq (m : Buffer) : m.unread = (m.storage.toList.drop m.pos).take (m.len - m.pos) :=
  slice_eq ..

theorem unread_advance (m : Buffer) (n : Nat) : (m.advance n).unread = m.unread.drop n := by
  rw [unread_eq, unread_eq, List.drop_take, List.drop_drop]
  show List.take (m.len - (m.pos + n)) _ = _
  rw [Nat.sub_add_eq]
  rfl

theorem WellFormed.length_unread {m : Buffer} (hm : m.WellFormed) :
    m.unread.length = m.len - m.pos := by
  refine length_slice ?_
  rw [remaining, Nat.add_sub_cancel' hm.pos_le_len]
  exact hm.len_le_capacity

theorem WellFormed.advance {m : Buffer} (hm : m.WellFormed) {n : Nat} (h : n ≤ m.unread.length) :
    (m.advance n).WellFormed where
  header_le_pos := Nat.le_trans hm.header_le_pos (Nat.le_add_right _ _)
  pos_le_len := by
    have hp := hm.pos_le_len
    rw [hm.length_unread] at h
    show m.pos + n ≤ m.len
    omega
  len_le_capacity := hm.len_le_capacity

theorem WellFormed.advance_of_unread {m : Buffer} {x rest : Bytes} (hm : m.WellFormed)
    (hu : m.unread = x ++ rest) :
    (m.advance x.length).WellFormed ∧ (m.advance x.length).unread = rest := by
  constructor
  · exact hm.advance (by rw [hu, List.length_append]; omega)
  · rw [unread_advance, hu, List.drop_left]

/-- The bytes after the next `k` ones are those of the rest of the unread. -/
theorem slice_pos_add (m : Buffer) {k n : Nat} (h : k + n ≤ m.len - m.pos) :
    m.slice (m.pos + k) n = (m.unread.drop k).take n := by
  rw [slice_eq, unread_eq, List.drop_take, List.take_take, List.drop_drop]
  congr 1
  omega

theorem slice_pos {m : Buffer} {n : Nat} (h : ¬ m.len < m.pos + n) :
    m.slice m.pos n = m.unread.take n := by
  have hs := slice_pos_add m (k := 0) (n := n) (by omega)
  rwa [Nat.add_zero, List.drop_zero] at hs

end AjpGateway.Packet.Buffer
