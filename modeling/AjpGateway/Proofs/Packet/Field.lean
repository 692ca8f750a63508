import AjpGateway.Proofs.Packet.Storage
import AjpGateway.Proofs.Running

/-!
# Fields on the wire

The bytes of each kind of field, and what writing and reading a field does to a buffer.  A step
that `Writes` bytes adds them where they fit and overflows where they do not; a step that `Reads` a
value from bytes gives it back, whatever follows them.  Both go through sequences of steps
(`Writes.seq`, `Reads.bind`), so a message is read back once each of its fields is.

    Writes (appendText? s) (Wire.text? s)                                (writes_appendText?)
    (Wire.text? s).length ≤ 0xFFFF → Reads readText? (Wire.text? s) s    (reads_readText?)
-/

namespace AjpGateway.Packet

/-! ## Bytes of fields -/

namespace Wire

open Buffer

/-- A text behind its length and before a NUL. -/
def text (s : String) : Bytes :=
  wordBytes (UInt16.ofNat (Text.utf8 s).length) ++ Text.utf8 s ++ [0]

/-- A text that may be absent. -/
def text? : Option String → Bytes
  | none => wordBytes absentLength
  | some s => text s

/-- Data behind its length. -/
def chunk (data : Bytes) : Bytes := wordBytes (UInt16.ofNat data.length) ++ data

@[simp] theorem length_text (s : String) : (text s).length = s.utf8ByteSize + 3 := by
  unfold text
  rw [List.length_append, List.length_append, length_wordBytes, Text.length_utf8]
  show 2 + s.utf8ByteSize + 1 = _
  omega

end Wire

open Buffer

/-! ## Steps that write -/

/-- In buffers of an admissible size `act` adds `bytes` where they fit, and overflows where they do
not. -/
structure Writes (act : Marshal Unit) (bytes : Bytes) : Prop where
  fits {m : Buffer} : m.WellFormed → m.capacity ≤ largestSize →
    m.len + bytes.length ≤ m.capacity → act.run m = (.ok (), m.put bytes)
  overflows {m : Buffer} : m.WellFormed → m.capacity ≤ largestSize →
    m.capacity < m.len + bytes.length →
    ∃ offset needed limit m', act.run m = (.error (.overflow offset needed limit), m')

theorem Writes.nothing : Writes (pure ()) [] where
  fits _ _ _ := rfl
  overflows hm _ h := absurd h (Nat.not_lt.2 hm.len_le_capacity)

theorem Writes.seq {a b : Marshal Unit} {x y : Bytes} (ha : Writes a x) (hb : Writes b y) :
    Writes (a >>= fun _ => b) (x ++ y) where
  fits {m} hm hc h := by
    rw [List.length_append] at h
    have hx : m.len + x.length ≤ m.capacity := by omega
    have h2 := hb.fits (hm.put hx) (by rwa [capacity_put]) (by rw [len_put, capacity_put]; omega)
    rw [run_bind_of_ok (ha.fits hm hc hx), h2, put_put]
  overflows {m} hm hc h := by
    rw [List.length_append] at h
    by_cases hx : m.len + x.length ≤ m.capacity
    · obtain ⟨o, n, l, m', h2⟩ := hb.overflows (hm.put hx) (by rwa [capacity_put])
        (by rw [len_put, capacity_put]; omega)
      exact ⟨o, n, l, m', by rw [run_bind_of_ok (ha.fits hm hc hx), h2]⟩
    · obtain ⟨o, n, l, m', h1⟩ := ha.overflows hm hc (by omega)
      exact ⟨o, n, l, m', run_bind_of_error h1⟩

theorem run_append_of_le {bytes : Bytes} {m : Buffer} (h : m.len + bytes.length ≤ m.capacity) :
    (append bytes).run m = (.ok (), m.put bytes) := by
  unfold append
  rw [run_bind_of_ok (run_get m), if_neg (by omega), run_set]

theorem run_append_of_lt {bytes : Bytes} {m : Buffer} (h : m.capacity < m.len + bytes.length) :
    (append bytes).run m = (.error (m.overflowing bytes.length), m) := by
  unfold append
  rw [run_bind_of_ok (run_get m), if_pos h, run_throw]

theorem writes_append (bytes : Bytes) : Writes (append bytes) bytes where
  fits _ _ h := run_append_of_le h
  overflows _ _ h := ⟨_, _, _, _, run_append_of_lt h⟩

theorem writes_appendByte (b : UInt8) : Writes (appendByte b) [b] := writes_append [b]

theorem writes_appendWord (w : UInt16) : Writes (appendWord w) (wordBytes w) :=
  writes_append (wordBytes w)

/-- A text that is too long to be written would not fit in any buffer of an admissible size. -/
theorem writes_appendText (s : String) : Writes (appendText s) (Wire.text s) where
  fits {m} hm hc h := by
    have hh := hm.header_le_len
    have hl : ¬ absentLength.toNat ≤ (Text.utf8 s).length := by
      rw [Wire.length_text] at h
      rw [Text.length_utf8]
      show ¬ 65535 ≤ s.utf8ByteSize
      simp only [headerSize, largestSize] at hh hc
      omega
    unfold appendText
    simp only [if_neg hl]
    exact run_append_of_le h
  overflows {m} hm hc h := by
    unfold appendText
    by_cases hl : absentLength.toNat ≤ (Text.utf8 s).length
    · simp only [if_pos hl]
      exact ⟨_, _, _, _, by rw [run_bind_of_ok (run_get m), run_throw]; rfl⟩
    · simp only [if_neg hl]
      exact ⟨_, _, _, _, run_append_of_lt h⟩

theorem writes_appendText? (s : Option String) : Writes (appendText? s) (Wire.text? s) := by
  cases s with
  | none => exact writes_appendWord absentLength
  | some s => exact writes_appendText s

theorem writes_appendChunk (data : Bytes) : Writes (appendChunk data) (Wire.chunk data) where
  fits {m} hm hc h := by
    have hh := hm.header_le_len
    have hl : ¬ 0xFFFF < data.length := by
      rw [Wire.chunk, List.length_append, length_wordBytes] at h
      simp only [headerSize, largestSize] at hh hc
      omega
    unfold appendChunk
    rw [if_neg hl]
    exact run_append_of_le h
  overflows {m} hm hc h := by
    unfold appendChunk
    by_cases hl : 0xFFFF < data.length
    · rw [if_pos hl]
      exact ⟨_, _, _, _, by rw [run_bind_of_ok (run_get m), run_throw]; rfl⟩
    · rw [if_neg hl]
      exact ⟨_, _, _, _, run_append_of_lt h⟩

/-- A message that fits is written: the header before what its fields write. -/
theorem Writes.run_message {act : Marshal Unit} {bytes : Bytes} {m : Buffer} {magic : UInt16}
    (ha : Writes act bytes) (hc : m.capacity ≤ largestSize)
    (h : headerSize + bytes.length ≤ m.capacity) :
    (do modify reset; act; modify (finish · magic) : Marshal Unit).run m =
      (.ok (), m.message magic bytes) := by
  have hm : m.reset.WellFormed := wellFormed_reset (Nat.le_trans (Nat.le_add_right _ _) h)
  rw [run_bind_of_ok (run_modify ..), run_bind_of_ok (ha.fits hm hc h), run_modify]
  rfl

/-- A message that was written is the header before what its fields wrote, and fits. -/
theorem Writes.eq_message_of_le {act : Marshal Unit} {bytes : Bytes} {m sent : Buffer}
    {magic : UInt16} (ha : Writes act bytes) (hc : m.capacity ≤ largestSize)
    (hm : headerSize ≤ m.capacity)
    (h : (do modify reset; act; modify (finish · magic) : Marshal Unit).run m = (.ok (), sent)) :
    headerSize + bytes.length ≤ m.capacity ∧ sent = m.message magic bytes := by
  by_cases hf : headerSize + bytes.length ≤ m.capacity
  · rw [ha.run_message hc hf] at h
    exact ⟨hf, (Prod.mk.inj h).2.symm⟩
  · obtain ⟨o, n, l, m', he⟩ := ha.overflows (wellFormed_reset hm) hc (Nat.not_le.1 hf)
    rw [run_bind_of_ok (run_modify ..), run_bind_of_error he] at h
    cases h

/-- There was room for the header, since there was for the message type. -/
theorem Writes.eq_message {type : UInt8} {act : Marshal Unit} {bytes : Bytes} {m sent : Buffer}
    {magic : UInt16} (ha : Writes (do appendByte type; act) bytes) (hc : m.capacity ≤ largestSize)
    (h : (do
      modify reset
      (do appendByte type; act)
      modify (finish · magic) : Marshal Unit).run m = (.ok (), sent)) :
    headerSize + bytes.length ≤ m.capacity ∧ sent = m.message magic bytes := by
  by_cases hm : headerSize ≤ m.capacity
  · exact ha.eq_message_of_le hc hm h
  · have htype : m.reset.capacity < m.reset.len + [type].length := by
      show m.capacity < headerSize + 1
      omega
    have he : (appendByte type).run m.reset = _ := run_append_of_lt htype
    rw [run_bind_of_ok (run_modify ..), run_bind_of_error (run_bind_of_error he)] at h
    cases h

/-! ## Steps that read -/

/-- `act` reads `a` from `bytes`, whatever follows them. -/
def Reads {α : Type} (act : Marshal α) (bytes : Bytes) (a : α) : Prop :=
  ∀ (m : Buffer) (rest : Bytes), m.WellFormed → m.unread = bytes ++ rest →
    act.run m = (.ok a, m.advance bytes.length)

section
variable {α β : Type}

theorem Reads.pure (a : α) : Reads (pure a) [] a := fun _ _ _ _ => rfl

/-- `act` takes `bytes` off, whatever follows them, and goes on as `next`. -/
def Leads (act : Marshal α) (bytes : Bytes) (next : Marshal α) : Prop :=
  ∀ (m : Buffer) (rest : Bytes), m.WellFormed → m.unread = bytes ++ rest →
    act.run m = next.run (m.advance bytes.length)

theorem Reads.leads {act : Marshal α} {f : α → Marshal β} {x : Bytes} {a : α}
    (ha : Reads act x a) : Leads (act >>= f) x (f a) :=
  fun m rest hm hu => run_bind_of_ok (ha m rest hm hu)

theorem Leads.trans {a b c : Marshal α} {x y : Bytes} (hab : Leads a x b) (hbc : Leads b y c) :
    Leads a (x ++ y) c := by
  intro m rest hm hu
  rw [List.append_assoc] at hu
  obtain ⟨hm', hu'⟩ := hm.advance_of_unread hu
  rw [hab m _ hm hu, hbc _ rest hm' hu', advance_advance, List.length_append]

theorem Leads.reads {act next : Marshal α} {x y : Bytes} {a : α} (h : Leads act x next)
    (ha : Reads next y a) : Reads act (x ++ y) a :=
  h.trans ha

theorem Reads.bind {act : Marshal α} {f : α → Marshal β} {x y : Bytes} {a : α} {b : β}
    (ha : Reads act x a) (hb : Reads (f a) y b) : Reads (act >>= f) (x ++ y) b :=
  ha.leads.reads hb

/-- A last step that only gives the result another form reads nothing more. -/
theorem Reads.bind_pure {act : Marshal α} {f : α → β} {x : Bytes} {a : α} (ha : Reads act x a) :
    Reads (act >>= fun a => Pure.pure (f a)) x (f a) := by
  have h := ha.bind (f := fun a => Pure.pure (f a)) (Reads.pure (f a))
  rwa [List.append_nil] at h

theorem run_peek {bytes rest : Bytes} {m : Buffer} (hm : m.WellFormed)
    (hu : m.unread = bytes ++ rest) : (peek bytes.length).run m = (.ok bytes, m) := by
  have hl := hm.length_unread
  have hp := hm.pos_le_len
  rw [hu, List.length_append] at hl
  have hs := slice_pos_add m (k := 0) (n := bytes.length) (by omega)
  rw [Nat.add_zero, List.drop_zero, hu, List.take_left] at hs
  unfold peek
  rw [run_bind_of_ok (run_get m), if_neg (by omega), run_pure, hs]

theorem reads_take (bytes : Bytes) : Reads (take bytes.length) bytes bytes := by
  intro m rest hm hu
  unfold take
  rw [run_bind_of_ok (run_peek hm hu), run_bind_of_ok (run_modify _ m), run_pure]
  rfl

theorem reads_readByte (b : UInt8) : Reads readByte [b] b :=
  (reads_take [b]).bind_pure

theorem reads_readWord (w : UInt16) : Reads readWord (wordBytes w) w := by
  have h := (reads_take (wordBytes w)).bind_pure (f := wordOf)
  have hw := wordOf_wordBytes w []
  rw [List.append_nil] at hw
  rwa [hw] at h

/-- Data behind its length is read as it was. -/
theorem reads_chunk {data : Bytes} (hf : (Wire.chunk data).length ≤ 0xFFFF) :
    Reads (do take (← readWord).toNat) (Wire.chunk data) data := by
  have hsize : (UInt16.ofNat data.length).toNat = data.length := by
    rw [Wire.chunk, List.length_append, length_wordBytes] at hf
    rw [UInt16.toNat_ofNat']
    omega
  refine (reads_readWord _).bind ?_
  rw [hsize]
  exact reads_take data

theorem run_peekWord {w : UInt16} {rest : Bytes} {m : Buffer} (hm : m.WellFormed)
    (hu : m.unread = wordBytes w ++ rest) : peekWord.run m = (.ok w, m) := by
  have hw := wordOf_wordBytes w []
  rw [List.append_nil] at hw
  have hp : (peek 2).run m = (.ok (wordBytes w), m) := run_peek hm hu
  unfold peekWord
  rw [run_bind_of_ok hp, run_pure, hw]

theorem reads_readText?_some {s : String} (hs : s.utf8ByteSize < 0xFFFF) :
    Reads readText? (Wire.text s) (some s) := by
  intro m rest hm hu
  have hl := hm.length_unread
  have hp := hm.pos_le_len
  rw [hu, List.length_append, Wire.length_text] at hl
  have hw : (UInt16.ofNat (Text.utf8 s).length).toNat = s.utf8ByteSize := by
    rw [Text.length_utf8, UInt16.toNat_ofNat']
    omega
  have ha : UInt16.ofNat (Text.utf8 s).length ≠ absentLength := by
    intro h
    have hn := congrArg UInt16.toNat h
    rw [hw] at hn
    exact absurd hn (Nat.ne_of_lt hs)
  have hbytes : m.slice (m.pos + 2) s.utf8ByteSize = Text.utf8 s := by
    have hd : (Wire.text s ++ rest).drop 2 = Text.utf8 s ++ ([0] ++ rest) := by
      rw [Wire.text, List.append_assoc, List.append_assoc]
      exact List.drop_left' rfl
    rw [slice_pos_add m (by omega), hu, hd, ← Text.length_utf8, List.take_left]
  have hword := reads_readWord (UInt16.ofNat (Text.utf8 s).length) m
    (Text.utf8 s ++ ([0] ++ rest)) hm (by rw [hu, Wire.text]; simp only [List.append_assoc])
  have henough : ¬ m.len < m.pos + 2 + s.utf8ByteSize + 1 := by omega
  have hpos : m.pos + 2 + s.utf8ByteSize + 1 = m.pos + (s.utf8ByteSize + 3) := by omega
  unfold readText?
  rw [run_bind_of_ok (run_get m), run_bind_of_ok hword, if_neg ha, hw]
  simp only [length_wordBytes]
  rw [run_bind_of_ok (run_get _), Buffer.advance, if_neg henough, run_bind_of_ok (run_set ..),
    run_pure]
  show (Except.ok (some (Text.readText (m.slice (m.pos + 2) s.utf8ByteSize))),
    { m with pos := m.pos + 2 + s.utf8ByteSize + 1 }) = _
  rw [hbytes, Text.readText_utf8, hpos, Wire.length_text]
  rfl

theorem reads_readText?_none : Reads readText? (wordBytes absentLength) none := by
  intro m rest hm hu
  unfold readText?
  rw [run_bind_of_ok (run_get m), run_bind_of_ok (reads_readWord absentLength m rest hm hu),
    if_pos rfl, run_pure]

/-- The length of an absent text is that of no text, so the two are told apart. -/
theorem reads_readText? {s : Option String} (hs : (Wire.text? s).length ≤ 0xFFFF) :
    Reads readText? (Wire.text? s) s := by
  cases s with
  | none => exact reads_readText?_none
  | some s =>
    rw [Wire.text?, Wire.length_text] at hs
    exact reads_readText?_some (by omega)

theorem reads_readText {s : String} (hs : (Wire.text s).length ≤ 0xFFFF) (field : String) :
    Reads (readText field) (Wire.text s) s := by
  intro m rest hm hu
  rw [Wire.length_text] at hs
  unfold readText
  rw [run_bind_of_ok (reads_readText?_some (by omega) m rest hm hu)]
  rfl

end

end AjpGateway.Packet
