import AjpGateway.Proofs.Packet.Decoding

/-!
# Checked accesses

The operations of a buffer once more, with every access to the storage checked: one that does not
lie inside of it, or a difference below zero, comes to nothing at all.  On a well-formed buffer this
never happens, and each operation does what the unchecked one does.

    m.WellFormed → (Checked.parseHeader magic).run m = some ((Buffer.parseHeader magic).run m)
                                                                         (Agrees.parseHeader)
    m.WellFormed → Checked.readText?.run m = some (Buffer.readText?.run m)   (Agrees.readText?)
-/

namespace AjpGateway.Packet

/-- Work on a buffer with checked accesses; there is no outcome where one fails. -/
abbrev Checked := ExceptT PacketError (StateT Buffer Option)

/-- A change of stored bytes in place. -/
structure Edit where
  apply : Bytes → Bytes
  length_apply (old : Bytes) : (apply old).length = old.length

namespace Checked

open Buffer

variable {α β : Type}

/-! ## Accesses -/

def fault : Checked α := fun _ => none

def difference (a b : Nat) : Checked Nat := if b ≤ a then return a - b else fault

def byteAt (i : Nat) : Checked UInt8 := do
  match (← get).storage[i]? with
  | some b => return b
  | none => fault

/-- The bytes from `start` up to `stop`. -/
def slice (start stop : Nat) : Checked Bytes := do
  let m ← get
  if start ≤ stop ∧ stop ≤ m.capacity then return m.slice start (stop - start) else fault

/-- Replaces the bytes from `start` up to `stop`, which are as many as the new ones. -/
def overwrite (start stop : Nat) (bytes : Bytes) : Checked Unit := do
  let m ← get
  if start + bytes.length = stop ∧ stop ≤ m.capacity then set (m.overwrite start bytes) else fault

/-! ## Operations -/

def edit (e : Edit) (start stop : Nat) : Checked Unit := do
  overwrite start stop (e.apply (← slice start stop))

def editHeader (e : Edit) : Checked Unit := edit e 0 headerSize

def editPayload (e : Edit) : Checked Unit := do edit e headerSize (← get).len

def finish (magic : UInt16) : Checked Unit := do
  let size ← difference (← get).len headerSize
  overwrite 0 2 (wordBytes magic)
  overwrite 2 4 (wordBytes (UInt16.ofNat size))

def put (bytes : Bytes) : Checked Unit := do
  let start := (← get).len
  overwrite start (start + bytes.length) bytes
  modify fun m => { m with len := m.len + bytes.length }

def putAll : List Bytes → Checked Unit
  | [] => return
  | piece :: rest => do
    put piece
    putAll rest

/-- Adds all pieces if they fit, one after the other. -/
def add (pieces : List Bytes) : Checked Unit := do
  let m ← get
  let needed := pieces.flatten.length
  if m.capacity < m.len + needed then throw (m.overflowing needed)
  else putAll pieces

def appendText (s : String) : Checked Unit := do
  let bytes := Text.utf8 s
  if absentLength.toNat ≤ bytes.length then throw ((← get).overflowing (bytes.length + 3))
  else add [wordBytes (UInt16.ofNat bytes.length), bytes, [0]]

def appendText? : Option String → Checked Unit
  | none => add [wordBytes absentLength]
  | some s => appendText s

def appendChunk (data : Bytes) : Checked Unit := do
  if 0xFFFF < data.length then throw ((← get).overflowing (data.length + 2))
  else add [wordBytes (UInt16.ofNat data.length), data]

def parseHeader (expected : UInt16) : Checked Nat := do
  let found := word (← byteAt 0) (← byteAt 1)
  if found ≠ expected then throw (.badMagic expected found)
  else
    let size := (word (← byteAt 2) (← byteAt 3)).toNat
    let m ← get
    if (← difference m.capacity headerSize) < size then throw (.frameTooLarge size m.capacity)
    else
      set { m with len := headerSize + size, pos := headerSize }
      return size

/-- Fails unless `n` bytes are left. -/
def need (n : Nat) : Checked Unit := do
  let m ← get
  if m.len < m.pos + n then throw (m.exhausted n)

def take (n : Nat) : Checked Bytes := do
  need n
  let start := (← get).pos
  modify fun m => { m with pos := m.pos + n }
  slice start (start + n)

/-- The byte at a place of bytes that were taken. -/
def nth (bytes : Bytes) (i : Nat) : Checked UInt8 :=
  match bytes[i]? with
  | some b => return b
  | none => fault

def readByte : Checked UInt8 := do nth (← take 1) 0

def peekByte : Checked UInt8 := do
  need 1
  byteAt (← get).pos

def readWord : Checked UInt16 := do
  let bytes ← take 2
  return word (← nth bytes 0) (← nth bytes 1)

def peekWord : Checked UInt16 := do
  need 2
  let start := (← get).pos
  return word (← byteAt start) (← byteAt (start + 1))

def readLong : Checked UInt32 := do
  let bytes ← take 4
  return long (← nth bytes 0) (← nth bytes 1) (← nth bytes 2) (← nth bytes 3)

def readText? : Checked (Option String) := do
  let start := (← get).pos
  let size ← readWord
  if size = absentLength then return none
  else
    let n := size.toNat
    let m ← get
    if m.len < m.pos + n + 1 then
      set { m with pos := start }
      throw (m.exhausted (n + 1))
    else
      let bytes ← slice m.pos (m.pos + n)
      set { m with pos := m.pos + n + 1 }
      return some (Text.readText bytes)

def frame : Checked Bytes := do slice 0 (← get).len

def payloadSize : Checked Nat := do difference (← get).len headerSize

def remaining : Checked Nat := do
  let m ← get
  difference m.len m.pos

def dump : Checked String := do
  let bytes ← frame
  return String.join ((List.range ((bytes.length + 15) / 16)).map fun i =>
    dumpLine (16 * i) ((bytes.drop (16 * i)).take 16))

/-! ## Running -/

variable {m m' : Buffer}

theorem run_bind_of_ok {x : Checked α} {f : α → Checked β} {a : α}
    (h : x.run m = some (.ok a, m')) : (x >>= f).run m = (f a).run m' := by
  show (x.run m >>= fun p => ExceptT.bindCont f p.1 p.2) = _
  rw [h]
  rfl

theorem run_bind_of_error {x : Checked α} {f : α → Checked β} {e : PacketError}
    (h : x.run m = some (.error e, m')) : (x >>= f).run m = some (.error e, m') := by
  show (x.run m >>= fun p => ExceptT.bindCont f p.1 p.2) = _
  rw [h]
  rfl

theorem run_get (m : Buffer) : (get : Checked Buffer).run m = some (.ok m, m) := rfl

theorem run_difference {a b : Nat} (h : b ≤ a) :
    (difference a b).run m = some (.ok (a - b), m) := by
  rw [difference, if_pos h]
  rfl

theorem run_byteAt {i : Nat} (h : i < m.storage.size) :
    (byteAt i).run m = some (.ok m.storage[i], m) := by
  unfold byteAt
  rw [run_bind_of_ok (run_get m), Array.getElem?_eq_getElem h]
  rfl

theorem run_slice {start n : Nat} (h : start + n ≤ m.capacity) :
    (slice start (start + n)).run m = some (.ok (m.slice start n), m) := by
  unfold slice
  rw [run_bind_of_ok (run_get m), if_pos ⟨Nat.le_add_right _ _, h⟩, Nat.add_sub_cancel_left]
  rfl

theorem run_overwrite {start : Nat} {bytes : Bytes} (h : start + bytes.length ≤ m.capacity) :
    (overwrite start (start + bytes.length) bytes).run m =
      some (.ok (), m.overwrite start bytes) := by
  unfold overwrite
  rw [run_bind_of_ok (run_get m), if_pos ⟨rfl, h⟩]
  rfl

theorem run_need_of_lt {n : Nat} (h : m.len < m.pos + n) :
    (need n).run m = some (.error (m.exhausted n), m) := by
  unfold need
  rw [run_bind_of_ok (run_get m), if_pos h]
  rfl

theorem run_need_of_le {n : Nat} (h : ¬ m.len < m.pos + n) :
    (need n).run m = some (.ok (), m) := by
  unfold need
  rw [run_bind_of_ok (run_get m), if_neg h]
  rfl

theorem run_put {bytes : Bytes} (h : m.len + bytes.length ≤ m.capacity) :
    (put bytes).run m = some (.ok (), m.put bytes) := by
  unfold put
  rw [run_bind_of_ok (run_get m), run_bind_of_ok (run_overwrite h)]
  rfl

/-- Pieces that fit together are added as one. -/
theorem run_putAll (pieces : List Bytes) (h : m.len + pieces.flatten.length ≤ m.capacity) :
    (putAll pieces).run m = some (.ok (), m.put pieces.flatten) := by
  induction pieces generalizing m with
  | nil => rfl
  | cons piece rest ih =>
    rw [List.flatten_cons, List.length_append] at h
    have hrest : (m.put piece).len + rest.flatten.length ≤ (m.put piece).capacity := by
      rw [len_put, capacity_put]
      omega
    rw [putAll, run_bind_of_ok (run_put (by omega)), ih hrest, put_put, List.flatten_cons]

end Checked

/-! ## The same outcomes -/

/-- On well-formed buffers no access of `c` fails, and `c` does what `act` does. -/
def Agrees {α : Type} (c : Checked α) (act : Marshal α) : Prop :=
  ∀ m : Buffer, m.WellFormed → c.run m = some (act.run m)

namespace Agrees

open Buffer

variable {α : Type}

/-! ### Writing -/

theorem add (pieces : List Bytes) : Agrees (Checked.add pieces) (append pieces.flatten) := by
  intro m _
  unfold Checked.add
  rw [Checked.run_bind_of_ok (Checked.run_get m)]
  by_cases h : m.capacity < m.len + pieces.flatten.length
  · simp only [if_pos h]
    rw [run_append_of_lt h]
    rfl
  · simp only [if_neg h]
    rw [run_append_of_le (Nat.le_of_not_lt h), Checked.run_putAll pieces (Nat.le_of_not_lt h)]

theorem appendText? (s : Option String) :
    Agrees (Checked.appendText? s) (Buffer.appendText? s) := by
  cases s with
  | none => exact add [wordBytes absentLength]
  | some s =>
    have h := add [wordBytes (UInt16.ofNat (Text.utf8 s).length), Text.utf8 s, [0]]
    intro m hm
    unfold Checked.appendText? Checked.appendText Buffer.appendText? appendText
    by_cases hl : absentLength.toNat ≤ (Text.utf8 s).length
    · simp only [if_pos hl]
      rfl
    · simp only [if_neg hl]
      have hrun := h m hm
      simpa using hrun

theorem appendChunk (data : Bytes) :
    Agrees (Checked.appendChunk data) (Buffer.appendChunk data) := by
  have h := add [wordBytes (UInt16.ofNat data.length), data]
  intro m hm
  unfold Checked.appendChunk Buffer.appendChunk
  by_cases hl : 0xFFFF < data.length
  · rw [if_pos hl, if_pos hl]
    rfl
  · rw [if_neg hl, if_neg hl]
    simpa using h m hm

/-- The two words of the header are next to each other. -/
theorem finish (magic : UInt16) :
    Agrees (Checked.finish magic) (modify (Buffer.finish · magic)) := by
  intro m hm
  have hroom := hm.header_le_capacity
  have hfour : headerSize = 4 := rfl
  have hword (b : Buffer) (start : Nat) (w : UInt16) (h : start + 2 ≤ b.capacity) :
      (Checked.overwrite start (start + 2) (wordBytes w)).run b =
        some (.ok (), b.overwrite start (wordBytes w)) :=
    Checked.run_overwrite h
  have hfirst := hword m 0 magic (by omega)
  have hsecond := hword (m.overwrite 0 (wordBytes magic)) 2 (UInt16.ofNat m.payloadSize)
    (by rw [capacity_overwrite]; omega)
  unfold Checked.finish
  rw [Checked.run_bind_of_ok (Checked.run_get m),
    Checked.run_bind_of_ok (Checked.run_difference hm.header_le_len),
    Checked.run_bind_of_ok hfirst]
  refine hsecond.trans ?_
  rw [run_modify, Buffer.finish, Buffer.overwrite, Buffer.overwrite, Buffer.overwrite,
    writeAt_append]
  rfl

theorem edit (e : Edit) {start n : Nat} {m : Buffer} (h : start + n ≤ m.capacity) :
    (Checked.edit e start (start + n)).run m =
      some (.ok (), m.overwrite start (e.apply (m.slice start n))) := by
  have hl : (e.apply (m.slice start n)).length = n := by
    rw [e.length_apply, length_slice h]
  have hfits : start + (e.apply (m.slice start n)).length ≤ m.capacity := by
    rwa [hl]
  have hover := Checked.run_overwrite hfits
  rw [hl] at hover
  unfold Checked.edit
  rw [Checked.run_bind_of_ok (Checked.run_slice h), hover]

/-! ### Receiving -/

theorem parseHeader (magic : UInt16) :
    Agrees (Checked.parseHeader magic) (Buffer.parseHeader magic) := by
  intro m hm
  have hroom := hm.header_le_capacity
  have hsize : 4 ≤ m.storage.size := hroom
  have hslice : m.slice 0 headerSize =
      [m.storage[0], m.storage[1], m.storage[2], m.storage[3]] := by
    show m.slice 0 (0 + 1 + 1 + 1 + 1) = _
    rw [slice_succ (by omega), slice_succ (by omega), slice_succ (by omega),
      slice_succ (by omega), slice_eq, List.take_zero]
  unfold Checked.parseHeader Buffer.parseHeader
  rw [run_bind_of_ok (AjpGateway.run_get m), hslice,
    Checked.run_bind_of_ok (Checked.run_byteAt (by omega)),
    Checked.run_bind_of_ok (Checked.run_byteAt (by omega))]
  by_cases hmagic : word m.storage[0] m.storage[1] ≠ magic
  · simp only [if_pos hmagic]
    rfl
  · simp only [if_neg hmagic]
    rw [Checked.run_bind_of_ok (Checked.run_byteAt (by omega)),
      Checked.run_bind_of_ok (Checked.run_byteAt (by omega)),
      Checked.run_bind_of_ok (Checked.run_get m),
      Checked.run_bind_of_ok (Checked.run_difference hroom)]
    by_cases hlarge : m.capacity - headerSize < (word m.storage[2] m.storage[3]).toNat
    · simp only [if_pos hlarge]
      rfl
    · simp only [if_neg hlarge]
      rfl

/-! ### Reading -/

/-- What is made of the next bytes where they are. -/
theorem peek {n : Nat} {f : Checked α} {g : Bytes → α}
    (hf : ∀ m : Buffer, m.WellFormed → m.pos + n ≤ m.len →
      f.run m = some (.ok (g (m.slice m.pos n)), m)) :
    Agrees (do Checked.need n; f) (do return g (← Buffer.peek n)) := by
  intro m hm
  by_cases h : m.len < m.pos + n
  · rw [Checked.run_bind_of_error (Checked.run_need_of_lt h),
      run_bind_of_error (run_peek_of_lt h)]
  · rw [Checked.run_bind_of_ok (Checked.run_need_of_le h), hf m hm (Nat.not_lt.1 h),
      run_bind_of_ok (run_peek_of_le h), run_pure, slice_pos h]

theorem take (n : Nat) : Agrees (Checked.take n) (Buffer.take n) := by
  intro m hm
  unfold Checked.take
  by_cases h : m.len < m.pos + n
  · rw [Checked.run_bind_of_error (Checked.run_need_of_lt h), run_take_of_lt h]
  · have hroom : m.pos + n ≤ (m.advance n).capacity :=
      Nat.le_trans (Nat.not_lt.1 h) hm.len_le_capacity
    rw [Checked.run_bind_of_ok (Checked.run_need_of_le h),
      Checked.run_bind_of_ok (Checked.run_get m), run_take_of_le h, ← slice_pos h]
    exact Checked.run_slice hroom

/-- What is made of the next bytes once they are taken. -/
theorem taken {n : Nat} {f : Bytes → Checked α} {g : Bytes → α}
    (hf : ∀ (bytes : Bytes) (m : Buffer), bytes.length = n →
      (f bytes).run m = some (.ok (g bytes), m)) :
    Agrees (do f (← Checked.take n)) (do return g (← Buffer.take n)) := by
  intro m hm
  have htake := take n m hm
  by_cases h : m.len < m.pos + n
  · rw [run_take_of_lt h] at htake
    rw [Checked.run_bind_of_error htake, run_bind_of_error (run_take_of_lt h)]
  · have hl : (m.unread.take n).length = n := by
      rw [List.length_take, hm.length_unread]
      omega
    rw [run_take_of_le h] at htake
    rw [Checked.run_bind_of_ok htake, hf _ _ hl, run_bind_of_ok (run_take_of_le h), run_pure]

theorem readByte : Agrees Checked.readByte Buffer.readByte := by
  refine taken fun bytes m hl => ?_
  match bytes, hl with
  | [_], _ => rfl

theorem readWord : Agrees Checked.readWord Buffer.readWord := by
  refine taken fun bytes m hl => ?_
  match bytes, hl with
  | [_, _], _ => rfl

theorem readLong : Agrees Checked.readLong Buffer.readLong := by
  refine taken fun bytes m hl => ?_
  match bytes, hl with
  | [_, _, _, _], _ => rfl

theorem peekByte : Agrees Checked.peekByte Buffer.peekByte := by
  refine peek fun m hm h => ?_
  have hroom : m.pos < m.storage.size := Nat.lt_of_lt_of_le h hm.len_le_capacity
  rw [Checked.run_bind_of_ok (Checked.run_get m), Checked.run_byteAt hroom, slice_succ hroom]
  rfl

theorem peekWord : Agrees Checked.peekWord Buffer.peekWord := by
  refine peek fun m hm h => ?_
  have hroom : m.pos + 1 < m.storage.size := Nat.lt_of_lt_of_le h hm.len_le_capacity
  have hfirst : m.pos < m.storage.size := Nat.lt_of_succ_lt hroom
  rw [Checked.run_bind_of_ok (Checked.run_get m),
    Checked.run_bind_of_ok (Checked.run_byteAt hfirst),
    Checked.run_bind_of_ok (Checked.run_byteAt hroom), slice_succ hfirst, slice_succ hroom]
  rfl

theorem readText? : Agrees Checked.readText? Buffer.readText? := by
  intro m hm
  have hword := readWord m hm
  unfold Checked.readText? Buffer.readText?
  rw [Checked.run_bind_of_ok (Checked.run_get m), run_bind_of_ok (AjpGateway.run_get m)]
  by_cases h : m.len < m.pos + 2
  · rw [run_readWord_of_lt h] at hword
    rw [Checked.run_bind_of_error hword, run_bind_of_error (run_readWord_of_lt h)]
  · rw [run_readWord_of_le h] at hword
    rw [Checked.run_bind_of_ok hword, run_bind_of_ok (run_readWord_of_le h)]
    generalize wordOf (m.unread.take 2) = size
    by_cases ha : size = absentLength
    · rw [if_pos ha, if_pos ha]
      rfl
    · rw [if_neg ha, if_neg ha, Checked.run_bind_of_ok (Checked.run_get _),
        run_bind_of_ok (AjpGateway.run_get _)]
      by_cases hlong : (m.advance 2).len < (m.advance 2).pos + size.toNat + 1
      · simp only [if_pos hlong]
        rfl
      · have hroom : (m.advance 2).pos + size.toNat ≤ (m.advance 2).capacity := by
          have hlen : (m.advance 2).len ≤ (m.advance 2).capacity := hm.len_le_capacity
          omega
        simp only [if_neg hlong]
        rw [Checked.run_bind_of_ok (Checked.run_slice hroom)]
        rfl

/-! ### Looking -/

theorem run_frame {m : Buffer} (hm : m.WellFormed) :
    Checked.frame.run m = some (.ok m.frame, m) := by
  have hroom : 0 + m.len ≤ m.capacity := by
    rw [Nat.zero_add]
    exact hm.len_le_capacity
  have hslice := Checked.run_slice hroom
  rw [Nat.zero_add] at hslice
  exact hslice

theorem frame : Agrees Checked.frame (do return (← get).frame) := fun _ hm => run_frame hm

theorem payloadSize : Agrees Checked.payloadSize (do return (← get).payloadSize) :=
  fun _ hm => Checked.run_difference hm.header_le_len

theorem remaining : Agrees Checked.remaining (do return (← get).remaining) :=
  fun _ hm => Checked.run_difference hm.pos_le_len

/-- The lines cut from the frame are the lines cut from the storage. -/
theorem dump : Agrees Checked.dump (do return (← get).dump) := by
  intro m hm
  have hlen : m.frame.length = m.len := length_slice (by have := hm.len_le_capacity; omega)
  have hline (i : Nat) : (m.frame.drop (16 * i)).take 16 =
      m.slice (16 * i) (min 16 (m.len - 16 * i)) := by
    rw [Buffer.frame, slice_eq, slice_eq, List.drop_zero, List.drop_take, List.take_take]
  unfold Checked.dump
  rw [Checked.run_bind_of_ok (run_frame hm), run_bind_of_ok (AjpGateway.run_get m), run_pure,
    Buffer.dump, hlen]
  simp only [hline]
  rfl

end Agrees

end AjpGateway.Packet
