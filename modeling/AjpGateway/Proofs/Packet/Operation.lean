import AjpGateway.Proofs.Packet.Checked

/-!
# Operations in any order

Whatever is done with a buffer, in any order and whether it fails or not, the header lies before
the read position, that before the end, and that within the storage.  An operation fails without a
change or makes one `Change`; each of these keeps a buffer well-formed, so no access of any
operation ever lies outside of the storage.

    m.WellFormed → op.act.run m = (.error e, m) ∨ op.act.run m = (.ok a, m'), Change m m'   (atomic)
    checkedAfter (new capacity) calls = some (after (new capacity) calls)     (sound_after_calls)
-/

namespace AjpGateway.Packet

open Buffer

/-! ## Operations -/

/-- What is appended. -/
inductive Item where
  | byte (b : UInt8)
  | word (w : UInt16)
  | long (w : UInt32)
  | text (s : Option String)
  | raw (data : Bytes)
  | chunk (data : Bytes)

namespace Item

def append : Item → Marshal Unit
  | byte b => appendByte b
  | word w => appendWord w
  | long w => appendLong w
  | text s => appendText? s
  | raw data => Buffer.append data
  | chunk data => appendChunk data

def checked : Item → Checked Unit
  | byte b => Checked.add [[b]]
  | word w => Checked.add [wordBytes w]
  | long w => Checked.add [longBytes w]
  | text s => Checked.appendText? s
  | raw data => Checked.add [data]
  | chunk data => Checked.appendChunk data

def wire : Item → Bytes
  | byte b => [b]
  | word w => wordBytes w
  | long w => longBytes w
  | text s => Wire.text? s
  | raw data => data
  | chunk data => Wire.chunk data

end Item

/-- A call on a buffer, by the type of what it gives. -/
inductive Operation : Type → Type where
  | reset : Operation Unit
  | append (item : Item) : Operation Unit
  | finish (magic : UInt16) : Operation Unit
  | editHeader (e : Edit) : Operation Unit
  | parseHeader (magic : UInt16) : Operation Nat
  | editPayload (e : Edit) : Operation Unit
  | readByte : Operation UInt8
  | peekByte : Operation UInt8
  | readWord : Operation UInt16
  | peekWord : Operation UInt16
  | readLong : Operation UInt32
  | readText? : Operation (Option String)
  | take (n : Nat) : Operation Bytes
  | frame : Operation Bytes
  | payloadSize : Operation Nat
  | remaining : Operation Nat
  | dump : Operation String

namespace Operation

variable {α : Type}

def act : Operation α → Marshal α
  | reset => modify Buffer.reset
  | append item => item.append
  | finish magic => modify (Buffer.finish · magic)
  | editHeader e => modify fun m => m.overwrite 0 (e.apply (m.slice 0 headerSize))
  | parseHeader magic => Buffer.parseHeader magic
  | editPayload e =>
    modify fun m => m.overwrite headerSize (e.apply (m.slice headerSize m.payloadSize))
  | readByte => Buffer.readByte
  | peekByte => Buffer.peekByte
  | readWord => Buffer.readWord
  | peekWord => Buffer.peekWord
  | readLong => Buffer.readLong
  | readText? => Buffer.readText?
  | take n => Buffer.take n
  | frame => do return (← get).frame
  | payloadSize => do return (← get).payloadSize
  | remaining => do return (← get).remaining
  | dump => do return (← get).dump

def checked : Operation α → Checked α
  | reset => modify Buffer.reset
  | append item => item.checked
  | finish magic => Checked.finish magic
  | editHeader e => Checked.editHeader e
  | parseHeader magic => Checked.parseHeader magic
  | editPayload e => Checked.editPayload e
  | readByte => Checked.readByte
  | peekByte => Checked.peekByte
  | readWord => Checked.readWord
  | peekWord => Checked.peekWord
  | readLong => Checked.readLong
  | readText? => Checked.readText?
  | take n => Checked.take n
  | frame => Checked.frame
  | payloadSize => Checked.payloadSize
  | remaining => Checked.remaining
  | dump => Checked.dump

end Operation

/-! ## What an append does -/

/-- A step that adds `bytes` if they fit, and else fails and adds nothing. -/
def Appends (act : Marshal Unit) (bytes : Bytes) : Prop :=
  ∀ m : Buffer, (∃ e, act.run m = (.error e, m)) ∨
    act.run m = (.ok (), m.put bytes) ∧ m.len + bytes.length ≤ m.capacity

theorem appends_append (bytes : Bytes) : Appends (append bytes) bytes := by
  intro m
  by_cases h : m.capacity < m.len + bytes.length
  · exact .inl ⟨_, run_append_of_lt h⟩
  · exact .inr ⟨run_append_of_le (Nat.not_lt.1 h), Nat.not_lt.1 h⟩

theorem appends_text? (s : Option String) : Appends (appendText? s) (Wire.text? s) := by
  cases s with
  | none => exact appends_append (wordBytes absentLength)
  | some s =>
    intro m
    unfold appendText? appendText
    by_cases h : absentLength.toNat ≤ (Text.utf8 s).length
    · simp only [if_pos h]
      exact .inl ⟨_, rfl⟩
    · simp only [if_neg h]
      exact appends_append _ m

theorem appends_chunk (data : Bytes) : Appends (appendChunk data) (Wire.chunk data) := by
  intro m
  unfold appendChunk
  by_cases h : 0xFFFF < data.length
  · rw [if_pos h]
    exact .inl ⟨_, rfl⟩
  · rw [if_neg h]
    exact appends_append _ m

theorem Item.appends (item : Item) : Appends item.append item.wire := by
  cases item with
  | byte b => exact appends_append [b]
  | word w => exact appends_append (wordBytes w)
  | long w => exact appends_append (longBytes w)
  | text s => exact appends_text? s
  | raw data => exact appends_append data
  | chunk data => exact appends_chunk data

theorem getElem?_writeAt (a : Array UInt8) (i : Nat) (bytes : Bytes) {j : Nat}
    (h : j < i ∨ i + bytes.length ≤ j) : (writeAt a i bytes)[j]? = a[j]? := by
  induction bytes generalizing a i with
  | nil => rfl
  | cons b rest ih =>
    rw [List.length_cons] at h
    rw [writeAt, ih _ _ (by omega), Array.getElem?_setIfInBounds_ne (by omega)]

/-- An append that succeeds leaves all that is stored as it was but for the bytes it adds. -/
theorem Item.of_append {item : Item} {m m' : Buffer} (h : item.append.run m = (.ok (), m')) :
    m'.pos = m.pos ∧ m.len ≤ m'.len ∧
      ∀ j, j < m.len ∨ m'.len ≤ j → m'.storage[j]? = m.storage[j]? := by
  rcases item.appends m with ⟨e, he⟩ | ⟨hok, -⟩
  · rw [he] at h
    cases h
  · rw [hok] at h
    cases h
    exact ⟨rfl, Nat.le_add_right _ _, fun j hj => getElem?_writeAt _ _ _ hj⟩

/-! ## What an operation does -/

/-- What an operation that succeeds makes of a buffer. -/
inductive Change (m : Buffer) : Buffer → Prop where
  | rewound {len : Nat} (low : headerSize ≤ len) (high : len ≤ m.capacity) :
    Change m { m with len, pos := headerSize }
  | added {bytes : Bytes} (fits : m.len + bytes.length ≤ m.capacity) : Change m (m.put bytes)
  | overwritten (start : Nat) (bytes : Bytes) : Change m (m.overwrite start bytes)
  | advanced {n : Nat} (left : m.pos + n ≤ m.len) : Change m (m.advance n)

theorem Change.wellFormed {m m' : Buffer} (h : Change m m') (hm : m.WellFormed) :
    m'.WellFormed := by
  cases h with
  | rewound low high => exact ⟨Nat.le_refl _, low, high⟩
  | added fits => exact hm.put fits
  | overwritten start bytes =>
    refine ⟨hm.header_le_pos, hm.pos_le_len, ?_⟩
    rw [capacity_overwrite]
    exact hm.len_le_capacity
  | advanced left =>
    exact ⟨Nat.le_trans hm.header_le_pos (Nat.le_add_right _ _), left, hm.len_le_capacity⟩

theorem Change.capacity {m m' : Buffer} (h : Change m m') : m'.capacity = m.capacity := by
  cases h with
  | rewound low high => rfl
  | added fits => exact capacity_put ..
  | overwritten start bytes => exact capacity_overwrite ..
  | advanced left => rfl

/-- A step that fails without a change, or makes one. -/
def Atomic {α : Type} (act : Marshal α) : Prop :=
  ∀ m : Buffer, m.WellFormed →
    (∃ e, act.run m = (.error e, m)) ∨ ∃ a m', act.run m = (.ok a, m') ∧ Change m m'

namespace Atomic

variable {α β : Type}

theorem modify {f : Buffer → Buffer} (hf : ∀ m : Buffer, m.WellFormed → Change m (f m)) :
    Atomic (modify f) :=
  fun m hm => .inr ⟨(), f m, run_modify f m, hf m hm⟩

theorem map {act : Marshal α} (h : Atomic act) (f : α → β) : Atomic (do return f (← act)) := by
  intro m hm
  rcases h m hm with ⟨e, he⟩ | ⟨a, m', ha, hc⟩
  · exact .inl ⟨e, run_bind_of_error he⟩
  · exact .inr ⟨f a, m', by rw [run_bind_of_ok ha, run_pure], hc⟩

theorem get : Atomic get :=
  fun m hm => .inr ⟨m, m, run_get m, .advanced (n := 0) hm.pos_le_len⟩

theorem item (item : Item) : Atomic item.append := by
  intro m _
  rcases item.appends m with he | ⟨hok, hfits⟩
  · exact .inl he
  · exact .inr ⟨(), _, hok, .added hfits⟩

theorem parseHeader (magic : UInt16) : Atomic (parseHeader magic) := by
  intro m hm
  have hroom := hm.header_le_capacity
  unfold Buffer.parseHeader
  rw [run_bind_of_ok (run_get m)]
  split
  · next a b c d _ =>
    by_cases hmagic : word a b ≠ magic
    · simp only [if_pos hmagic]
      exact .inl ⟨_, rfl⟩
    · simp only [if_neg hmagic]
      by_cases hlarge : m.capacity - headerSize < (word c d).toNat
      · simp only [if_pos hlarge]
        exact .inl ⟨_, rfl⟩
      · simp only [if_neg hlarge]
        exact .inr ⟨_, _, rfl, .rewound (Nat.le_add_right _ _) (by omega)⟩
  · exact .inl ⟨_, rfl⟩

theorem peek (n : Nat) : Atomic (peek n) := by
  intro m hm
  by_cases h : m.len < m.pos + n
  · exact .inl ⟨_, run_peek_of_lt h⟩
  · exact .inr ⟨_, m, run_peek_of_le h, .advanced (n := 0) hm.pos_le_len⟩

theorem take (n : Nat) : Atomic (take n) := by
  intro m hm
  by_cases h : m.len < m.pos + n
  · exact .inl ⟨_, run_take_of_lt h⟩
  · exact .inr ⟨_, _, run_take_of_le h, .advanced (Nat.not_lt.1 h)⟩

/-- A text without its end is put back, its length too. -/
theorem readText? : Atomic readText? := by
  intro m hm
  by_cases h : m.len < m.pos + 2
  · exact .inl ⟨_, run_readText?_of_lt h⟩
  · rw [run_readText?_of_le h]
    dsimp only
    split
    · exact .inr ⟨_, _, rfl, .advanced (Nat.not_lt.1 h)⟩
    · split
      · exact .inl ⟨_, rfl⟩
      · next hend => exact .inr ⟨_, _, rfl, .advanced (Nat.not_lt.1 hend)⟩

end Atomic

namespace Operation

variable {α : Type}

theorem atomic (op : Operation α) : Atomic op.act := by
  cases op with
  | reset => exact Atomic.modify fun m hm => .rewound (Nat.le_refl _) hm.header_le_capacity
  | append item => exact Atomic.item item
  | finish magic => exact Atomic.modify fun m _ => .overwritten 0 _
  | editHeader e => exact Atomic.modify fun m _ => .overwritten 0 _
  | parseHeader magic => exact Atomic.parseHeader magic
  | editPayload e => exact Atomic.modify fun m _ => .overwritten headerSize _
  | readByte => exact (Atomic.take 1).map (·.headD 0)
  | peekByte => exact (Atomic.peek 1).map (·.headD 0)
  | readWord => exact (Atomic.take 2).map wordOf
  | peekWord => exact (Atomic.peek 2).map wordOf
  | readLong => exact (Atomic.take 4).map longOf
  | readText? => exact Atomic.readText?
  | take n => exact Atomic.take n
  | frame => exact Atomic.get.map Buffer.frame
  | payloadSize => exact Atomic.get.map Buffer.payloadSize
  | remaining => exact Atomic.get.map Buffer.remaining
  | dump => exact Atomic.get.map Buffer.dump

theorem agrees_item (item : Item) : Agrees item.checked item.append := by
  cases item with
  | byte b => exact Agrees.add [[b]]
  | word w => exact Agrees.add [wordBytes w]
  | long w => exact Agrees.add [longBytes w]
  | text s => exact Agrees.appendText? s
  | raw data =>
    have h := Agrees.add [data]
    rwa [List.flatten_singleton] at h
  | chunk data => exact Agrees.appendChunk data

/-- **No access of an operation fails** on a well-formed buffer. -/
theorem agrees (op : Operation α) : Agrees op.checked op.act := by
  cases op with
  | reset => exact fun _ _ => rfl
  | append item => exact agrees_item item
  | finish magic => exact Agrees.finish magic
  | editHeader e =>
    intro m hm
    have hroom : 0 + headerSize ≤ m.capacity := by
      rw [Nat.zero_add]
      exact hm.header_le_capacity
    have hedit := Agrees.edit e hroom
    rwa [Nat.zero_add] at hedit
  | parseHeader magic => exact Agrees.parseHeader magic
  | editPayload e =>
    intro m hm
    have hsize : headerSize + m.payloadSize = m.len := Nat.add_sub_cancel' hm.header_le_len
    have hroom : headerSize + m.payloadSize ≤ m.capacity := by
      rw [hsize]
      exact hm.len_le_capacity
    have hedit := Agrees.edit e hroom
    rw [hsize] at hedit
    exact hedit
  | readByte => exact Agrees.readByte
  | peekByte => exact Agrees.peekByte
  | readWord => exact Agrees.readWord
  | peekWord => exact Agrees.peekWord
  | readLong => exact Agrees.readLong
  | readText? => exact Agrees.readText?
  | take n => exact Agrees.take n
  | frame => exact Agrees.frame
  | payloadSize => exact Agrees.payloadSize
  | remaining => exact Agrees.remaining
  | dump => exact Agrees.dump

/-- One operation, on a buffer as good as before. -/
theorem step (op : Operation α) {m : Buffer} (hm : m.WellFormed) :
    (op.act.run m).2.WellFormed ∧ (op.act.run m).2.capacity = m.capacity := by
  rcases op.atomic m hm with ⟨e, he⟩ | ⟨a, m', ha, hc⟩
  · rw [he]
    exact ⟨hm, rfl⟩
  · rw [ha]
    exact ⟨hc.wellFormed hm, hc.capacity⟩

theorem eq_of_error (op : Operation α) {m m' : Buffer} {e : PacketError} (hm : m.WellFormed)
    (h : op.act.run m = (.error e, m')) : m' = m := by
  rcases op.atomic m hm with ⟨e', he⟩ | ⟨a, m'', ha, -⟩
  · rw [he] at h
    exact (Prod.mk.inj h).2.symm
  · rw [ha] at h
    cases h

end Operation

/-! ## Any number of operations -/

/-- The buffer after calls, each on what the one before it left. -/
def after (m : Buffer) (calls : List (Sigma Operation)) : Buffer :=
  calls.foldl (fun m call => (call.2.act.run m).2) m

/-- The same with checked accesses; there is no buffer after one that fails. -/
def checkedAfter (m : Buffer) (calls : List (Sigma Operation)) : Option Buffer :=
  calls.foldlM (fun m call => (call.2.checked.run m).map Prod.snd) m

theorem checkedAfter_eq {m : Buffer} (hm : m.WellFormed) (calls : List (Sigma Operation)) :
    checkedAfter m calls = some (after m calls) ∧ (after m calls).WellFormed ∧
      (after m calls).capacity = m.capacity := by
  induction calls generalizing m with
  | nil => exact ⟨rfl, hm, rfl⟩
  | cons call rest ih =>
    obtain ⟨hwf, hc⟩ := call.2.step hm
    obtain ⟨hsame, hwf', hc'⟩ := ih hwf
    refine ⟨?_, hwf', hc'.trans hc⟩
    have hrun := call.2.agrees m hm
    unfold checkedAfter
    rw [List.foldlM_cons, hrun]
    exact hsame

/-- **A buffer in use is sound**, whatever was done with it.  No access failed, and none of the
next operation will; one that fails leaves the buffer as it is, and an append that succeeds changes
nothing but the bytes between the old end and the new. -/
theorem sound_after_calls (capacity : Nat) (calls : List (Sigma Operation)) :
    let m := after (new capacity) calls
    checkedAfter (new capacity) calls = some m ∧
    (headerSize ≤ m.pos ∧ m.pos ≤ m.len ∧ m.len ≤ m.capacity) ∧
    m.capacity = max capacity headerSize ∧
    (∀ {α : Type} (op : Operation α), op.checked.run m = some (op.act.run m)) ∧
    (∀ {α : Type} (op : Operation α) (e : PacketError) (m' : Buffer),
      op.act.run m = (.error e, m') → m' = m) ∧
    ∀ (item : Item) (m' : Buffer), (Operation.append item).act.run m = (.ok (), m') →
      m'.pos = m.pos ∧ m.len ≤ m'.len ∧
        ∀ j, j < m.len ∨ m'.len ≤ j → m'.storage[j]? = m.storage[j]? := by
  intro m
  obtain ⟨hsame, hwf, hc⟩ := checkedAfter_eq (wellFormed_new capacity) calls
  exact ⟨hsame, ⟨hwf.header_le_pos, hwf.pos_le_len, hwf.len_le_capacity⟩,
    hc.trans (capacity_new capacity), fun op => op.agrees m hwf,
    fun op _ _ h => op.eq_of_error hwf h, fun _ _ h => Item.of_append h⟩

end AjpGateway.Packet
