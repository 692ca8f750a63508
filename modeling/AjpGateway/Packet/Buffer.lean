import AjpGateway.Packet.Code
import AjpGateway.Packet.Error
import AjpGateway.Text.Utf8

/-!
# Packet buffers

A buffer of fixed capacity holds one packet: a header of four bytes and a payload.  Values are
appended at `len` and read back from `pos`; both lie past the header.  An operation that does not
fit is an error and changes nothing.

    (new c).WellFormed                                 (wellFormed_new)
    (m.put bytes).capacity = m.capacity                (capacity_put)
    (m.overwrite i bytes).capacity = m.capacity        (capacity_overwrite)
-/

namespace AjpGateway.Packet

structure Buffer where
  storage : Array UInt8
  /-- the end of the packet -/
  len : Nat
  /-- where the next value is read -/
  pos : Nat
deriving Repr

/-- Work on a buffer that may fail; the buffer stays as the failed step left it. -/
abbrev Marshal := ExceptT PacketError (StateM Buffer)

namespace Buffer

/-- An empty buffer; there is always room for the header. -/
def new (capacity : Nat) : Buffer where
  storage := Array.replicate (max capacity headerSize) 0
  len := headerSize
  pos := headerSize

def capacity (m : Buffer) : Nat := m.storage.size

/-- The header lies before the read position, that before the end, and that within the storage. -/
structure WellFormed (m : Buffer) : Prop where
  header_le_pos : headerSize ≤ m.pos
  pos_le_len : m.pos ≤ m.len
  len_le_capacity : m.len ≤ m.capacity

def reset (m : Buffer) : Buffer := { m with len := headerSize, pos := headerSize }

def payloadSize (m : Buffer) : Nat := m.len - headerSize

def isEmpty (m : Buffer) : Bool := m.len == headerSize

/-- The number of payload bytes not yet read. -/
def remaining (m : Buffer) : Nat := m.len - m.pos

/-- The `n` bytes from `start` on. -/
def slice (m : Buffer) (start n : Nat) : Bytes := (m.storage.extract start (start + n)).toList

/-- The packet as it is sent. -/
def frame (m : Buffer) : Bytes := m.slice 0 m.len

/-- The payload bytes not yet read. -/
def unread (m : Buffer) : Bytes := m.slice m.pos m.remaining

/-- Writes bytes from a place on. -/
def writeAt : Array UInt8 → Nat → Bytes → Array UInt8
  | a, _, [] => a
  | a, i, b :: rest => writeAt (a.setIfInBounds i b) (i + 1) rest

/-- Replaces stored bytes, whatever they belong to. -/
def overwrite (m : Buffer) (start : Nat) (bytes : Bytes) : Buffer :=
  { m with storage := writeAt m.storage start bytes }

/-- Adds bytes at the end. -/
def put (m : Buffer) (bytes : Bytes) : Buffer :=
  { m with storage := writeAt m.storage m.len bytes, len := m.len + bytes.length }

def word (hi lo : UInt8) : UInt16 := hi.toUInt16 <<< 8 ||| lo.toUInt16

def wordBytes (w : UInt16) : Bytes := [(w >>> 8).toUInt8, w.toUInt8]

def longBytes (w : UInt32) : Bytes :=
  [(w >>> 24).toUInt8, (w >>> 16).toUInt8, (w >>> 8).toUInt8, w.toUInt8]

def long (a b c d : UInt8) : UInt32 :=
  a.toUInt32 <<< 24 ||| b.toUInt32 <<< 16 ||| c.toUInt32 <<< 8 ||| d.toUInt32

/-! ## Appending -/

/-- The error of `needed` bytes more. -/
def overflowing (m : Buffer) (needed : Nat) : PacketError := .overflow m.len needed m.capacity

/-- Adds bytes if they fit. -/
def append (bytes : Bytes) : Marshal Unit := do
  let m ← get
  if m.capacity < m.len + bytes.length then throw (m.overflowing bytes.length)
  else set (m.put bytes)

def appendByte (b : UInt8) : Marshal Unit := append [b]

def appendWord (w : UInt16) : Marshal Unit := append (wordBytes w)

def appendLong (w : UInt32) : Marshal Unit := append (longBytes w)

/-- A text behind its length and before a NUL.  Only lengths below that of an absent text can be
written. -/
def appendText (s : String) : Marshal Unit := do
  let bytes := Text.utf8 s
  if absentLength.toNat ≤ bytes.length then throw ((← get).overflowing (bytes.length + 3))
  else append (wordBytes (UInt16.ofNat bytes.length) ++ bytes ++ [0])

/-- A text that may be absent. -/
def appendText? : Option String → Marshal Unit
  | none => appendWord absentLength
  | some s => appendText s

/-- Bytes behind their length. -/
def appendChunk (data : Bytes) : Marshal Unit := do
  if 0xFFFF < data.length then throw ((← get).overflowing (data.length + 2))
  else append (wordBytes (UInt16.ofNat data.length) ++ data)

/-- Writes the header: the magic word and the payload length modulo `2 ^ 16`. -/
def finish (m : Buffer) (magic : UInt16) : Buffer :=
  m.overwrite 0 (wordBytes magic ++ wordBytes (UInt16.ofNat m.payloadSize))

/-! ## Receiving -/

/-- Reads the header in the storage and makes room for the payload it announces. -/
def parseHeader (expected : UInt16) : Marshal Nat := do
  let m ← get
  match m.slice 0 headerSize with
  | [a, b, c, d] =>
    let found := word a b
    let size := (word c d).toNat
    if found ≠ expected then throw (.badMagic expected found)
    else if m.capacity - headerSize < size then throw (.frameTooLarge size m.capacity)
    else
      set { m with len := headerSize + size, pos := headerSize }
      return size
  | _ => throw (.overflow 0 headerSize m.capacity)

/-! ## Reading -/

/-- The error of reading `needed` bytes past the end. -/
def exhausted (m : Buffer) (needed : Nat) : PacketError := .overflow m.pos needed m.len

/-- The next `n` bytes, which stay unread. -/
def peek (n : Nat) : Marshal Bytes := do
  let m ← get
  if m.len < m.pos + n then throw (m.exhausted n)
  else return m.slice m.pos n

/-- The next `n` bytes. -/
def take (n : Nat) : Marshal Bytes := do
  let bytes ← peek n
  modify fun m => { m with pos := m.pos + n }
  return bytes

def wordOf : Bytes → UInt16
  | a :: b :: _ => word a b
  | _ => 0

def longOf : Bytes → UInt32
  | a :: b :: c :: d :: _ => long a b c d
  | _ => 0

def readByte : Marshal UInt8 := do return (← take 1).headD 0

def peekByte : Marshal UInt8 := do return (← peek 1).headD 0

def readWord : Marshal UInt16 := do return wordOf (← take 2)

def peekWord : Marshal UInt16 := do return wordOf (← peek 2)

def readLong : Marshal UInt32 := do return longOf (← take 4)

/-- A text written by `appendText?`.  One whose end is missing is not read at all. -/
def readText? : Marshal (Option String) := do
  let start := (← get).pos
  let size ← readWord
  if size = absentLength then return none
  else
    let n := size.toNat
    let m ← get
    if m.len < m.pos + n + 1 then
      set { m with pos := start }
      throw (m.exhausted (n + 1))
    else
      set { m with pos := m.pos + n + 1 }
      return some (Text.readText (m.slice m.pos n))

/-- A text that must be there. -/
def readText (field : String) : Marshal String := do
  match ← readText? with
  | some s => return s
  | none => throw (.nullField field)

/-! ## Showing -/

def isGraphic (b : UInt8) : Bool := 0x21 ≤ b && b ≤ 0x7E

def dumpLine (start : Nat) (bytes : Bytes) : String :=
  Text.paddedHex 4 start ++ ":" ++ String.join (bytes.map fun b => " " ++ Text.byteHex b) ++ "  " ++
    String.ofList (bytes.map fun b => if isGraphic b then Char.ofNat b.toNat else '.') ++ "\n"

/-- Sixteen bytes a line. -/
def dump (m : Buffer) : String :=
  String.join ((List.range ((m.len + 15) / 16)).map fun i =>
    dumpLine (16 * i) (m.slice (16 * i) (min 16 (m.len - 16 * i))))

/-- The buffer in one line. -/
def summary (m : Buffer) : String :=
  "MessageBuffer \x7b capacity: " ++ toString m.capacity ++ ", len: " ++ toString m.len ++
    ", pos: " ++ toString m.pos ++ " \x7d"

/-! ## Lemmas -/

@[simp] theorem size_writeAt (a : Array UInt8) (i : Nat) (bytes : Bytes) :
    (writeAt a i bytes).size = a.size := by
  induction bytes generalizing a i with
  | nil => rfl
  | cons b rest ih => simp [writeAt, ih]

@[simp] theorem capacity_put (m : Buffer) (bytes : Bytes) : (m.put bytes).capacity = m.capacity :=
  size_writeAt ..

@[simp] theorem capacity_overwrite (m : Buffer) (start : Nat) (bytes : Bytes) :
    (m.overwrite start bytes).capacity = m.capacity :=
  size_writeAt ..

theorem wellFormed_new (capacity : Nat) : (new capacity).WellFormed where
  header_le_pos := Nat.le_refl _
  pos_le_len := Nat.le_refl _
  len_le_capacity := by
    rw [new, Buffer.capacity, Array.size_replicate]
    exact Nat.le_max_right ..

end Buffer

end AjpGateway.Packet
