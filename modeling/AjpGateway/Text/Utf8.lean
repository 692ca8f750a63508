/-!
# UTF-8

Texts travel as UTF-8.  A received text that is not UTF-8 is read one character a byte, since
containers send header fields in ISO-8859-1.  Bodies are shown with a replacement character in
place of each ill-formed sequence.

    readText (utf8 s) = s                         (readText_utf8)
    (utf8 s).length = s.utf8ByteSize              (length_utf8)
-/

namespace AjpGateway

abbrev Bytes := List UInt8

namespace Text

def utf8 (s : String) : Bytes := s.toUTF8.data.toList

/-- The text with these bytes, if they are UTF-8. -/
def ofUtf8? (bs : Bytes) : Option String := String.fromUTF8? bs.toByteArray

/-- One character a byte. -/
def ofLatin1 (bs : Bytes) : String := String.ofList (bs.map fun b => Char.ofNat b.toNat)

/-- A received text: UTF-8 if it can be, else one character a byte. -/
def readText (bs : Bytes) : String := (ofUtf8? bs).getD (ofLatin1 bs)

/-! ## Ill-formed bytes -/

/-- How a well-formed sequence starting with `b` goes on: its length after `b` and the bounds of
the byte after `b`.  `none` for a byte that starts no sequence. -/
def continuation? (b : UInt8) : Option (Nat × UInt8 × UInt8) :=
  if 0xC2 ≤ b && b ≤ 0xDF then some (1, 0x80, 0xBF)
  else if b == 0xE0 then some (2, 0xA0, 0xBF)
  else if b == 0xED then some (2, 0x80, 0x9F)
  else if 0xE1 ≤ b && b ≤ 0xEF then some (2, 0x80, 0xBF)
  else if b == 0xF0 then some (3, 0x90, 0xBF)
  else if 0xF1 ≤ b && b ≤ 0xF3 then some (3, 0x80, 0xBF)
  else if b == 0xF4 then some (3, 0x80, 0x8F)
  else none

/-- The bytes, at most `n`, that continue a sequence; the first lies between `lo` and `hi`. -/
def continuing : (n : Nat) → (lo hi : UInt8) → Bytes → Bytes
  | n + 1, lo, hi, b :: rest =>
    if lo ≤ b && b ≤ hi then b :: continuing n 0x80 0xBF rest else []
  | _, _, _, _ => []

/-- The text with U+FFFD for each longest start of a sequence that is not completed and for each
byte that starts none. -/
def lossy (bs : Bytes) : String := String.ofList (go bs.length bs)
where
  go : Nat → Bytes → List Char
    | n + 1, b :: rest =>
      if b < 0x80 then Char.ofNat b.toNat :: go n rest
      else
        match continuation? b with
        | none => '\uFFFD' :: go n rest
        | some (want, lo, hi) =>
          let tail := continuing want lo hi rest
          let after := rest.drop tail.length
          if tail.length == want then
            (((ofUtf8? (b :: tail)).map String.toList).getD ['\uFFFD']) ++ go n after
          else '\uFFFD' :: go n after
    | _, _ => []

/-! ## Lemmas -/

theorem ofUtf8?_utf8 (s : String) : ofUtf8? (utf8 s) = some s := by
  have h : (utf8 s).toByteArray = s.toUTF8 := by
    apply ByteArray.ext
    rw [List.data_toByteArray, utf8, Array.toArray_toList]
  rw [ofUtf8?, h, String.fromUTF8?, String.toUTF8_eq_toByteArray, dif_pos s.isValidUTF8]
  rfl

@[simp] theorem readText_utf8 (s : String) : readText (utf8 s) = s := by
  rw [readText, ofUtf8?_utf8, Option.getD_some]

@[simp] theorem length_utf8 (s : String) : (utf8 s).length = s.utf8ByteSize := by
  rw [utf8, Array.length_toList]; rfl

end Text

end AjpGateway
