/-!
# Hexadecimal text

Digits are lower case.  `hexOf 0 = "0"`; `paddedHex` fills with zeros to a width.
-/

namespace AjpGateway.Text

def hexOf (n : Nat) : String := String.ofList (Nat.toDigits 16 n)

/-- At least `width` digits. -/
def paddedHex (width n : Nat) : String :=
  let digits := Nat.toDigits 16 n
  String.ofList (List.replicate (width - digits.length) '0' ++ digits)

def byteHex (b : UInt8) : String := paddedHex 2 b.toNat

/-- A word in the form `0x12ab`. -/
def wordHex (w : UInt16) : String := "0x" ++ paddedHex 4 w.toNat

/-- Two digits a byte, nothing between. -/
def bytesHex (bs : List UInt8) : String := String.join (bs.map byteHex)

end AjpGateway.Text
