import AjpGateway.Text.Quoted

/-!
# Errors of packets

Why a packet cannot be written or read.
-/

namespace AjpGateway

inductive PacketError where
  /-- `needed` bytes at `offset` pass `limit` -/
  | overflow (offset needed limit : Nat)
  | badMagic (expected found : UInt16)
  | frameTooLarge (length capacity : Nat)
  | unknownMethod (method : String)
  | unknownMethodCode (code : UInt8)
  | unknownHeaderCode (code : UInt16)
  | unknownAttribute (code : UInt8)
  | unexpectedMessage (code : UInt8)
  | nullField (field : String)
deriving DecidableEq, Repr

def PacketError.message : PacketError → String
  | overflow offset needed limit =>
    "buffer overflow: " ++ toString needed ++ " bytes at offset " ++ toString offset ++
      " exceed limit " ++ toString limit
  | badMagic expected found =>
    "bad frame magic " ++ Text.wordHex found ++ ", expected " ++ Text.wordHex expected
  | frameTooLarge length capacity =>
    "frame payload of " ++ toString length ++ " bytes exceeds buffer capacity " ++
      toString capacity
  | unknownMethod method => "method " ++ Text.quoted method ++ " has no AJP13 code"
  | unknownMethodCode code => "unknown method code " ++ toString code.toNat
  | unknownHeaderCode code => "unknown header code " ++ Text.wordHex code
  | unknownAttribute code => "unknown attribute code " ++ toString code.toNat
  | unexpectedMessage code => "unexpected message type " ++ toString code.toNat
  | nullField field => "required field " ++ field ++ " is null"

end AjpGateway
