import DotMatrix.Word

/-!
Numbers in upper-case hexadecimal, with leading zeros up to a fixed width.
-/

namespace DotMatrix.Text

def hexDigit (n : Nat) : Char :=
  if n < 10 then Char.ofNat (48 + n) else Char.ofNat (55 + n)

def hexByte (byte : UInt8) : String :=
  String.ofList [hexDigit (byte.toNat / 16), hexDigit (byte.toNat % 16)]

def hexWord (word : UInt16) : String :=
  hexByte (Word.high word) ++ hexByte (Word.low word)

end DotMatrix.Text
