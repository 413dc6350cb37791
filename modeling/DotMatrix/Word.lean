/-!
Bytes and words. A word is a high byte above a low byte; memory holds the low byte first.
-/

namespace DotMatrix

namespace Byte

@[inline] def has (byte mask : UInt8) : Bool := byte &&& mask != 0

def signExtend (byte : UInt8) : UInt16 := byte.toInt8.toInt16.toUInt16

end Byte

namespace Word

@[inline] def ofBytes (high low : UInt8) : UInt16 := high.toUInt16 <<< 8 ||| low.toUInt16

@[inline] def high (word : UInt16) : UInt8 := (word >>> 8).toUInt8

@[inline] def low (word : UInt16) : UInt8 := word.toUInt8

theorem toNat_ofBytes (high low : UInt8) :
    (ofBytes high low).toNat = high.toNat * 256 + low.toNat := by
  have hh := high.toNat_lt
  have hl := low.toNat_lt
  have shifted : high.toNat <<< 8 < 65536 := by rw [Nat.shiftLeft_eq]; omega
  simp only [ofBytes, UInt16.toNat_or, UInt16.toNat_shiftLeft, UInt8.toNat_toUInt16]
  rw [show (8 : UInt16).toNat % 16 = 8 from rfl, Nat.mod_eq_of_lt shifted, ← Nat.shiftLeft_add_eq_or_of_lt hl,
    Nat.shiftLeft_eq]

theorem toNat_high (word : UInt16) : (high word).toNat = word.toNat / 256 := by
  have := word.toNat_lt
  simp only [high, UInt16.toNat_toUInt8, UInt16.toNat_shiftRight]
  rw [show (8 : UInt16).toNat % 16 = 8 from rfl, Nat.shiftRight_eq_div_pow]
  omega

theorem toNat_low (word : UInt16) : (low word).toNat = word.toNat % 256 := by
  simp [low]

@[simp] theorem high_ofBytes (h l : UInt8) : high (ofBytes h l) = h := by
  have := l.toNat_lt
  apply UInt8.toNat.inj
  rw [toNat_high, toNat_ofBytes]
  omega

@[simp] theorem low_ofBytes (h l : UInt8) : low (ofBytes h l) = l := by
  have := l.toNat_lt
  apply UInt8.toNat.inj
  rw [toNat_low, toNat_ofBytes]
  omega

@[simp] theorem ofBytes_high_low (word : UInt16) : ofBytes (high word) (low word) = word := by
  apply UInt16.toNat.inj
  rw [toNat_ofBytes, toNat_high, toNat_low]
  omega

end Word

end DotMatrix
