import DotMatrix.Cpu.Registers

/-!
The arithmetic of the processor on bytes and words, as functions from operands and flags to results
and flags.
-/

namespace DotMatrix

inductive AluOp where
  | add | adc | sub | sbc | and | xor | or | cp
  deriving DecidableEq, Repr

inductive ShiftOp where
  | rlc | rrc | rl | rr | sla | sra | swap | srl
  deriving DecidableEq, Repr

namespace Arithmetic

def isZero (byte : UInt8) : Bool := byte == 0

/-- H is the carry out of bit 3 and C the carry out of bit 7. -/
def add (a b : UInt8) (carryIn : Bool) : UInt8 × Flags :=
  let sum := a.toNat + b.toNat + carryIn.toNat
  let result := UInt8.ofNat sum
  (result, ⟨isZero result, false, 15 < a.toNat % 16 + b.toNat % 16 + carryIn.toNat, 255 < sum⟩)

/-- H is the borrow from bit 4 and C the borrow from bit 8. -/
def sub (a b : UInt8) (borrowIn : Bool) : UInt8 × Flags :=
  let result := a - b - borrowIn.toUInt8
  (result, ⟨isZero result, true, a.toNat % 16 < b.toNat % 16 + borrowIn.toNat,
    a.toNat < b.toNat + borrowIn.toNat⟩)

/-- The new accumulator and flags; a comparison keeps the accumulator. -/
def apply (op : AluOp) (a b : UInt8) (carry : Bool) : UInt8 × Flags :=
  match op with
  | .add => add a b false
  | .adc => add a b carry
  | .sub => sub a b false
  | .sbc => sub a b carry
  | .and => let r := a &&& b; (r, ⟨isZero r, false, true, false⟩)
  | .xor => let r := a ^^^ b; (r, ⟨isZero r, false, false, false⟩)
  | .or => let r := a ||| b; (r, ⟨isZero r, false, false, false⟩)
  | .cp => (a, (sub a b false).2)

def inc (byte : UInt8) (carry : Bool) : UInt8 × Flags :=
  let result := byte + 1
  (result, ⟨isZero result, false, byte.toNat % 16 == 15, carry⟩)

def dec (byte : UInt8) (carry : Bool) : UInt8 × Flags :=
  let result := byte - 1
  (result, ⟨isZero result, true, byte.toNat % 16 == 0, carry⟩)

/-- The sum of two words: H is the carry out of bit 11, C the carry out of bit 15, and Z is kept. -/
def addWords (a b : UInt16) (zero : Bool) : UInt16 × Flags :=
  (a + b, ⟨zero, false, 4095 < a.toNat % 4096 + b.toNat % 4096, 65535 < a.toNat + b.toNat⟩)

/-- A word plus a signed byte. H and C are the carries of the unsigned sum of the low bytes. -/
def addOffset (base : UInt16) (offset : UInt8) : UInt16 × Flags :=
  (base + Byte.signExtend offset,
    ⟨false, false, 15 < base.toNat % 16 + offset.toNat % 16, 255 < base.toNat % 256 + offset.toNat⟩)

/-- What turns the sum or difference of two packed decimals back into a packed decimal. -/
def decimalCorrection (a : UInt8) (flags : Flags) : UInt8 :=
  let units := flags.halfCarry || !flags.subtract && 9 < a.toNat % 16
  let tens := flags.carry || !flags.subtract && 0x99 < a.toNat
  (if units then 0x06 else 0) ||| (if tens then 0x60 else 0)

/-- N is kept, H is cleared, and C tells whether the tens were corrected. -/
def decimalAdjust (a : UInt8) (flags : Flags) : UInt8 × Flags :=
  let correction := decimalCorrection a flags
  let result := if flags.subtract then a - correction else a + correction
  (result, ⟨isZero result, flags.subtract, false, Byte.has correction 0x60⟩)

/-- C is the bit that leaves the byte; a swap of the nibbles clears it. -/
def shift (op : ShiftOp) (byte : UInt8) (carryIn : Bool) : UInt8 × Flags :=
  let out : UInt8 × Bool :=
    match op with
    | .rlc => (byte <<< 1 ||| byte >>> 7, Byte.has byte 0x80)
    | .rrc => (byte >>> 1 ||| byte <<< 7, Byte.has byte 0x01)
    | .rl => (byte <<< 1 ||| carryIn.toUInt8, Byte.has byte 0x80)
    | .rr => (byte >>> 1 ||| carryIn.toUInt8 <<< 7, Byte.has byte 0x01)
    | .sla => (byte <<< 1, Byte.has byte 0x80)
    | .sra => (byte >>> 1 ||| byte &&& 0x80, Byte.has byte 0x01)
    | .swap => (byte <<< 4 ||| byte >>> 4, false)
    | .srl => (byte >>> 1, Byte.has byte 0x01)
  (out.1, ⟨isZero out.1, false, false, out.2⟩)

def bitMask (n : Fin 8) : UInt8 := 1 <<< UInt8.ofNat n.val

/-- Z tells that the bit is clear; C is kept. -/
def testBit (n : Fin 8) (byte : UInt8) (carry : Bool) : Flags :=
  ⟨!Byte.has byte (bitMask n), false, true, carry⟩

end Arithmetic

end DotMatrix
