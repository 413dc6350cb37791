import DotMatrix.Cpu.Arithmetic
import DotMatrix.Cpu.Interrupt
import DotMatrix.Proofs.Checked.Word

/-!
The arithmetic of the processor with checks. Sums and differences of bytes are made in words of 16 bits
and those of their nibbles in eight, so none of them leaves its word, whatever the operands.
-/

namespace DotMatrix.Checked

open Arithmetic

def add (a b : UInt8) (carryIn : Bool) : Option (UInt8 × Flags) := do
  let full ← fits 16 (a.toNat + b.toNat)
  let full ← fits 16 (full + carryIn.toNat)
  let half ← fits 8 (a.toNat % 16 + b.toNat % 16)
  let half ← fits 8 (half + carryIn.toNat)
  let result := UInt8.ofNat full
  return (result, ⟨isZero result, false, 15 < half, 255 < full⟩)

/-- A borrow shows as a difference below zero. -/
def sub (a b : UInt8) (borrowIn : Bool) : Option (UInt8 × Flags) := do
  let full ← fitsSigned 16 (a.toNat - b.toNat)
  let full ← fitsSigned 16 (full - borrowIn.toNat)
  let half ← fitsSigned 16 ((a.toNat % 16 : Nat) - (b.toNat % 16 : Nat))
  let half ← fitsSigned 16 (half - borrowIn.toNat)
  let result := UInt8.ofInt full
  return (result, ⟨isZero result, true, half < 0, full < 0⟩)

def apply (op : AluOp) (a b : UInt8) (carry : Bool) : Option (UInt8 × Flags) :=
  match op with
  | .add => add a b false
  | .adc => add a b carry
  | .sub => sub a b false
  | .sbc => sub a b carry
  | .cp => do
    let (_, flags) ← sub a b false
    return (a, flags)
  | op => some (Arithmetic.apply op a b carry)

def addWords (a b : UInt16) (zero : Bool) : Option (UInt16 × Flags) := do
  let half ← fits 16 (a.toNat % 4096 + b.toNat % 4096)
  let full ← fits 32 (a.toNat + b.toNat)
  return (a + b, ⟨zero, false, 4095 < half, 65535 < full⟩)

def addOffset (base : UInt16) (offset : UInt8) : Option (UInt16 × Flags) := do
  let half ← fits 16 (base.toNat % 16 + offset.toNat % 16)
  let full ← fits 16 (base.toNat % 256 + offset.toNat)
  return (base + Byte.signExtend offset, ⟨false, false, 15 < half, 255 < full⟩)

def bitMask (n : Fin 8) : Option UInt8 := shiftLeft 1 n.val

def vector (source : Interrupt) : Option UInt16 := do
  let offset ← fits 16 (8 * source.number)
  let address ← fits 16 (0x0040 + offset)
  return UInt16.ofNat address

theorem toNat_carry_le (carry : Bool) : carry.toNat ≤ 1 := by
  cases carry <;> decide

theorem add_eq (a b : UInt8) (carryIn : Bool) : add a b carryIn = some (Arithmetic.add a b carryIn) := by
  have first := a.toNat_lt
  have second := b.toNat_lt
  have carry := toNat_carry_le carryIn
  simp only [add, fits_eq (show a.toNat + b.toNat < 2 ^ 16 by omega),
    fits_eq (show a.toNat + b.toNat + carryIn.toNat < 2 ^ 16 by omega),
    fits_eq (show a.toNat % 16 + b.toNat % 16 < 2 ^ 8 by omega),
    fits_eq (show a.toNat % 16 + b.toNat % 16 + carryIn.toNat < 2 ^ 8 by omega),
    Option.bind_eq_bind, Option.bind_some]
  rfl

theorem ofInt_toNat (byte : UInt8) : UInt8.ofInt byte.toNat = byte := by
  have small := byte.toNat_lt
  apply UInt8.toNat.inj
  rw [UInt8.ofInt, UInt8.toNat_ofNat']
  omega

theorem ofInt_borrow (a b : UInt8) (borrowIn : Bool) :
    UInt8.ofInt ((a.toNat : Int) - b.toNat - borrowIn.toNat) = a - b - borrowIn.toUInt8 := by
  have borrow : UInt8.ofInt borrowIn.toNat = borrowIn.toUInt8 := by
    cases borrowIn <;> rfl
  rw [Int.sub_eq_add_neg, Int.sub_eq_add_neg, UInt8.ofInt_add, UInt8.ofInt_add, UInt8.ofInt_neg,
    UInt8.ofInt_neg, borrow, ofInt_toNat, ofInt_toNat, UInt8.sub_eq_add_neg, UInt8.sub_eq_add_neg]

theorem sub_eq (a b : UInt8) (borrowIn : Bool) : sub a b borrowIn = some (Arithmetic.sub a b borrowIn) := by
  have first := a.toNat_lt
  have second := b.toNat_lt
  have carry := toNat_carry_le borrowIn
  simp only [sub, fitsSigned, Option.bind_eq_bind]
  rw [if_pos (by omega), Option.bind_some, if_pos (by omega), Option.bind_some, if_pos (by omega),
    Option.bind_some, if_pos (by omega), Option.bind_some]
  simp only [Option.pure_def, Arithmetic.sub, ofInt_borrow]
  congr 3
  · rw [decide_eq_decide]
    omega
  · rw [decide_eq_decide]
    omega

theorem apply_eq (op : AluOp) (a b : UInt8) (carry : Bool) :
    apply op a b carry = some (Arithmetic.apply op a b carry) := by
  cases op with
  | add => exact add_eq a b false
  | adc => exact add_eq a b carry
  | sub => exact sub_eq a b false
  | sbc => exact sub_eq a b carry
  | cp =>
    simp only [apply, sub_eq, Option.bind_eq_bind, Option.bind_some]
    rfl
  | and | xor | or => rfl

theorem addWords_eq (a b : UInt16) (zero : Bool) :
    addWords a b zero = some (Arithmetic.addWords a b zero) := by
  have first := a.toNat_lt
  have second := b.toNat_lt
  simp only [addWords, fits_eq (show a.toNat % 4096 + b.toNat % 4096 < 2 ^ 16 by omega),
    fits_eq (show a.toNat + b.toNat < 2 ^ 32 by omega), Option.bind_eq_bind, Option.bind_some]
  rfl

theorem addOffset_eq (base : UInt16) (offset : UInt8) :
    addOffset base offset = some (Arithmetic.addOffset base offset) := by
  have small := offset.toNat_lt
  simp only [addOffset, fits_eq (show base.toNat % 16 + offset.toNat % 16 < 2 ^ 16 by omega),
    fits_eq (show base.toNat % 256 + offset.toNat < 2 ^ 16 by omega), Option.bind_eq_bind,
    Option.bind_some]
  rfl

theorem bitMask_eq (n : Fin 8) : bitMask n = some (Arithmetic.bitMask n) := shiftLeft_eq n.isLt

theorem vector_eq (source : Interrupt) : vector source = some source.vector := by
  cases source <;> rfl

end DotMatrix.Checked
