import DotMatrix.Word

/-!
The register file. A and F, B and C, D and E, H and L are the halves of four words; the upper half
of F holds the four flags.
-/

namespace DotMatrix

structure Flags where
  zero : Bool
  subtract : Bool
  halfCarry : Bool
  carry : Bool
  deriving DecidableEq, Repr

namespace Flags

def toByte (flags : Flags) : UInt8 :=
  flags.zero.toUInt8 <<< 7 ||| flags.subtract.toUInt8 <<< 6 ||| flags.halfCarry.toUInt8 <<< 5
    ||| flags.carry.toUInt8 <<< 4

def ofByte (byte : UInt8) : Flags :=
  ⟨Byte.has byte 0x80, Byte.has byte 0x40, Byte.has byte 0x20, Byte.has byte 0x10⟩

@[simp] theorem ofByte_toByte (flags : Flags) : ofByte flags.toByte = flags := by
  obtain ⟨z, n, h, c⟩ := flags
  cases z <;> cases n <;> cases h <;> cases c <;> rfl

end Flags

inductive ByteRegister where
  | a | b | c | d | e | h | l
  deriving DecidableEq, Repr

inductive WordRegister where
  | af | bc | de | hl | sp
  deriving DecidableEq, Repr

structure Registers where
  af : UInt16
  bc : UInt16
  de : UInt16
  hl : UInt16
  sp : UInt16
  pc : UInt16
  deriving DecidableEq, Repr

namespace Registers

def postBoot : Registers :=
  ⟨0x01B0, 0x0013, 0x00D8, 0x014D, 0xFFFE, 0x0100⟩

def cleared : Registers := ⟨0, 0, 0, 0, 0, 0⟩

@[inline] def a (r : Registers) : UInt8 := Word.high r.af

@[inline] def f (r : Registers) : UInt8 := Word.low r.af

def byte (r : Registers) : ByteRegister → UInt8
  | .a => Word.high r.af
  | .b => Word.high r.bc
  | .c => Word.low r.bc
  | .d => Word.high r.de
  | .e => Word.low r.de
  | .h => Word.high r.hl
  | .l => Word.low r.hl

def setByte (r : Registers) (register : ByteRegister) (value : UInt8) : Registers :=
  match register with
  | .a => { r with af := Word.ofBytes value (Word.low r.af) }
  | .b => { r with bc := Word.ofBytes value (Word.low r.bc) }
  | .c => { r with bc := Word.ofBytes (Word.high r.bc) value }
  | .d => { r with de := Word.ofBytes value (Word.low r.de) }
  | .e => { r with de := Word.ofBytes (Word.high r.de) value }
  | .h => { r with hl := Word.ofBytes value (Word.low r.hl) }
  | .l => { r with hl := Word.ofBytes (Word.high r.hl) value }

def word (r : Registers) : WordRegister → UInt16
  | .af => r.af
  | .bc => r.bc
  | .de => r.de
  | .hl => r.hl
  | .sp => r.sp

def putWord (r : Registers) (register : WordRegister) (value : UInt16) : Registers :=
  match register with
  | .af => { r with af := value }
  | .bc => { r with bc := value }
  | .de => { r with de := value }
  | .hl => { r with hl := value }
  | .sp => { r with sp := value }

/-- What an instruction stores: the low nibble of F stays zero. -/
def setWord (r : Registers) (register : WordRegister) (value : UInt16) : Registers :=
  match register with
  | .af => { r with af := value &&& 0xFFF0 }
  | _ => r.putWord register value

/-- Stores the upper nibble of F and clears the lower one. -/
def setF (r : Registers) (value : UInt8) : Registers :=
  { r with af := Word.ofBytes (Word.high r.af) (value &&& 0xF0) }

@[inline] def setA (r : Registers) (value : UInt8) : Registers := r.setByte .a value

def flags (r : Registers) : Flags := Flags.ofByte r.f

def setFlags (r : Registers) (flags : Flags) : Registers := r.setF flags.toByte

theorem byte_setByte (r : Registers) (x y : ByteRegister) (value : UInt8) :
    (r.setByte x value).byte y = if x = y then value else r.byte y := by
  cases x <;> cases y <;> simp [setByte, byte]

@[simp] theorem f_setByte (r : Registers) (x : ByteRegister) (value : UInt8) :
    (r.setByte x value).f = r.f := by
  cases x <;> simp [setByte, f]

@[simp] theorem f_setA (r : Registers) (value : UInt8) : (r.setA value).f = r.f := f_setByte r .a value

@[simp] theorem f_setF (r : Registers) (value : UInt8) : (r.setF value).f = value &&& 0xF0 := by
  simp [setF, f]

@[simp] theorem flags_setFlags (r : Registers) (flags : Flags) : (r.setFlags flags).flags = flags := by
  have kept : flags.toByte &&& 0xF0 = flags.toByte := by
    obtain ⟨z, n, h, c⟩ := flags
    cases z <;> cases n <;> cases h <;> cases c <;> rfl
  simp [Registers.flags, setFlags, setF, f, kept]

end Registers

end DotMatrix
