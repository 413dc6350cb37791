import DotMatrix.Cpu.Bus

/-!
A processor on a bus, and the accesses that instructions are made of.
-/

namespace DotMatrix

structure Cpu where
  registers : Registers
  /-- Interrupts are served. -/
  ime : Bool
  halted : Bool
  /-- Everything rests until a button is pressed. -/
  stopped : Bool
  deriving DecidableEq, Repr

def Cpu.postBoot : Cpu := ⟨Registers.postBoot, false, false, false⟩

structure Machine (β : Type) where
  cpu : Cpu
  bus : β

namespace Machine

variable {β : Type}

@[inline] def mapRegisters (f : Registers → Registers) (m : Machine β) : Machine β :=
  { m with cpu := { m.cpu with registers := f m.cpu.registers } }

@[inline] def setPC (address : UInt16) (m : Machine β) : Machine β :=
  m.mapRegisters fun r => { r with pc := address }

@[inline] def setSP (address : UInt16) (m : Machine β) : Machine β :=
  m.mapRegisters fun r => { r with sp := address }

@[inline] def setHL (value : UInt16) (m : Machine β) : Machine β :=
  m.mapRegisters fun r => { r with hl := value }

def flags (m : Machine β) : Flags := m.cpu.registers.flags

def setAccumulator (result : UInt8 × Flags) (m : Machine β) : Machine β :=
  m.mapRegisters fun r => (r.setFlags result.2).setA result.1

def holds (m : Machine β) : Condition → Bool
  | .nz => !m.flags.zero
  | .z => m.flags.zero
  | .nc => !m.flags.carry
  | .c => m.flags.carry

variable [Bus β]

@[inline] def read (address : UInt16) (m : Machine β) : UInt8 × Machine β :=
  let (byte, bus) := Bus.read address m.bus
  (byte, { m with bus })

@[inline] def write (address : UInt16) (byte : UInt8) (m : Machine β) : Machine β :=
  { m with bus := Bus.write address byte m.bus }

@[inline] def readWord (address : UInt16) (m : Machine β) : UInt16 × Machine β :=
  let (word, bus) := Bus.readWord address m.bus
  (word, { m with bus })

@[inline] def writeWord (address value : UInt16) (m : Machine β) : Machine β :=
  { m with bus := Bus.writeWord address value m.bus }

@[inline] def note (event : CpuEvent) (m : Machine β) : Machine β :=
  { m with bus := Bus.note event m.bus }

@[inline] def tick (cycles : Nat) (m : Machine β) : Except Fault Unit × Machine β :=
  let (result, bus) := Bus.tick cycles m.bus
  (result, { m with bus })

@[specialize] def readOperand (operand : Operand) (m : Machine β) : UInt8 × Machine β :=
  match operand with
  | .register name => (m.cpu.registers.byte name, m)
  | .atHL => m.read m.cpu.registers.hl

@[specialize] def writeOperand (operand : Operand) (byte : UInt8) (m : Machine β) : Machine β :=
  match operand with
  | .register name => m.mapRegisters fun r => r.setByte name byte
  | .atHL => m.write m.cpu.registers.hl byte

@[specialize] def immediate (m : Machine β) : UInt8 × Machine β :=
  m.read (m.cpu.registers.pc - 1)

@[specialize] def immediateWord (m : Machine β) : UInt16 × Machine β :=
  m.readWord (m.cpu.registers.pc - 2)

/-- The stack grows downwards. -/
@[specialize] def push (value : UInt16) (m : Machine β) : Machine β :=
  let sp := m.cpu.registers.sp - 2
  (m.setSP sp).writeWord sp value

@[specialize] def pop (m : Machine β) : UInt16 × Machine β :=
  let sp := m.cpu.registers.sp
  let (value, m) := m.readWord sp
  (value, m.setSP (sp + 2))

@[specialize] def resolve (place : Location) (m : Machine β) : UInt16 × Machine β :=
  let r := m.cpu.registers
  match place with
  | .bc => (r.bc, m)
  | .de => (r.de, m)
  | .hlUp => (r.hl, m.setHL (r.hl + 1))
  | .hlDown => (r.hl, m.setHL (r.hl - 1))
  | .page =>
    let (offset, m) := m.immediate
    (0xFF00 ||| offset.toUInt16, m)
  | .pageC => (0xFF00 ||| (Word.low r.bc).toUInt16, m)
  | .absolute => m.immediateWord

@[simp] theorem cpu_read (address : UInt16) (m : Machine β) : (m.read address).2.cpu = m.cpu := rfl

@[simp] theorem cpu_write (address : UInt16) (byte : UInt8) (m : Machine β) :
    (m.write address byte).cpu = m.cpu := rfl

@[simp] theorem cpu_readWord (address : UInt16) (m : Machine β) :
    (m.readWord address).2.cpu = m.cpu := rfl

@[simp] theorem cpu_writeWord (address value : UInt16) (m : Machine β) :
    (m.writeWord address value).cpu = m.cpu := rfl

@[simp] theorem cpu_note (event : CpuEvent) (m : Machine β) : (m.note event).cpu = m.cpu := rfl

@[simp] theorem cpu_tick (cycles : Nat) (m : Machine β) : (m.tick cycles).2.cpu = m.cpu := rfl

@[simp] theorem cpu_readOperand (operand : Operand) (m : Machine β) :
    (m.readOperand operand).2.cpu = m.cpu := by
  cases operand <;> rfl

@[specialize] def pendingInterrupts (m : Machine β) : InterruptSet × Machine β :=
  let (requested, m) := m.read Interrupt.requestAddress
  let (enabled, m) := m.read Interrupt.enableAddress
  (InterruptSet.ofByte (requested &&& enabled), m)

end Machine

end DotMatrix
