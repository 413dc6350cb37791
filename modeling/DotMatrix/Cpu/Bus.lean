import DotMatrix.Cpu.Instruction
import DotMatrix.Cpu.Interrupt
import DotMatrix.Journal

/-!
What the processor sees of the rest of a machine. A read may change what is on the bus.
-/

namespace DotMatrix

inductive Fault where
  /-- An opcode without a meaning, and where it was fetched. -/
  | unknownInstruction (opcode : UInt8) (address : UInt16)
  /-- A device cannot count the cycles that have passed. -/
  | countdownOverflow
  /-- The cycles of a frame exceed 32 bits. -/
  | frameOverflow
  deriving DecidableEq, Repr

def Fault.message : Fault → String
  | unknownInstruction opcode address =>
    s!"unknown instruction 0x{Text.hexByte opcode} at 0x{Text.hexWord address}"
  | countdownOverflow => "attempt to subtract with overflow"
  | frameOverflow => "attempt to add with overflow"

inductive CpuEvent where
  | executes (address : UInt16) (opcode : UInt8) (instruction : Instruction)
  | stops (address : UInt16)
  | leavesStop
  | dispatches (source : Interrupt) (returnAddress sp : UInt16)
  | unassigned (opcode : UInt8) (registers : Registers)

instance : Event CpuEvent where
  level
    | .executes .. => .trace
    | .stops .. | .leavesStop | .dispatches .. => .debug
    | .unassigned .. => .error
  text
    | .executes address opcode instruction =>
      s!"{Text.hexWord address}: {Text.hexByte opcode} - {instruction.mnemonic}"
    | .stops address => s!"GB CPU: STOP at PC=0x{Text.hexWord address}"
    | .leavesStop => "GB CPU: leaving STOP on joypad interrupt"
    | .dispatches source returnAddress sp =>
      s!"GB CPU interrupt: Interrupt({source.name}) vector=0x{Text.hexWord source.vector} pc=0x{Text.hexWord returnAddress} sp=0x{Text.hexWord sp}"
    | .unassigned opcode r =>
      s!"GB CPU: unknown instruction 0x{Text.hexByte opcode} at PC=0x{Text.hexWord r.pc} (SP=0x{Text.hexWord r.sp} AF=0x{Text.hexWord r.af} BC=0x{Text.hexWord r.bc} DE=0x{Text.hexWord r.de} HL=0x{Text.hexWord r.hl})"

class Bus (β : Type) where
  read : UInt16 → β → UInt8 × β
  write : UInt16 → UInt8 → β → β
  /-- Lets the devices on the bus catch up with some clock cycles. -/
  tick : Nat → β → Except Fault Unit × β := fun _ bus => (.ok (), bus)
  note : CpuEvent → β → β

namespace Bus

variable {β : Type} [Bus β]

/-- The low byte is read first. -/
@[specialize] def readWord (address : UInt16) (bus : β) : UInt16 × β :=
  let (low, bus) := read address bus
  let (high, bus) := read (address + 1) bus
  (Word.ofBytes high low, bus)

/-- The low byte is written first. -/
@[specialize] def writeWord (address value : UInt16) (bus : β) : β :=
  write (address + 1) (Word.high value) (write address (Word.low value) bus)

end Bus

end DotMatrix
