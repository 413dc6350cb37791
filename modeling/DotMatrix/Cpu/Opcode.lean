import DotMatrix.Cpu.Instruction

/-!
The two opcode pages. An opcode splits into a quadrant of two bits, a row of three bits and a column
of three bits; the byte CB escapes to the second page, and eleven opcodes of the first mean nothing.
-/

namespace DotMatrix

inductive Slot where
  | unassigned
  | escape
  | instruction (op : Instruction)
  deriving DecidableEq, Repr

namespace Slot

def mnemonic : Slot → String
  | unassigned => "???"
  | escape => "PREFIX CB"
  | instruction op => op.mnemonic

def cycles : Slot → Nat
  | instruction op => op.cycles
  | _ => 0

def length : Slot → Nat
  | instruction op => op.length
  | _ => 0

end Slot

namespace Opcode

def operand : Fin 8 → Operand
  | 0 => .register .b
  | 1 => .register .c
  | 2 => .register .d
  | 3 => .register .e
  | 4 => .register .h
  | 5 => .register .l
  | 6 => .atHL
  | 7 => .register .a

def aluOp : Fin 8 → AluOp
  | 0 => .add | 1 => .adc | 2 => .sub | 3 => .sbc | 4 => .and | 5 => .xor | 6 => .or | 7 => .cp

def shiftOp : Fin 8 → ShiftOp
  | 0 => .rlc | 1 => .rrc | 2 => .rl | 3 => .rr | 4 => .sla | 5 => .sra | 6 => .swap | 7 => .srl

def condition : Fin 8 → Condition
  | 0 | 4 => .nz
  | 1 | 5 => .z
  | 2 | 6 => .nc
  | 3 | 7 => .c

def word : Fin 8 → WordRegister
  | 0 | 1 => .bc
  | 2 | 3 => .de
  | 4 | 5 => .hl
  | 6 | 7 => .sp

def stackWord : Fin 8 → WordRegister
  | 0 | 1 => .bc
  | 2 | 3 => .de
  | 4 | 5 => .hl
  | 6 | 7 => .af

def pointer : Fin 8 → Location
  | 0 | 1 => .bc
  | 2 | 3 => .de
  | 4 | 5 => .hlUp
  | 6 | 7 => .hlDown

def isOdd (row : Fin 8) : Bool := row.val % 2 == 1

def firstQuadrant (row column : Fin 8) : Instruction :=
  match column with
  | 0 =>
    match row with
    | 0 => .nop
    | 1 => .storeSP
    | 2 => .stop
    | 3 => .jr none
    | _ => .jr (some (condition row))
  | 1 => if isOdd row then .addHL (word row) else .ldWord (word row)
  | 2 => if isOdd row then .loadA (pointer row) else .storeA (pointer row)
  | 3 => if isOdd row then .decWord (word row) else .incWord (word row)
  | 4 => .inc (operand row)
  | 5 => .dec (operand row)
  | 6 => .ldByte (operand row)
  | 7 =>
    match row with
    | 0 | 1 | 2 | 3 => .rotateA (shiftOp row)
    | 4 => .daa
    | 5 => .cpl
    | 6 => .scf
    | 7 => .ccf

/-- The opcodes 40 to 7F; the move from memory to itself is the halt. -/
def secondQuadrant (row column : Fin 8) : Instruction :=
  if row = 6 ∧ column = 6 then .halt else .ld (operand row) (operand column)

def lastQuadrant (row column : Fin 8) : Slot :=
  match column with
  | 0 =>
    match row with
    | 4 => .instruction (.storeA .page)
    | 5 => .instruction .addSP
    | 6 => .instruction (.loadA .page)
    | 7 => .instruction .ldHLSP
    | _ => .instruction (.ret (some (condition row)))
  | 1 =>
    match row with
    | 1 => .instruction (.ret none)
    | 3 => .instruction .reti
    | 5 => .instruction .jpHL
    | 7 => .instruction .ldSPHL
    | _ => .instruction (.pop (stackWord row))
  | 2 =>
    match row with
    | 4 => .instruction (.storeA .pageC)
    | 5 => .instruction (.storeA .absolute)
    | 6 => .instruction (.loadA .pageC)
    | 7 => .instruction (.loadA .absolute)
    | _ => .instruction (.jp (some (condition row)))
  | 3 =>
    match row with
    | 0 => .instruction (.jp none)
    | 1 => .escape
    | 6 => .instruction .di
    | 7 => .instruction .ei
    | _ => .unassigned
  | 4 =>
    match row with
    | 0 | 1 | 2 | 3 => .instruction (.call (some (condition row)))
    | _ => .unassigned
  | 5 =>
    match row with
    | 1 => .instruction (.call none)
    | 3 | 5 | 7 => .unassigned
    | _ => .instruction (.push (stackWord row))
  | 6 => .instruction (.aluByte (aluOp row))
  | 7 => .instruction (.rst row)

def row (opcode : UInt8) : Fin 8 := ⟨opcode.toNat / 8 % 8, Nat.mod_lt _ (by decide)⟩

def column (opcode : UInt8) : Fin 8 := ⟨opcode.toNat % 8, Nat.mod_lt _ (by decide)⟩

def decode (opcode : UInt8) : Slot :=
  match opcode.toNat / 64 with
  | 0 => .instruction (firstQuadrant (row opcode) (column opcode))
  | 1 => .instruction (secondQuadrant (row opcode) (column opcode))
  | 2 => .instruction (.alu (aluOp (row opcode)) (operand (column opcode)))
  | _ => lastQuadrant (row opcode) (column opcode)

def decodeSecond (opcode : UInt8) : Instruction :=
  match opcode.toNat / 64 with
  | 0 => .shift (shiftOp (row opcode)) (operand (column opcode))
  | 1 => .bit (row opcode) (operand (column opcode))
  | 2 => .res (row opcode) (operand (column opcode))
  | _ => .set (row opcode) (operand (column opcode))

end Opcode

end DotMatrix
