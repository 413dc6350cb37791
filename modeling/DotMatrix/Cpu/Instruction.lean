import DotMatrix.Cpu.Arithmetic
import DotMatrix.Text.Hexadecimal

/-!
The instructions of the processor: their operands, cost, length and written form.
-/

namespace DotMatrix

inductive Condition where
  | nz | z | nc | c
  deriving DecidableEq, Repr

inductive Operand where
  | register (name : ByteRegister)
  | atHL
  deriving DecidableEq, Repr

inductive Location where
  | bc | de
  /-- The place HL points to; HL moves one up afterwards. -/
  | hlUp
  /-- The place HL points to; HL moves one down afterwards. -/
  | hlDown
  /-- A place in the top page, given by a byte. -/
  | page
  /-- A place in the top page, given by C. -/
  | pageC
  | absolute
  deriving DecidableEq, Repr

inductive Instruction where
  | nop | stop | halt | di | ei
  | daa | cpl | scf | ccf
  | ld (target source : Operand)
  | ldByte (target : Operand)
  | ldWord (target : WordRegister)
  | storeA (place : Location)
  | loadA (place : Location)
  | storeSP | ldSPHL | ldHLSP | addSP
  | inc (target : Operand)
  | dec (target : Operand)
  | incWord (target : WordRegister)
  | decWord (target : WordRegister)
  | addHL (source : WordRegister)
  | alu (op : AluOp) (source : Operand)
  | aluByte (op : AluOp)
  /-- A rotation of A that always clears Z. -/
  | rotateA (op : ShiftOp)
  | jr (condition : Option Condition)
  | jp (condition : Option Condition)
  | jpHL
  | call (condition : Option Condition)
  | ret (condition : Option Condition)
  | reti
  | rst (slot : Fin 8)
  | push (source : WordRegister)
  | pop (target : WordRegister)
  | shift (op : ShiftOp) (target : Operand)
  | bit (n : Fin 8) (target : Operand)
  | res (n : Fin 8) (target : Operand)
  | set (n : Fin 8) (target : Operand)
  deriving DecidableEq, Repr

/-- The first cost for a register, the second for memory. -/
def Operand.cost (operand : Operand) (register memory : Nat) : Nat :=
  match operand with
  | .register _ => register
  | .atHL => memory

theorem Operand.cost_pos (operand : Operand) {register memory : Nat} (fast : 0 < register)
    (slow : 0 < memory) : 0 < operand.cost register memory := by
  cases operand <;> assumption

namespace Location

def cycles : Location → Nat
  | page => 12
  | absolute => 16
  | _ => 8

theorem cycles_pos (place : Location) : 0 < place.cycles := by
  cases place <;> decide

def length : Location → Nat
  | page => 2
  | absolute => 3
  | _ => 1

end Location

def restartAddress (slot : Fin 8) : UInt16 := UInt16.ofNat (8 * slot.val)

namespace Instruction

/-- The clock cycles of an instruction whose condition, if it has one, fails. -/
def cycles : Instruction → Nat
  | nop | stop | halt | di | ei | daa | cpl | scf | ccf | rotateA _ | jpHL => 4
  | ld target source => 4 + target.cost 0 4 + source.cost 0 4
  | ldByte target => target.cost 8 12
  | ldWord _ | pop _ | ldHLSP => 12
  | storeA place | loadA place => place.cycles
  | storeSP => 20
  | addSP | reti | rst _ | push _ => 16
  | inc target | dec target => target.cost 4 12
  | ldSPHL | incWord _ | decWord _ | addHL _ | aluByte _ => 8
  | alu _ source => source.cost 4 8
  | jr condition => if condition.isSome then 8 else 12
  | jp condition => if condition.isSome then 12 else 16
  | call condition => if condition.isSome then 12 else 24
  | ret condition => if condition.isSome then 8 else 16
  | bit _ target => target.cost 8 12
  | shift _ target | res _ target | set _ target => target.cost 8 16

theorem cycles_pos (op : Instruction) : 0 < op.cycles := by
  cases op
  case ld => simp only [cycles]; omega
  case ldByte target => exact target.cost_pos (by decide) (by decide)
  case storeA place => exact place.cycles_pos
  case loadA place => exact place.cycles_pos
  case inc target => exact target.cost_pos (by decide) (by decide)
  case dec target => exact target.cost_pos (by decide) (by decide)
  case alu source => exact source.cost_pos (by decide) (by decide)
  case jr condition => cases condition <;> exact Nat.zero_lt_succ _
  case jp condition => cases condition <;> exact Nat.zero_lt_succ _
  case call condition => cases condition <;> exact Nat.zero_lt_succ _
  case ret condition => cases condition <;> exact Nat.zero_lt_succ _
  case shift target => exact target.cost_pos (by decide) (by decide)
  case bit target => exact target.cost_pos (by decide) (by decide)
  case res target => exact target.cost_pos (by decide) (by decide)
  case set target => exact target.cost_pos (by decide) (by decide)
  all_goals exact Nat.zero_lt_succ _

def takenCycles : Instruction → Nat
  | jr (some _) | jp (some _) => 4
  | call (some _) | ret (some _) => 12
  | _ => 0

/-- The bytes of an instruction, with its operands and the escape byte of the second opcode page. -/
def length : Instruction → Nat
  | stop | ldByte _ | ldHLSP | addSP | aluByte _ | jr _ => 2
  | shift _ _ | bit _ _ | res _ _ | set _ _ => 2
  | ldWord _ | storeSP | jp _ | call _ => 3
  | storeA place | loadA place => place.length
  | _ => 1

end Instruction

namespace ByteRegister

def name : ByteRegister → String
  | a => "A" | b => "B" | c => "C" | d => "D" | e => "E" | h => "H" | l => "L"

end ByteRegister

namespace WordRegister

def name : WordRegister → String
  | af => "AF" | bc => "BC" | de => "DE" | hl => "HL" | sp => "SP"

end WordRegister

def Condition.name : Condition → String
  | .nz => "NZ" | .z => "Z" | .nc => "NC" | .c => "C"

def Operand.name : Operand → String
  | .register r => r.name
  | .atHL => "(HL)"

def AluOp.name : AluOp → String
  | .add => "ADD" | .adc => "ADC" | .sub => "SUB" | .sbc => "SBC"
  | .and => "AND" | .xor => "XOR" | .or => "OR" | .cp => "CP"

def ShiftOp.name : ShiftOp → String
  | .rlc => "RLC" | .rrc => "RRC" | .rl => "RL" | .rr => "RR"
  | .sla => "SLA" | .sra => "SRA" | .swap => "SWAP" | .srl => "SRL"

namespace Location

def name : Location → String
  | bc => "(BC)"
  | de => "(DE)"
  | hlUp => "(HL+)"
  | hlDown => "(HL-)"
  | page => "(a8)"
  | pageC => "(C)"
  | absolute => "(a16)"

/-- Loads with an address in the top page given by a byte have a name of their own. -/
def verb : Location → String
  | page => "LDH"
  | _ => "LD"

end Location

def branchText (verb : String) (condition : Option Condition) (target : Option String) : String :=
  verb ++ match condition.map Condition.name, target with
    | none, none => ""
    | none, some t => " " ++ t
    | some c, none => " " ++ c
    | some c, some t => " " ++ c ++ ", " ++ t

def Instruction.mnemonic : Instruction → String
  | nop => "NOP"
  | stop => "STOP"
  | halt => "HALT"
  | di => "DI"
  | ei => "EI"
  | daa => "DAA"
  | cpl => "CPL"
  | scf => "SCF"
  | ccf => "CCF"
  | ld target source => s!"LD {target.name}, {source.name}"
  | ldByte target => s!"LD {target.name}, d8"
  | ldWord target => s!"LD {target.name}, d16"
  | storeA place => s!"{place.verb} {place.name}, A"
  | loadA place => s!"{place.verb} A, {place.name}"
  | storeSP => "LD (a16), SP"
  | ldSPHL => "LD SP, HL"
  | ldHLSP => "LD HL, SP+r8"
  | addSP => "ADD SP, r8"
  | inc target => s!"INC {target.name}"
  | dec target => s!"DEC {target.name}"
  | incWord target => s!"INC {target.name}"
  | decWord target => s!"DEC {target.name}"
  | addHL source => s!"ADD HL, {source.name}"
  | alu op source => s!"{op.name} A, {source.name}"
  | aluByte op => s!"{op.name} A, d8"
  | rotateA op => s!"{op.name}A"
  | jr condition => branchText "JR" condition (some "r8")
  | jp condition => branchText "JP" condition (some "a16")
  | jpHL => "JP (HL)"
  | call condition => branchText "CALL" condition (some "a16")
  | ret condition => branchText "RET" condition none
  | reti => "RETI"
  | rst slot => s!"RST {Text.hexByte (restartAddress slot).toUInt8}H"
  | push source => s!"PUSH {source.name}"
  | pop target => s!"POP {target.name}"
  | shift op target => s!"{op.name} {target.name}"
  | bit n target => s!"BIT {n.val}, {target.name}"
  | res n target => s!"RES {n.val}, {target.name}"
  | set n target => s!"SET {n.val}, {target.name}"

end DotMatrix
