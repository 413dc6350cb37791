import DotMatrix.Cpu.Machine

/-!
The effect of each instruction. PC already points behind the instruction, so its operand bytes are
the ones before PC.
-/

namespace DotMatrix.Machine

variable {β : Type} [Bus β]

/-- Replaces an operand by the result of an operation on it, and stores the flags in between. -/
@[specialize] def updateOperand (target : Operand) (f : UInt8 → Flags → UInt8 × Flags)
    (m : Machine β) : Machine β :=
  let (byte, m) := m.readOperand target
  let (result, flags) := f byte m.flags
  (m.mapRegisters (·.setFlags flags)).writeOperand target result

@[specialize] def mapOperand (target : Operand) (f : UInt8 → UInt8) (m : Machine β) : Machine β :=
  let (byte, m) := m.readOperand target
  m.writeOperand target (f byte)

def passes (condition : Option Condition) (m : Machine β) : Bool :=
  match condition with
  | none => true
  | some test => m.holds test

/-- The state after an instruction, which takes a branch only if its condition holds. -/
@[specialize] def execute (op : Instruction) (m : Machine β) : Machine β :=
  match op with
  | .nop => m
  | .stop =>
    let m := m.note (.stops (m.cpu.registers.pc - 2))
    { m with cpu := { m.cpu with stopped := true, halted := false } }
  | .halt => { m with cpu := { m.cpu with halted := true } }
  | .di => { m with cpu := { m.cpu with ime := false } }
  | .ei => { m with cpu := { m.cpu with ime := true } }
  | .daa => m.setAccumulator (Arithmetic.decimalAdjust m.cpu.registers.a m.flags)
  | .cpl =>
    m.setAccumulator (~~~m.cpu.registers.a, { m.flags with subtract := true, halfCarry := true })
  | .scf =>
    m.mapRegisters fun r =>
      r.setFlags { r.flags with subtract := false, halfCarry := false, carry := true }
  | .ccf =>
    m.mapRegisters fun r =>
      r.setFlags { r.flags with subtract := false, halfCarry := false, carry := !r.flags.carry }
  | .ld target source =>
    let (byte, m) := m.readOperand source
    m.writeOperand target byte
  | .ldByte target =>
    let (byte, m) := m.immediate
    m.writeOperand target byte
  | .ldWord target =>
    let (value, m) := m.immediateWord
    m.mapRegisters (·.setWord target value)
  | .storeA place =>
    let (address, m) := m.resolve place
    m.write address m.cpu.registers.a
  | .loadA place =>
    let (address, m) := m.resolve place
    let (byte, m) := m.read address
    m.mapRegisters (·.setA byte)
  | .storeSP =>
    let (address, m) := m.immediateWord
    m.writeWord address m.cpu.registers.sp
  | .ldSPHL => m.setSP m.cpu.registers.hl
  | .ldHLSP =>
    let (offset, m) := m.immediate
    let (value, flags) := Arithmetic.addOffset m.cpu.registers.sp offset
    m.mapRegisters fun r => { r.setFlags flags with hl := value }
  | .addSP =>
    let (offset, m) := m.immediate
    let (value, flags) := Arithmetic.addOffset m.cpu.registers.sp offset
    m.mapRegisters fun r => { r.setFlags flags with sp := value }
  | .inc target => m.updateOperand target fun byte flags => Arithmetic.inc byte flags.carry
  | .dec target => m.updateOperand target fun byte flags => Arithmetic.dec byte flags.carry
  | .incWord target => m.mapRegisters fun r => r.setWord target (r.word target + 1)
  | .decWord target => m.mapRegisters fun r => r.setWord target (r.word target - 1)
  | .addHL source =>
    m.mapRegisters fun r =>
      let (value, flags) := Arithmetic.addWords r.hl (r.word source) r.flags.zero
      { r.setFlags flags with hl := value }
  | .alu op source =>
    let (byte, m) := m.readOperand source
    m.setAccumulator (Arithmetic.apply op m.cpu.registers.a byte m.flags.carry)
  | .aluByte op =>
    let (byte, m) := m.immediate
    m.setAccumulator (Arithmetic.apply op m.cpu.registers.a byte m.flags.carry)
  | .rotateA op =>
    let (result, flags) := Arithmetic.shift op m.cpu.registers.a m.flags.carry
    m.setAccumulator (result, { flags with zero := false })
  | .jr condition =>
    let (offset, m) := m.immediate
    if m.passes condition then m.setPC (m.cpu.registers.pc + Byte.signExtend offset) else m
  | .jp condition =>
    let (target, m) := m.immediateWord
    if m.passes condition then m.setPC target else m
  | .jpHL => m.setPC m.cpu.registers.hl
  | .call condition =>
    let (target, m) := m.immediateWord
    if m.passes condition then (m.push m.cpu.registers.pc).setPC target else m
  | .ret condition =>
    if m.passes condition then
      let (target, m) := m.pop
      m.setPC target
    else m
  | .reti =>
    let (target, m) := m.pop
    let m := m.setPC target
    { m with cpu := { m.cpu with ime := true } }
  | .rst slot => (m.push m.cpu.registers.pc).setPC (restartAddress slot)
  | .push source => m.push (m.cpu.registers.word source)
  | .pop target =>
    let (value, m) := m.pop
    m.mapRegisters (·.setWord target value)
  | .shift op target =>
    m.updateOperand target fun byte flags => Arithmetic.shift op byte flags.carry
  | .bit n target =>
    let (byte, m) := m.readOperand target
    m.mapRegisters fun r => r.setFlags (Arithmetic.testBit n byte r.flags.carry)
  | .res n target => m.mapOperand target (· &&& ~~~Arithmetic.bitMask n)
  | .set n target => m.mapOperand target (· ||| Arithmetic.bitMask n)

def cost (op : Instruction) (m : Machine β) : Nat :=
  match op with
  | .jr condition | .jp condition | .call condition | .ret condition =>
    if m.passes condition then op.cycles + op.takenCycles else op.cycles
  | _ => op.cycles

omit [Bus β] in
theorem cycles_le_cost (op : Instruction) (m : Machine β) : op.cycles ≤ m.cost op := by
  unfold cost
  split
  all_goals first | (split <;> omega) | omega

omit [Bus β] in
theorem cost_pos (op : Instruction) (m : Machine β) : 0 < m.cost op :=
  Nat.lt_of_lt_of_le op.cycles_pos (cycles_le_cost op m)

end DotMatrix.Machine
