import DotMatrix.Proofs.Checked.Arithmetic
import DotMatrix.Proofs.Cpu.Outcome

/-!
A step of the machine in which all arithmetic is checked. It goes like every other step, on any bus and
for any program; an opcode without a meaning is a fault and no failed check.
-/

namespace DotMatrix.Checked

variable {β : Type} [Bus β]

def execute (op : Instruction) (m : Machine β) : Option (Machine β) :=
  match op with
  | .ldHLSP => do
    let (offset, m) := m.immediate
    let (value, flags) ← addOffset m.cpu.registers.sp offset
    return m.mapRegisters fun r => { r.setFlags flags with hl := value }
  | .addSP => do
    let (offset, m) := m.immediate
    let (value, flags) ← addOffset m.cpu.registers.sp offset
    return m.mapRegisters fun r => { r.setFlags flags with sp := value }
  | .addHL source => do
    let r := m.cpu.registers
    let (value, flags) ← addWords r.hl (r.word source) r.flags.zero
    return m.mapRegisters fun r => { r.setFlags flags with hl := value }
  | .alu op source => do
    let (byte, m) := m.readOperand source
    let result ← apply op m.cpu.registers.a byte m.flags.carry
    return m.setAccumulator result
  | .aluByte op => do
    let (byte, m) := m.immediate
    let result ← apply op m.cpu.registers.a byte m.flags.carry
    return m.setAccumulator result
  | .bit n target => do
    let (byte, m) := m.readOperand target
    let mask ← bitMask n
    return m.mapRegisters fun r => r.setFlags ⟨!Byte.has byte mask, false, true, r.flags.carry⟩
  | .res n target => do
    let mask ← bitMask n
    return m.mapOperand target (· &&& ~~~mask)
  | .set n target => do
    let mask ← bitMask n
    return m.mapOperand target (· ||| mask)
  | op => some (m.execute op)

def fetch (m : Machine β) : Option (UInt8 × Slot × Machine β) := do
  let address := m.cpu.registers.pc
  let (opcode, m) := m.read address
  let _ ← slot 256 opcode.toNat
  match Opcode.decode opcode with
  | .escape =>
    let (second, m) := m.read (address + 1)
    let _ ← slot 256 second.toNat
    return (opcode, .instruction (Opcode.decodeSecond second), m)
  | found => return (opcode, found, m)

def perform (opcode : UInt8) (op : Instruction) (m : Machine β) : Option (Nat × Machine β) := do
  let address := m.cpu.registers.pc
  let m := m.note (.executes address opcode op)
  let m := m.setPC (address + UInt16.ofNat op.length)
  let cycles ← fits 32 (m.cost op)
  let m ← execute op m
  return (cycles, m)

def stepCpu (m : Machine β) : Option (Except Fault Nat × Machine β) :=
  if m.cpu.stopped then some (.ok 0, m.stepStopped)
  else if m.cpu.halted then some (.ok Machine.idleCycles, m.stepHalted)
  else do
    match ← fetch m with
    | (opcode, .instruction op, m) =>
      let (cycles, m) ← perform opcode op m
      return (.ok cycles, m)
    | (opcode, _, m) =>
      return (.error (.unknownInstruction opcode m.cpu.registers.pc),
        m.note (.unassigned opcode m.cpu.registers))

def enterRoutine (source : Interrupt) (m : Machine β) : Option (Machine β) := do
  let (requested, m) := m.read Interrupt.requestAddress
  let m := m.write Interrupt.requestAddress (requested &&& ~~~source.mask)
  let m := { m with cpu := { m.cpu with ime := false, halted := false, stopped := false } }
  let returnAddress := m.cpu.registers.pc
  let target ← vector source
  let m := (m.push returnAddress).setPC target
  return m.note (.dispatches source returnAddress m.cpu.registers.sp)

def serveInterrupt (m : Machine β) : Option (Option Interrupt × Machine β) :=
  if m.cpu.ime then do
    let (pending, m) := m.pendingInterrupts
    match pending.first? with
    | none => return (none, m)
    | some source =>
      let m ← enterRoutine source m
      return (some source, m)
  else some (none, m)

def dispatch (cycles : Nat) (m : Machine β) : Option (Except Fault Nat × Machine β) := do
  match ← serveInterrupt m with
  | (none, m) => return (.ok cycles, m)
  | (some _, m) =>
    let (result, m) := m.tick Interrupt.dispatchCycles
    let total ← fits 32 (cycles + Interrupt.dispatchCycles)
    return (result.map fun _ => total, m)

def step (m : Machine β) : Option (Except Fault Nat × Machine β) := do
  match ← stepCpu m with
  | (.error fault, m) => return (.error fault, m)
  | (.ok cycles, m) =>
    match m.tick cycles with
    | (.error fault, m) => return (.error fault, m)
    | (.ok (), m) => dispatch cycles m

theorem execute_eq (op : Instruction) (m : Machine β) : execute op m = some (m.execute op) := by
  cases op with
  | addHL source =>
    simp only [execute, addWords_eq, Option.bind_eq_bind, Option.bind_some, Option.pure_def,
      Machine.execute, Machine.mapRegisters]
  | ldHLSP | addSP | alu | aluByte | bit | res | set =>
    simp only [execute, addOffset_eq, apply_eq, bitMask_eq, Option.bind_eq_bind, Option.bind_some]
    rfl
  | _ => rfl

theorem fetch_eq (m : Machine β) : fetch m = some m.fetch := by
  simp only [fetch, Machine.fetch, slot_eq (UInt8.toNat_lt _), Option.bind_eq_bind, Option.bind_some]
  cases Opcode.decode (m.read m.cpu.registers.pc).1 <;> rfl

theorem perform_eq (opcode : UInt8) (op : Instruction) (m : Machine β) :
    perform opcode op m = some (m.perform opcode op) := by
  have short (k : Machine β) : k.cost op < 2 ^ 32 :=
    Nat.lt_of_le_of_lt (Machine.cost_le op k) (by decide)
  simp only [perform, fits_eq (short _), execute_eq, Option.bind_eq_bind, Option.bind_some]
  rfl

theorem stepCpu_eq (m : Machine β) : stepCpu m = some m.stepCpu := by
  simp only [stepCpu, Machine.stepCpu, fetch_eq, Option.bind_eq_bind, Option.bind_some]
  split
  next => rfl
  next =>
    split
    next => rfl
    next =>
      rcases m.fetch with ⟨opcode, found, rest⟩
      cases found with
      | instruction op =>
        simp only [perform_eq, Option.bind_some]
        rfl
      | unassigned | escape => rfl

theorem enterRoutine_eq (source : Interrupt) (m : Machine β) :
    enterRoutine source m = some (m.enterRoutine source) := by
  simp only [enterRoutine, vector_eq, Option.bind_eq_bind, Option.bind_some]
  rfl

theorem serveInterrupt_eq (m : Machine β) : serveInterrupt m = some m.serveInterrupt := by
  simp only [serveInterrupt, Machine.serveInterrupt]
  split
  next =>
    rcases m.pendingInterrupts with ⟨pending, rest⟩
    cases first : pending.first? with
    | none => rfl
    | some source =>
      simp only [enterRoutine_eq, Option.bind_eq_bind, Option.bind_some, Option.pure_def]
  next => rfl

theorem dispatch_eq {cycles : Nat} (short : cycles ≤ longestBatch) (m : Machine β) :
    dispatch cycles m = some (m.dispatch cycles) := by
  have total : cycles + Interrupt.dispatchCycles < 2 ^ 32 := by
    simp only [longestBatch] at short
    simp only [Interrupt.dispatchCycles]
    omega
  simp only [dispatch, Machine.dispatch, serveInterrupt_eq, fits_eq total, Option.bind_eq_bind,
    Option.bind_some]
  rcases m.serveInterrupt with ⟨source, rest⟩
  cases source <;> rfl

theorem step_eq (m : Machine β) : step m = some m.step := by
  simp only [step, Machine.step, stepCpu_eq, Option.bind_eq_bind, Option.bind_some]
  generalize stepped : m.stepCpu = x
  obtain ⟨result, rest⟩ := x
  cases result with
  | error fault => rfl
  | ok cycles =>
    have short : cycles ≤ longestBatch := Machine.stepCpu_le (congrArg Prod.fst stepped)
    simp only
    rcases rest.tick cycles with ⟨ticked, caught⟩
    cases ticked with
    | error fault => rfl
    | ok => exact dispatch_eq short caught

end DotMatrix.Checked
