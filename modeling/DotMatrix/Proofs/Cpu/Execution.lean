import DotMatrix.FlatMemory
import DotMatrix.Proofs.Cpu.Outcome

/-!
A step that performs an instruction. It changes nothing of the processor before it executes the instruction
but moves PC behind it, and on a bus that is nothing but memory the fetch changes no byte.
-/

namespace DotMatrix.Machine

variable {β : Type} [Bus β] {m ready : Machine β} {op : Instruction}

/-- The next step performs an instruction, which finds the machine ready like this. -/
structure Performs (m : Machine β) (op : Instruction) (ready : Machine β) : Prop where
  running : m.cpu.stopped = false
  awake : m.cpu.halted = false
  found : ∃ opcode rest, m.fetch = (opcode, .instruction op, rest) ∧
    ready = (rest.note (.executes rest.cpu.registers.pc opcode op)).setPC
      (rest.cpu.registers.pc + UInt16.ofNat op.length)

theorem Performs.stepCpu (h : m.Performs op ready) : m.stepCpu = (.ok (ready.cost op), ready.execute op) := by
  obtain ⟨opcode, rest, fetched, rfl⟩ := h.found
  simp only [Machine.stepCpu, h.running, h.awake, fetched]
  rfl

theorem Performs.cpu (h : m.Performs op ready) :
    ready.cpu = { m.cpu with registers := { m.cpu.registers with
      pc := m.cpu.registers.pc + UInt16.ofNat op.length } } := by
  obtain ⟨opcode, rest, fetched, rfl⟩ := h.found
  have kept := m.cpu_fetch
  rw [fetched] at kept
  have same : rest.cpu = m.cpu := kept
  rw [← same]
  rfl

theorem Performs.registers (h : m.Performs op ready) :
    ready.cpu.registers = { m.cpu.registers with pc := m.cpu.registers.pc + UInt16.ofNat op.length } :=
  congrArg Cpu.registers h.cpu

theorem Performs.flags (h : m.Performs op ready) : ready.flags = m.flags := by
  rw [Machine.flags, h.registers]
  rfl

theorem Performs.a (h : m.Performs op ready) : ready.cpu.registers.a = m.cpu.registers.a := by
  rw [h.registers]
  rfl

theorem performs_of_decode (op : Instruction) (running : m.cpu.stopped = false) (awake : m.cpu.halted = false)
    (found : Opcode.decode (m.read m.cpu.registers.pc).1 = .instruction op) : ∃ ready, m.Performs op ready := by
  refine ⟨_, running, awake, (m.read m.cpu.registers.pc).1, (m.read m.cpu.registers.pc).2, ?_, rfl⟩
  simp only [fetch, found]

theorem performs_of_decodeSecond (op : Instruction) (running : m.cpu.stopped = false) (awake : m.cpu.halted = false)
    (escapes : Opcode.decode (m.read m.cpu.registers.pc).1 = .escape)
    (found : Opcode.decodeSecond ((m.read m.cpu.registers.pc).2.read (m.cpu.registers.pc + 1)).1 = op) :
    ∃ ready, m.Performs op ready := by
  refine ⟨_, running, awake, (m.read m.cpu.registers.pc).1,
    ((m.read m.cpu.registers.pc).2.read (m.cpu.registers.pc + 1)).2, ?_, rfl⟩
  simp only [fetch, escapes, found]

section Memory

variable {m ready : Machine FlatMemory}

theorem fetch_memory (m : Machine FlatMemory) : m.fetch.2.2 = m := by
  simp only [fetch]
  split <;> rfl

theorem Performs.get (h : m.Performs op ready) (address : UInt16) : ready.bus.get address = m.bus.get address := by
  obtain ⟨opcode, rest, fetched, rfl⟩ := h.found
  have same := m.fetch_memory
  rw [fetched] at same
  have kept : rest = m := same
  rw [kept]
  rfl

/-- An instruction that only replaces registers, and PC is not among them, leaves the next step to what is behind. -/
theorem Performs.behind (h : m.Performs op ready)
    {replaced : Registers} (only : ready.execute op = ready.mapRegisters fun _ => replaced)
    (pc : replaced.pc = ready.cpu.registers.pc) :
    m.stepCpu.2.cpu.stopped = false ∧ m.stepCpu.2.cpu.halted = false ∧
    m.stepCpu.2.cpu.registers.pc = m.cpu.registers.pc + UInt16.ofNat op.length ∧
    ∀ address, m.stepCpu.2.bus.get address = m.bus.get address := by
  rw [h.stepCpu, only]
  change ready.cpu.stopped = false ∧ ready.cpu.halted = false ∧ replaced.pc = _ ∧ _
  rw [pc, h.cpu]
  exact ⟨h.running, h.awake, rfl, h.get⟩

theorem Performs.immediate (h : m.Performs op ready)
    (two : op.length = 2) : ready.immediate.1 = m.bus.get (m.cpu.registers.pc + 1) := by
  have operand : m.cpu.registers.pc + UInt16.ofNat 2 - 1 = m.cpu.registers.pc + 1 := by
    rw [show UInt16.ofNat 2 = 1 + 1 from rfl, ← UInt16.add_assoc, UInt16.add_sub_cancel]
  change ready.bus.get (ready.cpu.registers.pc - 1) = _
  rw [h.get, h.registers, two, operand]

theorem get_push (value : UInt16) (m : Machine FlatMemory) (address : UInt16) :
    (m.push value).bus.get address =
      if m.cpu.registers.sp - 2 + 1 = address then Word.high value
      else if m.cpu.registers.sp - 2 = address then Word.low value else m.bus.get address := by
  change ((m.bus.put _ _).put _ _).get address = _
  rw [FlatMemory.get_put, FlatMemory.get_put]

end Memory

end DotMatrix.Machine
