import DotMatrix.Proofs.Byte
import DotMatrix.Proofs.Console.Faults
import DotMatrix.Proofs.Cpu.Execution

/-!
The lower nibble of F and the two resting states. No instruction writes a bit below the flags, and none
leaves the processor both halted and stopped; whatever the bus answers, a run keeps both.
-/

namespace DotMatrix

theorem Flags.toNat_of_lower_clear (byte : UInt8) (clear : byte &&& 0x0F = 0) :
    byte.toNat = 128 * (ofByte byte).zero.toNat + 64 * (ofByte byte).subtract.toNat
      + 32 * (ofByte byte).halfCarry.toNat + 16 * (ofByte byte).carry.toNat := by
  revert byte
  decide +kernel

namespace Registers

variable {r : Registers}

def Tidy (r : Registers) : Prop := r.f &&& 0x0F = 0

theorem tidy_postBoot : postBoot.Tidy := rfl

theorem tidy_setFlags (r : Registers) (flags : Flags) : (r.setFlags flags).Tidy := by
  rw [Tidy, setFlags, f_setF]
  exact Byte.lower_of_upper _

theorem Tidy.setByte (h : r.Tidy) (name : ByteRegister) (value : UInt8) : (r.setByte name value).Tidy := by
  rw [Tidy, f_setByte]
  exact h

theorem Tidy.setWord (h : r.Tidy) (name : WordRegister) (value : UInt16) : (r.setWord name value).Tidy := by
  cases name with
  | af =>
    change Word.low (value &&& 0xFFF0) &&& 0x0F = 0
    have low : Word.low (value &&& 0xFFF0) = Word.low value &&& 0xF0 := by simp only [Word.low, UInt16.toUInt8_and]; rfl
    rw [low]
    exact Byte.lower_of_upper _
  | bc | de | hl | sp => exact h

theorem Tidy.and_upper (h : r.Tidy) : r.af &&& 0xFFF0 = r.af := by
  have lower : r.af.toNat &&& 0x000F = 0 := by
    have nibble : r.af.toNat % 256 &&& 2 ^ 4 - 1 = 0 := by
      rw [← Word.toNat_low]
      exact congrArg UInt8.toNat h
    change r.af.toNat &&& 2 ^ 4 - 1 = 0
    rw [Nat.and_two_pow_sub_one_eq_mod] at nibble ⊢
    omega
  apply UInt16.toNat.inj
  calc
    (r.af &&& 0xFFF0).toNat = (r.af.toNat &&& 0xFFF0) ||| (r.af.toNat &&& 0x000F) := by
      rw [lower, Nat.or_zero, UInt16.toNat_and]; rfl
    _ = r.af.toNat &&& 2 ^ 16 - 1 := (Nat.and_or_distrib_left _ _ _).symm
    _ = r.af.toNat := Nat.and_two_pow_sub_one_of_lt_two_pow r.af.toNat_lt

end Registers

structure Cpu.Regular (cpu : Cpu) : Prop where
  tidy : cpu.registers.Tidy
  once : ¬(cpu.halted = true ∧ cpu.stopped = true)

theorem Cpu.regular_postBoot : postBoot.Regular := ⟨Registers.tidy_postBoot, nofun⟩

namespace Machine

variable {β : Type} [Bus β] {m : Machine β}

omit [Bus β] in
theorem tidy_setAccumulator (result : UInt8 × Flags) (m : Machine β) :
    (m.setAccumulator result).cpu.registers.Tidy :=
  (m.cpu.registers.tidy_setFlags result.2).setByte .a result.1

theorem tidy_writeOperand (h : m.cpu.registers.Tidy) (target : Operand) (byte : UInt8) :
    (m.writeOperand target byte).cpu.registers.Tidy := by
  cases target with
  | register name => exact h.setByte name byte
  | atHL => exact h

theorem tidy_updateOperand (target : Operand) (f : UInt8 → Flags → UInt8 × Flags) (m : Machine β) :
    (m.updateOperand target f).cpu.registers.Tidy := by
  apply tidy_writeOperand
  exact Registers.tidy_setFlags _ _

theorem tidy_readOperand (h : m.cpu.registers.Tidy) (source : Operand) :
    (m.readOperand source).2.cpu.registers.Tidy := by
  rw [cpu_readOperand]
  exact h

theorem tidy_mapOperand (h : m.cpu.registers.Tidy) (target : Operand) (f : UInt8 → UInt8) :
    (m.mapOperand target f).cpu.registers.Tidy :=
  tidy_writeOperand (tidy_readOperand h target) target _

theorem tidy_resolve (h : m.cpu.registers.Tidy) (place : Location) :
    (m.resolve place).2.cpu.registers.Tidy := by
  cases place <;> exact h

/-- Flags are stored as a whole, words through the upper nibble, and bytes never into F. -/
theorem tidy_execute (h : m.cpu.registers.Tidy) (op : Instruction) : (m.execute op).cpu.registers.Tidy := by
  cases op with
  | nop | stop | halt | di | ei | storeSP | ldSPHL | jpHL | reti | rst | push => exact h
  | daa | cpl | alu | aluByte | rotateA => exact tidy_setAccumulator _ _
  | scf | ccf | bit | ldHLSP | addSP | addHL => exact Registers.tidy_setFlags _ _
  | ld target source => exact tidy_writeOperand (tidy_readOperand h source) target _
  | ldByte =>
    apply tidy_writeOperand
    exact h
  | ldWord | incWord | decWord | pop =>
    apply Registers.Tidy.setWord
    exact h
  | storeA place => exact tidy_resolve h place
  | loadA place => exact (tidy_resolve h place).setByte .a _
  | inc target | dec target | shift _ target =>
    rw [execute]
    exact tidy_updateOperand target _ m
  | res _ target | set _ target =>
    rw [execute]
    exact tidy_mapOperand h target _
  | jr | jp | call | ret =>
    simp only [execute]
    split <;> exact h

/-- A stop ends a halt, and no other instruction stops the processor. -/
theorem rests_once_execute (running : m.cpu.stopped = false) (op : Instruction) :
    ¬((m.execute op).cpu.halted = true ∧ (m.execute op).cpu.stopped = true) := by
  by_cases stops : op = .stop
  · subst stops
    exact nofun
  · rw [stopped_execute stops, running]
    exact fun both => Bool.noConfusion both.2

theorem regular_perform (h : m.cpu.Regular) (running : m.cpu.stopped = false) (opcode : UInt8) (op : Instruction) :
    (m.perform opcode op).2.cpu.Regular := by
  constructor
  · apply tidy_execute
    exact h.tidy
  · apply rests_once_execute
    exact running

theorem regular_stepStopped (h : m.cpu.Regular) : m.stepStopped.cpu.Regular := by
  simp only [stepStopped]
  split
  · exact ⟨h.tidy, fun both => Bool.noConfusion both.2⟩
  · exact h

theorem regular_stepHalted (h : m.cpu.Regular) : m.stepHalted.cpu.Regular := by
  simp only [stepHalted]
  split
  · exact h
  · exact ⟨h.tidy, fun both => Bool.noConfusion both.1⟩

theorem regular_stepCpu (h : m.cpu.Regular) : m.stepCpu.2.cpu.Regular := by
  have fetch := m.cpu_fetch
  have outcome := m.stepCpu_outcome
  generalize m.stepCpu = x at outcome ⊢
  cases outcome with
  | stopped => exact regular_stepStopped h
  | halted => exact regular_stepHalted h
  | @performed opcode op rest running _ fetched =>
    rw [fetched] at fetch
    have kept : rest.cpu = m.cpu := fetch
    apply regular_perform
    · rw [kept]
      exact h
    · rw [kept]
      exact running
  | unknown _ _ fetched =>
    rw [fetched] at fetch
    rw [cpu_note, show _ = m.cpu from fetch]
    exact h

theorem regular_serveInterrupt (h : m.cpu.Regular) : m.serveInterrupt.2.cpu.Regular := by
  simp only [serveInterrupt]
  split
  · split
    · exact h
    · exact ⟨h.tidy, fun both => Bool.noConfusion both.1⟩
  · exact h

section Turns

inductive Turn (β : Type) where
  | reset
  | step
  | serve
  | elsewhere (bus : β)

def take (m : Machine β) : Turn β → Machine β
  | .reset => { m with cpu := .postBoot }
  | .step => m.stepCpu.2
  | .serve => m.serveInterrupt.2
  | .elsewhere bus => { m with bus }

def takeAll (m : Machine β) (turns : List (Turn β)) : Machine β := turns.foldl take m

theorem regular_take (h : m.cpu.Regular) (turn : Turn β) : (m.take turn).cpu.Regular := by
  cases turn with
  | reset => exact Cpu.regular_postBoot
  | step => exact regular_stepCpu h
  | serve => exact regular_serveInterrupt h
  | elsewhere => exact h

theorem regular_takeAll (h : m.cpu.Regular) (turns : List (Turn β)) : (m.takeAll turns).cpu.Regular := by
  induction turns generalizing m with
  | nil => exact h
  | cons turn rest ih => exact ih (regular_take h turn)

end Turns

structure Meets (opcode : UInt8) (m : Machine β) : Prop where
  running : m.cpu.stopped = false
  awake : m.cpu.halted = false
  next : m.nextOpcode = opcode

def fetched (opcode : UInt8) (op : Instruction) (m : Machine β) : Machine β :=
  (m.read m.cpu.registers.pc).2.note (.executes m.cpu.registers.pc opcode op)

theorem Meets.stepCpu {opcode : UInt8} (h : m.Meets opcode) (op : Instruction)
    (meaning : Opcode.decode opcode = .instruction op) :
    let ready := (m.fetched opcode op).setPC (m.cpu.registers.pc + UInt16.ofNat op.length)
    m.stepCpu = (.ok (ready.cost op), ready.execute op) := by
  have found : m.fetch = (opcode, .instruction op, (m.read m.cpu.registers.pc).2) := by
    have first : (m.read m.cpu.registers.pc).1 = opcode := h.next
    simp only [fetch, first, meaning]
  have performs : m.Performs op ((m.fetched opcode op).setPC (m.cpu.registers.pc + UInt16.ofNat op.length)) :=
    ⟨h.running, h.awake, opcode, _, found, rfl⟩
  exact performs.stepCpu

def poppedWord (m : Machine β) : UInt16 := ((m.fetched 0xF1 (.pop .af)).readWord m.cpu.registers.sp).1

theorem Meets.push (h : m.Meets 0xF5) :
    m.stepCpu.1 = .ok 16 ∧
    m.stepCpu.2.bus = Bus.writeWord (m.cpu.registers.sp - 2) m.cpu.registers.af (m.fetched 0xF5 (.push .af)).bus ∧
    m.stepCpu.2.cpu = { m.cpu with registers := { m.cpu.registers with
      pc := m.cpu.registers.pc + 1
      sp := m.cpu.registers.sp - 2 } } := by
  rw [h.stepCpu (.push .af) rfl]
  exact ⟨rfl, rfl, rfl⟩

theorem Meets.pop (h : m.Meets 0xF1) :
    m.stepCpu.1 = .ok 12 ∧
    m.stepCpu.2.cpu = { m.cpu with registers := { m.cpu.registers with
      af := m.poppedWord &&& 0xFFF0
      pc := m.cpu.registers.pc + 1
      sp := m.cpu.registers.sp + 2 } } := by
  rw [h.stepCpu (.pop .af) rfl]
  exact ⟨rfl, rfl⟩

/-- A push of AF writes the word of AF below the stack; a pop that reads the same word there ends with all registers
as they were, but for PC. -/
theorem Meets.push_pop (h : m.Meets 0xF5) (tidy : m.cpu.registers.Tidy) (next : m.stepCpu.2.nextOpcode = 0xF1)
    (back : m.stepCpu.2.poppedWord = m.cpu.registers.af) :
    m.stepCpu.2.stepCpu.1 = .ok 12 ∧
    m.stepCpu.2.stepCpu.2.cpu =
      { m.cpu with registers := { m.cpu.registers with pc := m.cpu.registers.pc + 2 } } := by
  obtain ⟨_, _, pushed⟩ := h.push
  have pops : m.stepCpu.2.Meets 0xF1 := ⟨by rw [pushed]; exact h.running, by rw [pushed]; exact h.awake, next⟩
  obtain ⟨cycles, popped⟩ := pops.pop
  refine ⟨cycles, ?_⟩
  rw [popped, back, tidy.and_upper, pushed]
  simp only [UInt16.sub_add_cancel, UInt16.add_assoc]
  rfl

section Memory

variable {m : Machine FlatMemory}

theorem Meets.get_pop (h : m.Meets 0xF1) (address : UInt16) :
    m.stepCpu.2.bus.get address = m.bus.get address := by
  rw [h.stepCpu (.pop .af) rfl]
  rfl

theorem Meets.get_push (h : m.Meets 0xF5) (address : UInt16) :
    m.stepCpu.2.bus.get address =
      if m.cpu.registers.sp - 2 + 1 = address then m.cpu.registers.a
      else if m.cpu.registers.sp - 2 = address then m.cpu.registers.f else m.bus.get address := by
  rw [h.push.2.1]
  exact Machine.get_push m.cpu.registers.af (m.fetched 0xF5 (.push .af)) address

theorem Meets.reads_back (h : m.Meets 0xF5) : m.stepCpu.2.poppedWord = m.cpu.registers.af := by
  obtain ⟨_, _, pushed⟩ := h.push
  have other : m.cpu.registers.sp - 2 + 1 ≠ m.cpu.registers.sp - 2 := by grind
  change Word.ofBytes (m.stepCpu.2.bus.get (m.stepCpu.2.cpu.registers.sp + 1))
    (m.stepCpu.2.bus.get m.stepCpu.2.cpu.registers.sp) = _
  rw [pushed, h.get_push, h.get_push, if_pos rfl, if_neg other, if_pos rfl]
  exact Word.ofBytes_high_low _

end Memory

/-- Whatever a bus answers and becomes: after any turns from the start the lower nibble of F is zero, the processor
is not both halted and stopped, and F is the sum of its four flags. If it then pushes AF and next pops AF, and reads
the word back that it wrote, all registers but PC are as they were before. -/
theorem processor_stays_regular (bus : β) (turns : List (Turn β)) :
    let m := takeAll ⟨.postBoot, bus⟩ turns
    m.cpu.registers.f &&& 0x0F = 0 ∧ ¬(m.cpu.halted = true ∧ m.cpu.stopped = true) ∧
    m.cpu.registers.f.toNat = 128 * m.flags.zero.toNat + 64 * m.flags.subtract.toNat
      + 32 * m.flags.halfCarry.toNat + 16 * m.flags.carry.toNat ∧
    (m.Meets 0xF5 → m.stepCpu.2.nextOpcode = 0xF1 → m.stepCpu.2.poppedWord = m.cpu.registers.af →
      m.stepCpu.1 = .ok 16 ∧
      m.stepCpu.2.bus = Bus.writeWord (m.cpu.registers.sp - 2) m.cpu.registers.af (m.fetched 0xF5 (.push .af)).bus ∧
      m.stepCpu.2.stepCpu.1 = .ok 12 ∧
      m.stepCpu.2.stepCpu.2.cpu =
        { m.cpu with registers := { m.cpu.registers with pc := m.cpu.registers.pc + 2 } }) := by
  intro m
  have regular : m.cpu.Regular := regular_takeAll Cpu.regular_postBoot turns
  refine ⟨regular.tidy, regular.once, Flags.toNat_of_lower_clear _ regular.tidy, ?_⟩
  intro pushes pops back
  exact ⟨pushes.push.1, pushes.push.2.1, pushes.push_pop regular.tidy pops back⟩

def popsAndPushes : FlatMemory :=
  (FlatMemory.blank.putAll 0x0100 [0xF1, 0xF5, 0xF1]).putAll 0xFFFE [0xFF, 0x12]

theorem processor_stays_regular_in_memory :
    let m := takeAll ⟨.postBoot, popsAndPushes⟩ [.step]
    m.cpu.registers.af = 0x12F0 ∧ m.Meets 0xF5 ∧ m.stepCpu.2.nextOpcode = 0xF1 ∧
      m.stepCpu.2.poppedWord = m.cpu.registers.af ∧
      m.stepCpu.2.stepCpu.2.cpu =
        { m.cpu with registers := { m.cpu.registers with pc := m.cpu.registers.pc + 2 } } := by
  have bytes : popsAndPushes.get 0x0100 = 0xF1 ∧ popsAndPushes.get 0x0101 = 0xF5 ∧ popsAndPushes.get 0x0102 = 0xF1 ∧
      popsAndPushes.get 0xFFFE = 0xFF ∧ popsAndPushes.get 0xFFFF = 0x12 := by
    simp [popsAndPushes, FlatMemory.putAll, FlatMemory.get_put]
  have stays := processor_stays_regular popsAndPushes [.step]
  generalize popsAndPushes = bus at bytes stays ⊢
  obtain ⟨opcode, second, third, low, high⟩ := bytes
  intro m
  have starts : Meets 0xF1 ⟨.postBoot, bus⟩ := ⟨rfl, rfl, opcode⟩
  have cpu : m.cpu = { Cpu.postBoot with registers := { Registers.postBoot with
      af := 0x12F0, pc := 0x0101, sp := 0x0000 } } := by
    have word : poppedWord ⟨.postBoot, bus⟩ = Word.ofBytes (bus.get 0xFFFF) (bus.get 0xFFFE) := rfl
    rw [low, high] at word
    apply starts.pop.2.trans
    rw [word]
    change { Cpu.postBoot with registers := { Registers.postBoot with
      af := Word.ofBytes 0x12 0xFF &&& 0xFFF0, pc := 0x0100 + 1, sp := 0xFFFE + 2 } } = _
    decide
  have memory (address : UInt16) : m.bus.get address = bus.get address := starts.get_pop address
  have pushes : m.Meets 0xF5 := by
    refine ⟨by rw [cpu]; rfl, by rw [cpu]; rfl, ?_⟩
    change m.bus.get m.cpu.registers.pc = 0xF5
    rw [cpu, memory]
    exact second
  have pops : m.stepCpu.2.nextOpcode = 0xF1 := by
    change m.stepCpu.2.bus.get m.stepCpu.2.cpu.registers.pc = 0xF1
    rw [pushes.get_push, pushes.push.2.2, memory, cpu]
    exact third
  have back := pushes.reads_back
  exact ⟨by rw [cpu], pushes, pops, back, (stays.2.2.2 pushes pops back).2.2.2⟩

end Machine

end DotMatrix
