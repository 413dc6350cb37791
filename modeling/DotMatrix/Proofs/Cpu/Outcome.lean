import DotMatrix.Cpu.Step

/-!
How a step can go, and how many cycles it takes. A step hands one batch of cycles to its bus for its
instruction, and a second one if it enters the routine of an interrupt.
-/

namespace DotMatrix

variable {β : Type} [Bus β]

def longestBatch : Nat := 24

theorem Operand.cost_le (operand : Operand) {register memory bound : Nat} (fast : register ≤ bound)
    (slow : memory ≤ bound) : operand.cost register memory ≤ bound := by
  cases operand <;> assumption

/-- No instruction takes longer than a call, with its branch taken or not. -/
theorem Instruction.cycles_add_taken_le (op : Instruction) :
    op.cycles + op.takenCycles ≤ longestBatch := by
  cases op with
  | ld target source =>
    have first := target.cost_le (show 0 ≤ 4 by decide) (show 4 ≤ 4 by decide)
    have second := source.cost_le (show 0 ≤ 4 by decide) (show 4 ≤ 4 by decide)
    simp only [cycles, takenCycles, longestBatch]
    omega
  | ldByte target | inc target | dec target | alu _ target | shift _ target | bit _ target
  | res _ target | set _ target => exact target.cost_le (by decide) (by decide)
  | storeA place | loadA place => cases place <;> decide
  | jr condition | jp condition | call condition | ret condition =>
    cases condition <;> simp [cycles, takenCycles, longestBatch]
  | _ => simp [cycles, takenCycles, longestBatch]

namespace Machine

omit [Bus β] in
theorem cost_le (op : Instruction) (m : Machine β) : m.cost op ≤ longestBatch := by
  have all := op.cycles_add_taken_le
  unfold cost
  split
  all_goals first | (split <;> omega) | omega

theorem stopped_execute {op : Instruction} (other : op ≠ .stop) (m : Machine β) :
    (m.execute op).cpu.stopped = m.cpu.stopped := by
  cases op with
  | stop => exact absurd rfl other
  | ld target source => cases target <;> cases source <;> rfl
  | ldByte target | inc target | dec target | shift _ target | res _ target | set _ target =>
    cases target <;> rfl
  | alu _ source => cases source <;> rfl
  | bit _ target => cases target <;> rfl
  | storeA place | loadA place => cases place <;> rfl
  | jr | jp | call | ret =>
    simp only [execute]
    split <;> rfl
  | _ => rfl

theorem cpu_fetch (m : Machine β) : m.fetch.2.2.cpu = m.cpu := by
  simp only [fetch]
  split <;> rfl

inductive CpuOutcome (m : Machine β) : Except Fault Nat × Machine β → Prop where
  | stopped (rests : m.cpu.stopped = true) : CpuOutcome m (.ok 0, m.stepStopped)
  | halted (running : m.cpu.stopped = false) (rests : m.cpu.halted = true) :
      CpuOutcome m (.ok idleCycles, m.stepHalted)
  | performed {opcode : UInt8} {op : Instruction} {rest : Machine β} (running : m.cpu.stopped = false)
      (awake : m.cpu.halted = false) (fetched : m.fetch = (opcode, .instruction op, rest)) :
      CpuOutcome m (.ok ((rest.perform opcode op).1), (rest.perform opcode op).2)
  | unknown {opcode : UInt8} {slot : Slot} {rest : Machine β} (running : m.cpu.stopped = false)
      (awake : m.cpu.halted = false) (fetched : m.fetch = (opcode, slot, rest))
      (meaningless : ∀ op, slot ≠ .instruction op) :
      CpuOutcome m (.error (.unknownInstruction opcode rest.cpu.registers.pc),
        rest.note (.unassigned opcode rest.cpu.registers))

theorem stepCpu_outcome (m : Machine β) : m.CpuOutcome m.stepCpu := by
  unfold stepCpu
  cases running : m.cpu.stopped with
  | true => exact .stopped running
  | false =>
    cases awake : m.cpu.halted with
    | true => exact .halted running awake
    | false =>
      generalize fetched : m.fetch = x
      obtain ⟨opcode, slot, rest⟩ := x
      cases slot with
      | instruction op => exact .performed running awake fetched
      | unassigned => exact .unknown running awake fetched (fun _ => Slot.noConfusion)
      | escape => exact .unknown running awake fetched (fun _ => Slot.noConfusion)

theorem stepCpu_le {m : Machine β} {cycles : Nat} (done : m.stepCpu.1 = .ok cycles) :
    cycles ≤ longestBatch := by
  have outcome := m.stepCpu_outcome
  generalize m.stepCpu = x at done outcome
  cases outcome with
  | stopped => cases done; decide
  | halted => cases done; decide
  | performed => cases done; exact cost_le _ _
  | unknown => cases done

/-- Nothing but entering a routine changes whether the processor is stopped, and that ends a stop. -/
theorem stopped_of_serveInterrupt {m : Machine β} (stopped : m.serveInterrupt.2.cpu.stopped = true) :
    m.cpu.stopped = true := by
  simp only [serveInterrupt] at stopped
  split at stopped
  next =>
    split at stopped
    next => exact stopped
    next => cases stopped
  next => exact stopped

inductive StepOutcome (m : Machine β) : Except Fault Nat × Machine β → Prop where
  | failed {fault : Fault} {rest : Machine β} (cpu : m.stepCpu = (.error fault, rest)) :
      StepOutcome m (.error fault, rest)
  | refused {cycles : Nat} {fault : Fault} {ready rest : Machine β}
      (cpu : m.stepCpu = (.ok cycles, ready)) (batch : ready.tick cycles = (.error fault, rest)) :
      StepOutcome m (.error fault, rest)
  | unserved {cycles : Nat} {ready caught rest : Machine β} (cpu : m.stepCpu = (.ok cycles, ready))
      (batch : ready.tick cycles = (.ok (), caught)) (service : caught.serveInterrupt = (none, rest)) :
      StepOutcome m (.ok cycles, rest)
  | refusedEntry {cycles : Nat} {fault : Fault} {source : Interrupt}
      {ready caught entered rest : Machine β} (cpu : m.stepCpu = (.ok cycles, ready))
      (batch : ready.tick cycles = (.ok (), caught))
      (service : caught.serveInterrupt = (some source, entered))
      (entry : entered.tick Interrupt.dispatchCycles = (.error fault, rest)) :
      StepOutcome m (.error fault, rest)
  | served {cycles : Nat} {source : Interrupt} {ready caught entered rest : Machine β}
      (cpu : m.stepCpu = (.ok cycles, ready)) (batch : ready.tick cycles = (.ok (), caught))
      (service : caught.serveInterrupt = (some source, entered))
      (entry : entered.tick Interrupt.dispatchCycles = (.ok (), rest)) :
      StepOutcome m (.ok (cycles + Interrupt.dispatchCycles), rest)

theorem step_outcome (m : Machine β) : m.StepOutcome m.step := by
  unfold step
  split
  next fault rest cpu => exact .failed cpu
  next cycles ready cpu =>
    split
    next fault rest batch => exact .refused cpu batch
    next caught batch =>
      unfold dispatch
      split
      next rest service => exact .unserved cpu batch service
      next source entered service =>
        generalize entry : entered.tick Interrupt.dispatchCycles = x
        obtain ⟨result, rest⟩ := x
        cases result with
        | error fault => exact .refusedEntry cpu batch service entry
        | ok => exact .served cpu batch service entry

/-- What the step of the processor establishes holds after the whole step, if batches and the service of
interrupts keep it. -/
theorem holds_after_step {Q : Machine β → Prop} (batches : ∀ cycles m, Q m → Q (tick cycles m).2)
    (serves : ∀ m, Q m → Q (serveInterrupt m).2) {m : Machine β} (start : Q m.stepCpu.2) : Q m.step.2 := by
  have outcome := m.step_outcome
  generalize m.step = x at outcome ⊢
  cases outcome with
  | failed cpu => rwa [cpu] at start
  | @refused cycles _ ready _ cpu batch =>
    rw [cpu] at start
    have caught := batches cycles ready start
    rwa [batch] at caught
  | @unserved cycles ready caught _ cpu batch service =>
    rw [cpu] at start
    have ticked := batches cycles ready start
    rw [batch] at ticked
    have rest := serves caught ticked
    rwa [service] at rest
  | @refusedEntry cycles _ _ ready caught entered _ cpu batch service entry
  | @served cycles _ ready caught entered _ cpu batch service entry =>
    rw [cpu] at start
    have ticked := batches cycles ready start
    rw [batch] at ticked
    have inside := serves caught ticked
    rw [service] at inside
    have rest := batches Interrupt.dispatchCycles entered inside
    rwa [entry] at rest

theorem step_le {m : Machine β} {cycles : Nat} (done : m.step.1 = .ok cycles) :
    cycles ≤ longestBatch + Interrupt.dispatchCycles := by
  have outcome := m.step_outcome
  generalize m.step = x at done outcome
  cases outcome with
  | failed | refused | refusedEntry => cases done
  | unserved cpu =>
    cases done
    exact Nat.le_trans (stepCpu_le (congrArg Prod.fst cpu)) (Nat.le_add_right _ _)
  | served cpu =>
    cases done
    exact Nat.add_le_add_right (stepCpu_le (congrArg Prod.fst cpu)) _

end Machine
end DotMatrix
