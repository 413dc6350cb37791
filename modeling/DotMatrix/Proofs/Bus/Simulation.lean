import DotMatrix.Proofs.Cpu.Outcome

/-!
Two buses that answer the processor alike. The processor reaches its bus by reads, writes, notes and
batches of cycles only, so a relation between two buses that these keep is kept by a step of the
machine, whatever program it runs.
-/

namespace DotMatrix

variable {α β γ : Type} [Bus β] [Bus γ]

/-- Related buses answer alike and stay related, as long as no cycles pass. -/
structure Bus.Answers (R : β → γ → Prop) : Prop where
  read : ∀ (address : UInt16) {b : β} {g : γ}, R b g →
    (Bus.read address b).1 = (Bus.read address g).1 ∧
      R (Bus.read address b).2 (Bus.read address g).2
  write : ∀ (address : UInt16) (byte : UInt8) {b : β} {g : γ}, R b g →
    R (Bus.write address byte b) (Bus.write address byte g)
  note : ∀ (event : CpuEvent) {b : β} {g : γ}, R b g →
    R (Bus.note event b) (Bus.note event g)

structure Bus.Simulates (R : β → γ → Prop) : Prop extends Bus.Answers R where
  tick : ∀ (cycles : Nat), cycles ≤ longestBatch → ∀ {b : β} {g : γ}, R b g →
    (Bus.tick cycles b).1 = (Bus.tick cycles g).1 ∧
      R (Bus.tick cycles b).2 (Bus.tick cycles g).2

namespace Machine

structure Related (R : β → γ → Prop) (m : Machine β) (k : Machine γ) : Prop where
  cpu : m.cpu = k.cpu
  bus : R m.bus k.bus

structure Agree (R : β → γ → Prop) (x : α × Machine β) (y : α × Machine γ) : Prop where
  value : x.1 = y.1
  rest : Related R x.2 y.2

variable {R : β → γ → Prop} {m : Machine β} {k : Machine γ}

namespace Related

omit [Bus β] [Bus γ] in
theorem mapRegisters (h : Related R m k) (f : Registers → Registers) :
    Related R (m.mapRegisters f) (k.mapRegisters f) :=
  ⟨by simp only [Machine.mapRegisters, h.cpu], h.bus⟩

omit [Bus β] [Bus γ] in
theorem setPC (h : Related R m k) (address : UInt16) : Related R (m.setPC address) (k.setPC address) :=
  h.mapRegisters fun r => { r with pc := address }

omit [Bus β] [Bus γ] in
theorem setSP (h : Related R m k) (address : UInt16) : Related R (m.setSP address) (k.setSP address) :=
  h.mapRegisters fun r => { r with sp := address }

omit [Bus β] [Bus γ] in
theorem setHL (h : Related R m k) (value : UInt16) : Related R (m.setHL value) (k.setHL value) :=
  h.mapRegisters fun r => { r with hl := value }

omit [Bus β] [Bus γ] in
theorem setFlags (h : Related R m k) {a b : Flags} (same : a = b) :
    Related R (m.mapRegisters (·.setFlags a)) (k.mapRegisters (·.setFlags b)) := by
  subst same
  exact h.mapRegisters (·.setFlags a)

omit [Bus β] [Bus γ] in
theorem setAccumulator (h : Related R m k) {a b : UInt8 × Flags} (same : a = b) :
    Related R (m.setAccumulator a) (k.setAccumulator b) := by
  subst same
  exact h.mapRegisters fun r => (r.setFlags a.2).setA a.1

omit [Bus β] [Bus γ] in
theorem setCpu (h : Related R m k) (f : Cpu → Cpu) :
    Related R { m with cpu := f m.cpu } { k with cpu := f k.cpu } :=
  ⟨congrArg f h.cpu, h.bus⟩

omit [Bus β] [Bus γ] in
theorem flags (h : Related R m k) : m.flags = k.flags := by
  simp only [Machine.flags, h.cpu]

omit [Bus β] [Bus γ] in
theorem passes (h : Related R m k) (condition : Option Condition) :
    m.passes condition = k.passes condition := by
  rcases condition with _ | test
  · rfl
  · cases test <;> simp only [Machine.passes, Machine.holds, h.flags]

omit [Bus β] [Bus γ] in
theorem cost (h : Related R m k) (op : Instruction) : m.cost op = k.cost op := by
  cases op <;> simp only [Machine.cost, h.passes]

section Accesses

variable (alike : Bus.Answers R)
include alike

theorem read (h : Related R m k) (address : UInt16) :
    Agree R (m.read address) (k.read address) :=
  ⟨(alike.read address h.bus).1, h.cpu, (alike.read address h.bus).2⟩

theorem write (h : Related R m k) (address : UInt16) (byte : UInt8) :
    Related R (m.write address byte) (k.write address byte) :=
  ⟨h.cpu, alike.write address byte h.bus⟩

theorem note (h : Related R m k) {first second : CpuEvent} (same : first = second) :
    Related R (m.note first) (k.note second) := by
  subst same
  exact ⟨h.cpu, alike.note first h.bus⟩

theorem readWord (h : Related R m k) (address : UInt16) :
    Agree R (m.readWord address) (k.readWord address) := by
  have low := h.read alike address
  have high := low.rest.read alike (address + 1)
  exact ⟨congr (congrArg Word.ofBytes high.value) low.value, high.rest⟩

theorem writeWord (h : Related R m k) (address value : UInt16) :
    Related R (m.writeWord address value) (k.writeWord address value) :=
  (h.write alike address (Word.low value)).write alike (address + 1) (Word.high value)

theorem readOperand (h : Related R m k) (operand : Operand) :
    Agree R (m.readOperand operand) (k.readOperand operand) := by
  cases operand with
  | register name => exact ⟨by simp only [Machine.readOperand, h.cpu], h⟩
  | atHL =>
    simp only [Machine.readOperand, h.cpu]
    exact h.read alike _

theorem writeOperand (h : Related R m k) (operand : Operand) {a b : UInt8} (same : a = b) :
    Related R (m.writeOperand operand a) (k.writeOperand operand b) := by
  subst same
  cases operand with
  | register name => exact h.mapRegisters (·.setByte name a)
  | atHL =>
    simp only [Machine.writeOperand, h.cpu]
    exact h.write alike _ _

theorem immediate (h : Related R m k) : Agree R m.immediate k.immediate := by
  simp only [Machine.immediate, h.cpu]
  exact h.read alike _

theorem immediateWord (h : Related R m k) : Agree R m.immediateWord k.immediateWord := by
  simp only [Machine.immediateWord, h.cpu]
  exact h.readWord alike _

theorem push (h : Related R m k) (value : UInt16) : Related R (m.push value) (k.push value) := by
  simp only [Machine.push, h.cpu]
  exact (h.setSP _).writeWord alike _ _

theorem pop (h : Related R m k) : Agree R m.pop k.pop := by
  simp only [Machine.pop, h.cpu]
  have read := h.readWord alike k.cpu.registers.sp
  exact ⟨read.value, read.rest.setSP _⟩

theorem resolve (h : Related R m k) (place : Location) :
    Agree R (m.resolve place) (k.resolve place) := by
  cases place with
  | bc => exact ⟨by simp only [Machine.resolve, h.cpu], h⟩
  | de => exact ⟨by simp only [Machine.resolve, h.cpu], h⟩
  | hlUp =>
    simp only [Machine.resolve, h.cpu]
    exact ⟨rfl, h.setHL _⟩
  | hlDown =>
    simp only [Machine.resolve, h.cpu]
    exact ⟨rfl, h.setHL _⟩
  | page =>
    have read := h.immediate alike
    exact ⟨congrArg (fun offset => 0xFF00 ||| UInt8.toUInt16 offset) read.value, read.rest⟩
  | pageC => exact ⟨by simp only [Machine.resolve, h.cpu], h⟩
  | absolute => exact h.immediateWord alike

theorem updateOperand (h : Related R m k) (target : Operand) (f : UInt8 → Flags → UInt8 × Flags) :
    Related R (m.updateOperand target f) (k.updateOperand target f) := by
  have read := h.readOperand alike target
  have same : f (m.readOperand target).1 (m.readOperand target).2.flags =
      f (k.readOperand target).1 (k.readOperand target).2.flags := by
    rw [read.value, read.rest.flags]
  exact (read.rest.setFlags (congrArg Prod.snd same)).writeOperand alike target (congrArg Prod.fst same)

theorem mapOperand (h : Related R m k) (target : Operand) (f : UInt8 → UInt8) :
    Related R (m.mapOperand target f) (k.mapOperand target f) := by
  have read := h.readOperand alike target
  exact read.rest.writeOperand alike target (congrArg f read.value)

theorem execute (h : Related R m k) (op : Instruction) :
    Related R (m.execute op) (k.execute op) := by
  cases op with
  | nop => exact h
  | stop =>
    simp only [Machine.execute, h.cpu]
    exact (h.note alike rfl).setCpu fun cpu => { cpu with stopped := true, halted := false }
  | halt => exact h.setCpu fun cpu => { cpu with halted := true }
  | di => exact h.setCpu fun cpu => { cpu with ime := false }
  | ei => exact h.setCpu fun cpu => { cpu with ime := true }
  | daa => exact h.setAccumulator (by rw [h.flags, h.cpu])
  | cpl => exact h.setAccumulator (by rw [h.flags, h.cpu])
  | scf =>
    exact h.mapRegisters fun r =>
      r.setFlags { r.flags with subtract := false, halfCarry := false, carry := true }
  | ccf =>
    exact h.mapRegisters fun r =>
      r.setFlags { r.flags with subtract := false, halfCarry := false, carry := !r.flags.carry }
  | ld target source =>
    have read := h.readOperand alike source
    exact read.rest.writeOperand alike target read.value
  | ldByte target =>
    have read := h.immediate alike
    exact read.rest.writeOperand alike target read.value
  | ldWord target =>
    have read := h.immediateWord alike
    simp only [Machine.execute, read.value]
    exact read.rest.mapRegisters (·.setWord target k.immediateWord.1)
  | storeA place =>
    have found := h.resolve alike place
    simp only [Machine.execute, found.value, found.rest.cpu]
    exact found.rest.write alike _ _
  | loadA place =>
    have found := h.resolve alike place
    have read := found.rest.read alike (k.resolve place).1
    simp only [Machine.execute, found.value, read.value]
    exact read.rest.mapRegisters fun r => r.setA _
  | storeSP =>
    have read := h.immediateWord alike
    simp only [Machine.execute, read.value, read.rest.cpu]
    exact read.rest.writeWord alike _ _
  | ldSPHL =>
    simp only [Machine.execute, h.cpu]
    exact h.setSP _
  | ldHLSP =>
    have read := h.immediate alike
    simp only [Machine.execute, read.value, read.rest.cpu]
    exact read.rest.mapRegisters fun r => { r.setFlags _ with hl := _ }
  | addSP =>
    have read := h.immediate alike
    simp only [Machine.execute, read.value, read.rest.cpu]
    exact read.rest.mapRegisters fun r => { r.setFlags _ with sp := _ }
  | inc target => exact h.updateOperand alike target fun byte flags => Arithmetic.inc byte flags.carry
  | dec target => exact h.updateOperand alike target fun byte flags => Arithmetic.dec byte flags.carry
  | incWord target => exact h.mapRegisters fun r => r.setWord target (r.word target + 1)
  | decWord target => exact h.mapRegisters fun r => r.setWord target (r.word target - 1)
  | addHL source =>
    exact h.mapRegisters fun r =>
      { r.setFlags (Arithmetic.addWords r.hl (r.word source) r.flags.zero).2 with
        hl := (Arithmetic.addWords r.hl (r.word source) r.flags.zero).1 }
  | alu op source =>
    have read := h.readOperand alike source
    simp only [Machine.execute, read.value, read.rest.flags, read.rest.cpu]
    exact read.rest.setAccumulator rfl
  | aluByte op =>
    have read := h.immediate alike
    simp only [Machine.execute, read.value, read.rest.flags, read.rest.cpu]
    exact read.rest.setAccumulator rfl
  | rotateA op =>
    exact h.setAccumulator (by rw [h.flags, h.cpu])
  | jr condition =>
    have read := h.immediate alike
    simp only [Machine.execute, read.rest.passes, read.value, read.rest.cpu]
    split
    next => exact read.rest.setPC _
    next => exact read.rest
  | jp condition =>
    have read := h.immediateWord alike
    simp only [Machine.execute, read.rest.passes, read.value]
    split
    next => exact read.rest.setPC _
    next => exact read.rest
  | jpHL =>
    simp only [Machine.execute, h.cpu]
    exact h.setPC _
  | call condition =>
    have read := h.immediateWord alike
    simp only [Machine.execute, read.rest.passes, read.value, read.rest.cpu]
    split
    next => exact (read.rest.push alike _).setPC _
    next => exact read.rest
  | ret condition =>
    have popped := h.pop alike
    simp only [Machine.execute, h.passes, popped.value]
    split
    next => exact popped.rest.setPC _
    next => exact h
  | reti =>
    have popped := h.pop alike
    simp only [Machine.execute, popped.value]
    exact (popped.rest.setPC _).setCpu fun cpu => { cpu with ime := true }
  | rst slot =>
    simp only [Machine.execute, h.cpu]
    exact (h.push alike _).setPC _
  | push source =>
    simp only [Machine.execute, h.cpu]
    exact h.push alike _
  | pop target =>
    have popped := h.pop alike
    simp only [Machine.execute, popped.value]
    exact popped.rest.mapRegisters (·.setWord target k.pop.1)
  | shift op target =>
    exact h.updateOperand alike target fun byte flags => Arithmetic.shift op byte flags.carry
  | bit n target =>
    have read := h.readOperand alike target
    simp only [Machine.execute, read.value]
    exact read.rest.mapRegisters fun r =>
      r.setFlags (Arithmetic.testBit n (k.readOperand target).1 r.flags.carry)
  | res n target => exact h.mapOperand alike target (· &&& ~~~Arithmetic.bitMask n)
  | set n target => exact h.mapOperand alike target (· ||| Arithmetic.bitMask n)

theorem pendingInterrupts (h : Related R m k) : Agree R m.pendingInterrupts k.pendingInterrupts := by
  have requested := h.read alike Interrupt.requestAddress
  have enabled := requested.rest.read alike Interrupt.enableAddress
  simp only [Machine.pendingInterrupts, requested.value, enabled.value]
  exact ⟨rfl, enabled.rest⟩

theorem stepStopped (h : Related R m k) : Related R m.stepStopped k.stepStopped := by
  have pending := h.pendingInterrupts alike
  simp only [Machine.stepStopped, pending.value]
  split
  next => exact (pending.rest.note alike rfl).setCpu fun cpu => { cpu with stopped := false }
  next => exact pending.rest

theorem stepHalted (h : Related R m k) : Related R m.stepHalted k.stepHalted := by
  have pending := h.pendingInterrupts alike
  simp only [Machine.stepHalted, pending.value]
  split
  next => exact pending.rest
  next => exact pending.rest.setCpu fun cpu => { cpu with halted := false }

theorem fetch (h : Related R m k) : m.fetch.1 = k.fetch.1 ∧ Agree R m.fetch.2 k.fetch.2 := by
  have first := h.read alike k.cpu.registers.pc
  have second := first.rest.read alike (k.cpu.registers.pc + 1)
  simp only [Machine.fetch, h.cpu, first.value]
  split
  next => exact ⟨rfl, by simp only [second.value], second.rest⟩
  next => exact ⟨rfl, rfl, first.rest⟩

theorem perform (h : Related R m k) (opcode : UInt8) (op : Instruction) :
    Agree R (m.perform opcode op) (k.perform opcode op) := by
  simp only [Machine.perform, h.cpu]
  have ready := (h.note alike (Eq.refl (.executes k.cpu.registers.pc opcode op))).setPC
    (k.cpu.registers.pc + UInt16.ofNat op.length)
  exact ⟨ready.cost op, ready.execute alike op⟩

theorem stepCpu (h : Related R m k) : Agree R m.stepCpu k.stepCpu := by
  obtain ⟨opcode, slot, rest⟩ := h.fetch alike
  simp only [Machine.stepCpu, h.cpu]
  split
  next => exact ⟨rfl, h.stepStopped alike⟩
  next =>
    split
    next => exact ⟨rfl, h.stepHalted alike⟩
    next =>
      generalize m.fetch = x at opcode slot rest ⊢
      generalize k.fetch = y at opcode slot rest ⊢
      obtain ⟨code, found, _⟩ := x
      obtain ⟨_, _, _⟩ := y
      obtain rfl : code = _ := opcode
      obtain rfl : found = _ := slot
      cases found with
      | instruction op =>
        have done := rest.perform alike code op
        exact ⟨congrArg Except.ok done.value, done.rest⟩
      | unassigned =>
        have same := congrArg Cpu.registers rest.cpu
        exact ⟨congrArg (fun r => Except.error (Fault.unknownInstruction code r.pc)) same,
          rest.note alike (congrArg (CpuEvent.unassigned code) same)⟩
      | escape =>
        have same := congrArg Cpu.registers rest.cpu
        exact ⟨congrArg (fun r => Except.error (Fault.unknownInstruction code r.pc)) same,
          rest.note alike (congrArg (CpuEvent.unassigned code) same)⟩

theorem enterRoutine (h : Related R m k) (source : Interrupt) :
    Related R (m.enterRoutine source) (k.enterRoutine source) := by
  obtain ⟨cpu, bus⟩ := m
  obtain ⟨_, other⟩ := k
  obtain rfl : cpu = _ := h.cpu
  have requested := h.read alike Interrupt.requestAddress
  simp only [Machine.enterRoutine, requested.value]
  have withdrawn := requested.rest.write alike Interrupt.requestAddress
    ((Machine.read Interrupt.requestAddress ⟨cpu, other⟩).1 &&& ~~~source.mask)
  have ready := withdrawn.setCpu fun cpu => { cpu with ime := false, halted := false, stopped := false }
  have entered := (ready.push alike cpu.registers.pc).setPC source.vector
  exact entered.note alike rfl

theorem serveInterrupt (h : Related R m k) : Agree R m.serveInterrupt k.serveInterrupt := by
  have pending := h.pendingInterrupts alike
  simp only [Machine.serveInterrupt, h.cpu, pending.value]
  split
  next =>
    split
    next => exact ⟨rfl, pending.rest⟩
    next => exact ⟨rfl, pending.rest.enterRoutine alike _⟩
  next => exact ⟨rfl, h⟩

end Accesses

variable (sim : Bus.Simulates R)
include sim

theorem tick (h : Related R m k) {cycles : Nat} (short : cycles ≤ longestBatch) :
    Agree R (m.tick cycles) (k.tick cycles) :=
  ⟨(sim.tick cycles short h.bus).1, h.cpu, (sim.tick cycles short h.bus).2⟩

theorem dispatch (h : Related R m k) (cycles : Nat) :
    Agree R (m.dispatch cycles) (k.dispatch cycles) := by
  obtain ⟨source, rest⟩ := h.serveInterrupt sim.toAnswers
  simp only [Machine.dispatch]
  generalize m.serveInterrupt = x at source rest ⊢
  generalize k.serveInterrupt = y at source rest ⊢
  obtain ⟨served, _⟩ := x
  obtain ⟨_, _⟩ := y
  obtain rfl : served = _ := source
  cases served with
  | none => exact ⟨rfl, rest⟩
  | some source =>
    have ticked := rest.tick sim (show Interrupt.dispatchCycles ≤ longestBatch by decide)
    exact ⟨congrArg (Except.map _) ticked.value, ticked.rest⟩

theorem step (h : Related R m k) : Agree R m.step k.step := by
  obtain ⟨result, rest⟩ := h.stepCpu sim.toAnswers
  simp only [Machine.step]
  generalize found : m.stepCpu = x at result rest ⊢
  generalize k.stepCpu = y at result rest ⊢
  obtain ⟨stepped, m'⟩ := x
  obtain ⟨_, k'⟩ := y
  obtain rfl : stepped = _ := result
  cases stepped with
  | error fault => exact ⟨rfl, rest⟩
  | ok cycles =>
    have short : cycles ≤ longestBatch := stepCpu_le (congrArg Prod.fst found)
    obtain ⟨result, rest⟩ := rest.tick sim short
    simp only
    generalize m'.tick cycles = x at result rest ⊢
    generalize k'.tick cycles = y at result rest ⊢
    obtain ⟨ticked, _⟩ := x
    obtain ⟨_, _⟩ := y
    obtain rfl : ticked = _ := result
    cases ticked with
    | error fault => exact ⟨rfl, rest⟩
    | ok => exact rest.dispatch sim cycles

end Related
end Machine

/-- A property of a bus that every access of the processor keeps. -/
structure Bus.AccessInvariant (P : β → Prop) : Prop where
  read : ∀ (address : UInt16) {b : β}, P b → P (Bus.read address b).2
  write : ∀ (address : UInt16) (byte : UInt8) {b : β}, P b → P (Bus.write address byte b)
  note : ∀ (event : CpuEvent) {b : β}, P b → P (Bus.note event b)

structure Bus.Invariant (P : β → Prop) : Prop extends Bus.AccessInvariant P where
  tick : ∀ (cycles : Nat), cycles ≤ longestBatch → ∀ {b : β}, P b → P (Bus.tick cycles b).2

variable {P : β → Prop}

theorem Bus.AccessInvariant.answers (inv : Bus.AccessInvariant P) :
    Bus.Answers fun b g : β => b = g ∧ P b where
  read address _ _ h := by
    obtain ⟨rfl, holds⟩ := h
    exact ⟨rfl, rfl, inv.read address holds⟩
  write address byte _ _ h := by
    obtain ⟨rfl, holds⟩ := h
    exact ⟨rfl, inv.write address byte holds⟩
  note event _ _ h := by
    obtain ⟨rfl, holds⟩ := h
    exact ⟨rfl, inv.note event holds⟩

theorem Bus.Invariant.simulates (inv : Bus.Invariant P) :
    Bus.Simulates fun b g : β => b = g ∧ P b where
  toAnswers := inv.answers
  tick cycles short _ _ h := by
    obtain ⟨rfl, holds⟩ := h
    exact ⟨rfl, rfl, inv.tick cycles short holds⟩

namespace Machine

theorem stepCpu_keeps (inv : Bus.AccessInvariant P) {m : Machine β} (holds : P m.bus) :
    P m.stepCpu.2.bus := by
  have same : Related (fun b g => b = g ∧ P b) m m := ⟨rfl, rfl, holds⟩
  exact (same.stepCpu inv.answers).rest.bus.2

theorem serveInterrupt_keeps (inv : Bus.AccessInvariant P) {m : Machine β} (holds : P m.bus) :
    P m.serveInterrupt.2.bus := by
  have same : Related (fun b g => b = g ∧ P b) m m := ⟨rfl, rfl, holds⟩
  exact (same.serveInterrupt inv.answers).rest.bus.2

theorem step_keeps (inv : Bus.Invariant P) {m : Machine β} (holds : P m.bus) : P m.step.2.bus := by
  have same : Related (fun b g => b = g ∧ P b) m m := ⟨rfl, rfl, holds⟩
  exact (same.step inv.simulates).rest.bus.2

end Machine
end DotMatrix
