import DotMatrix.Proofs.Byte
import DotMatrix.Proofs.Console.Reachability

/-!
What a console cannot go on from. A step fails by an opcode without a meaning, or by a timer that is too
far behind for another batch; a frame may also take too long to be counted.
-/

namespace DotMatrix

namespace Opcode

def unassigned : List UInt8 := [0xD3, 0xDB, 0xDD, 0xE3, 0xE4, 0xEB, 0xEC, 0xED, 0xF4, 0xFC, 0xFD]

theorem decode_eq_unassigned_iff (opcode : UInt8) : decode opcode = .unassigned ↔ opcode ∈ unassigned := by
  revert opcode
  decide +kernel

end Opcode

namespace Machine

section Fetches

variable {β : Type} [Bus β] {m : Machine β} {fault : Fault}

def nextOpcode (m : Machine β) : UInt8 := (m.read m.cpu.registers.pc).1

theorem fetch_fst (m : Machine β) : m.fetch.1 = m.nextOpcode := by
  simp only [fetch, nextOpcode]
  split <;> rfl

/-- A fetch finds an instruction, unless its first byte means nothing. -/
theorem fetch_slot (m : Machine β) :
    (m.nextOpcode ∈ Opcode.unassigned ∧ m.fetch.2.1 = .unassigned) ∨
    (m.nextOpcode ∉ Opcode.unassigned ∧ ∃ op, m.fetch.2.1 = .instruction op) := by
  rw [← Opcode.decode_eq_unassigned_iff]
  simp only [fetch, nextOpcode]
  cases found : Opcode.decode (m.read m.cpu.registers.pc).1 with
  | unassigned => exact .inl ⟨rfl, rfl⟩
  | escape => exact .inr ⟨Slot.noConfusion, _, rfl⟩
  | instruction op => exact .inr ⟨Slot.noConfusion, op, rfl⟩

theorem stepCpu_error_iff : m.stepCpu.1 = .error fault ↔
    m.cpu.stopped = false ∧ m.cpu.halted = false ∧ m.nextOpcode ∈ Opcode.unassigned ∧
      fault = .unknownInstruction m.nextOpcode m.cpu.registers.pc := by
  have outcome := m.stepCpu_outcome
  generalize m.stepCpu = x at outcome ⊢
  cases outcome with
  | stopped rests =>
    apply iff_of_false nofun
    intro both
    exact absurd (rests.symm.trans both.1) (by decide)
  | halted _ rests =>
    apply iff_of_false nofun
    intro both
    exact absurd (rests.symm.trans both.2.1) (by decide)
  | performed _ _ fetched =>
    apply iff_of_false nofun
    intro both
    rcases m.fetch_slot with ⟨_, slot⟩ | ⟨meaningful, _⟩
    · rw [fetched] at slot
      cases slot
    · exact meaningful both.2.2.1
  | @unknown opcode slot rest running awake fetched meaningless =>
    have first := m.fetch_fst
    have cpu := m.cpu_fetch
    have kind := m.fetch_slot
    rw [fetched] at first cpu kind
    obtain rfl : opcode = m.nextOpcode := first
    rw [show rest.cpu = m.cpu from cpu]
    rcases kind with ⟨unknown, _⟩ | ⟨_, op, found⟩
    · constructor
      · intro same
        cases same
        exact ⟨running, awake, unknown, rfl⟩
      · rintro ⟨_, _, _, rfl⟩
        rfl
    · exact absurd found (meaningless op)

theorem cpu_of_stepCpu_error (failed : m.stepCpu.1 = .error fault) : m.stepCpu.2.cpu = m.cpu := by
  have outcome := m.stepCpu_outcome
  generalize m.stepCpu = x at failed outcome ⊢
  cases outcome with
  | stopped | halted | performed => cases failed
  | unknown _ _ fetched =>
    have cpu := m.cpu_fetch
    rwa [fetched] at cpu

end Fetches

variable {m rest : Machine Board} {cycles : Nat} {fault : Fault}

theorem bus_fetch (m : Machine Board) : m.fetch.2.2.bus = m.bus := by
  simp only [fetch]
  split <;> rfl

theorem behind_of_tick (sound : m.bus.Sound) (short : cycles ≤ longestBatch)
    (refused : m.tick cycles = (.error fault, rest)) :
    fault = .countdownOverflow ∧ rest.bus.timer.Behind := by
  have outcome := m.bus.tick_outcome short
  simp only [tick] at refused
  change ((m.bus.tick cycles).1, { m with bus := (m.bus.tick cycles).2 }) = _ at refused
  generalize m.bus.tick cycles = x at outcome refused
  cases outcome with
  | nothing | taken => cases refused
  | refused room =>
    cases refused
    exact ⟨rfl, sound.behind_of_refusal short room⟩

theorem read_of_stepCpu_error (failed : m.stepCpu.1 = .error fault) (address : UInt16) :
    m.stepCpu.2.bus.read address = m.bus.read address := by
  have outcome := m.stepCpu_outcome
  generalize m.stepCpu = x at failed outcome ⊢
  cases outcome with
  | stopped | halted | performed => cases failed
  | unknown _ _ fetched =>
    have bus := m.bus_fetch
    rw [fetched] at bus
    rw [← bus]
    rfl

/-- A step fails by its fetch, or by a batch that the timer cannot count. -/
theorem fault_of_step (sound : m.bus.Sound) (failed : m.step = (.error fault, rest)) :
    m.stepCpu = (.error fault, rest) ∨ fault = .countdownOverflow ∧ rest.bus.timer.Behind := by
  have ready := stepCpu_keeps Board.sound_invariant.toAccessInvariant sound
  have outcome := m.step_outcome
  rw [failed] at outcome
  cases outcome with
  | failed cpu => exact .inl cpu
  | refused cpu batch =>
    rw [cpu] at ready
    exact .inr (behind_of_tick ready (stepCpu_le (congrArg Prod.fst cpu)) batch)
  | @refusedEntry spent _ _ prepared _ _ _ cpu batch service entry =>
    rw [cpu] at ready
    have caught : (prepared.tick spent).2.bus.Sound :=
      Board.sound_invariant.tick spent (stepCpu_le (congrArg Prod.fst cpu)) ready
    rw [batch] at caught
    have entered := serveInterrupt_keeps Board.sound_invariant.toAccessInvariant caught
    rw [service] at entered
    exact .inr (behind_of_tick entered (by decide) entry)

end Machine

namespace Console

variable {c rest : Console} {fault : Fault}

structure Stuck (c : Console) : Prop where
  running : c.machine.cpu.stopped = false
  awake : c.machine.cpu.halted = false
  unknown : c.board.read c.machine.cpu.registers.pc ∈ Opcode.unassigned

def stuckFault (c : Console) : Fault :=
  .unknownInstruction (c.board.read c.machine.cpu.registers.pc) c.machine.cpu.registers.pc

/-- What a failed call leaves behind shows why it failed, unless a frame was too long. -/
inductive Explains (c : Console) : Fault → Prop where
  | stuck (stuck : c.Stuck) : Explains c c.stuckFault
  | behind (timer : c.board.timer.Behind) : Explains c .countdownOverflow

/-- A step meets an opcode that means nothing exactly if it starts there. -/
theorem step_unknown_iff (sound : c.board.Sound) {opcode : UInt8} {address : UInt16} :
    c.step.1 = .error (.unknownInstruction opcode address) ↔
      c.Stuck ∧ c.stuckFault = .unknownInstruction opcode address := by
  have fetches := @Machine.stepCpu_error_iff _ _ c.machine (.unknownInstruction opcode address)
  constructor
  · intro failed
    have stepped : c.machine.step = (.error (.unknownInstruction opcode address), c.machine.step.2) :=
      Prod.ext failed rfl
    rcases Machine.fault_of_step sound stepped with cpu | ⟨other, _⟩
    · obtain ⟨running, awake, unknown, same⟩ := fetches.mp (congrArg Prod.fst cpu)
      exact ⟨⟨running, awake, unknown⟩, same.symm⟩
    · cases other
  · rintro ⟨⟨running, awake, unknown⟩, same⟩
    have cpu := fetches.mpr ⟨running, awake, unknown, same.symm⟩
    change c.machine.step.1 = _
    unfold Machine.step
    generalize c.machine.stepCpu = x at cpu ⊢
    obtain ⟨result, next⟩ := x
    cases cpu
    rfl

theorem explains_of_step (sound : c.board.Sound) (failed : c.step = (.error fault, rest)) :
    rest.Explains fault := by
  have result : c.machine.step.1 = .error fault := congrArg Prod.fst failed
  have left : c.machine.step.2 = rest.machine := congrArg (fun x => x.2.machine) failed
  have stepped : c.machine.step = (.error fault, rest.machine) := Prod.ext result left
  rcases Machine.fault_of_step sound stepped with cpu | ⟨rfl, late⟩
  · have fetch := congrArg Prod.fst cpu
    have stays := Machine.cpu_of_stepCpu_error fetch
    have bytes := Machine.read_of_stepCpu_error fetch c.machine.cpu.registers.pc
    obtain ⟨running, awake, unknown, rfl⟩ := Machine.stepCpu_error_iff.mp fetch
    rw [cpu] at stays bytes
    have same : rest.stuckFault = .unknownInstruction c.machine.nextOpcode c.machine.cpu.registers.pc := by
      change Fault.unknownInstruction (rest.machine.bus.read rest.machine.cpu.registers.pc) _ = _
      rw [stays, bytes]
      rfl
    rw [← same]
    refine .stuck ⟨?_, ?_, ?_⟩
    · rw [stays]; exact running
    · rw [stays]; exact awake
    · change rest.machine.bus.read rest.machine.cpu.registers.pc ∈ _
      rw [stays, bytes]
      exact unknown
  · exact .behind late

theorem explains_of_continueFrame {elapsed : Nat} (sound : c.board.Sound)
    (failed : c.continueFrame elapsed = (.error fault, rest)) :
    fault = .frameOverflow ∨ rest.Explains fault := by
  fun_induction continueFrame elapsed c with
  | case1 elapsed c other next stepped =>
    cases failed
    exact .inr (explains_of_step sound stepped)
  | case2 => cases failed
  | case3 elapsed c cycles next stepped _ _ ih =>
    have kept := step_keeps Board.sound_invariant sound
    rw [stepped] at kept
    exact ih kept failed
  | case4 =>
    cases failed
    exact .inl rfl

theorem explains_of_runFrame (sound : c.board.Sound) (failed : c.runFrame = (.error fault, rest)) :
    fault = .frameOverflow ∨ rest.Explains fault :=
  explains_of_continueFrame (c := c.clearFrame) sound.clearFrame failed

end Console
end DotMatrix
