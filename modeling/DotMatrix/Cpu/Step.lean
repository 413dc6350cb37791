import DotMatrix.Cpu.Execute
import DotMatrix.Cpu.Opcode

/-!
Steps of the processor. A step fetches and executes one instruction, or idles; a served interrupt
enters the routine of the first pending source. A run of the machine alternates the two and lets the
bus catch up after each.
-/

namespace DotMatrix.Machine

variable {β : Type} [Bus β]

def idleCycles : Nat := 4

/-- The step of a stopped processor takes no time; a pending button ends the stop. -/
@[specialize] def stepStopped (m : Machine β) : Machine β :=
  let (pending, m) := m.pendingInterrupts
  if pending.contains .joypad then
    let m := m.note .leavesStop
    { m with cpu := { m.cpu with stopped := false } }
  else m

/-- Any pending source ends a halt, served or not. -/
@[specialize] def stepHalted (m : Machine β) : Machine β :=
  let (pending, m) := m.pendingInterrupts
  if pending.isEmpty then m else { m with cpu := { m.cpu with halted := false } }

@[specialize] def fetch (m : Machine β) : UInt8 × Slot × Machine β :=
  let address := m.cpu.registers.pc
  let (opcode, m) := m.read address
  match Opcode.decode opcode with
  | .escape =>
    let (second, m) := m.read (address + 1)
    (opcode, .instruction (Opcode.decodeSecond second), m)
  | slot => (opcode, slot, m)

@[specialize] def perform (opcode : UInt8) (op : Instruction) (m : Machine β) : Nat × Machine β :=
  let address := m.cpu.registers.pc
  let m := m.note (.executes address opcode op)
  let m := m.setPC (address + UInt16.ofNat op.length)
  (m.cost op, m.execute op)

@[specialize] def stepCpu (m : Machine β) : Except Fault Nat × Machine β :=
  if m.cpu.stopped then (.ok 0, m.stepStopped)
  else if m.cpu.halted then (.ok idleCycles, m.stepHalted)
  else
    match m.fetch with
    | (opcode, .instruction op, m) =>
      let (cycles, m) := m.perform opcode op
      (.ok cycles, m)
    | (opcode, _, m) =>
      (.error (.unknownInstruction opcode m.cpu.registers.pc),
        m.note (.unassigned opcode m.cpu.registers))

@[specialize] def enterRoutine (source : Interrupt) (m : Machine β) : Machine β :=
  let (requested, m) := m.read Interrupt.requestAddress
  let m := m.write Interrupt.requestAddress (requested &&& ~~~source.mask)
  let m := { m with cpu := { m.cpu with ime := false, halted := false, stopped := false } }
  let returnAddress := m.cpu.registers.pc
  let m := (m.push returnAddress).setPC source.vector
  m.note (.dispatches source returnAddress m.cpu.registers.sp)

@[specialize] def serveInterrupt (m : Machine β) : Option Interrupt × Machine β :=
  if m.cpu.ime then
    let (pending, m) := m.pendingInterrupts
    match pending.first? with
    | none => (none, m)
    | some source => (some source, m.enterRoutine source)
  else (none, m)

@[specialize] def dispatch (cycles : Nat) (m : Machine β) : Except Fault Nat × Machine β :=
  match m.serveInterrupt with
  | (none, m) => (.ok cycles, m)
  | (some _, m) =>
    let (result, m) := m.tick Interrupt.dispatchCycles
    (result.map fun _ => cycles + Interrupt.dispatchCycles, m)

@[specialize] def step (m : Machine β) : Except Fault Nat × Machine β :=
  match m.stepCpu with
  | (.error fault, m) => (.error fault, m)
  | (.ok cycles, m) =>
    match m.tick cycles with
    | (.error fault, m) => (.error fault, m)
    | (.ok (), m) => m.dispatch cycles

theorem stepCpu_pos {m : Machine β} (running : m.cpu.stopped = false) {cycles : Nat}
    (done : m.stepCpu.1 = .ok cycles) : 0 < cycles := by
  unfold stepCpu at done
  rw [if_neg (by simp [running])] at done
  split at done
  next => cases done; decide
  next =>
    split at done
    next => cases done; exact cost_pos _ _
    next => cases done

theorem le_dispatch {m : Machine β} {before cycles : Nat} (done : (m.dispatch before).1 = .ok cycles) :
    before ≤ cycles := by
  unfold dispatch at done
  split at done
  next => cases done; exact Nat.le_refl _
  next served _ =>
    change Except.map _ (served.tick Interrupt.dispatchCycles).1 = _ at done
    cases ticked : (served.tick Interrupt.dispatchCycles).1 with
    | error => rw [ticked] at done; cases done
    | ok => rw [ticked] at done; cases done; exact Nat.le_add_right _ _

/-- Only the step of a stopped processor takes no time. -/
theorem step_pos {m : Machine β} (running : m.cpu.stopped = false) {cycles : Nat}
    (done : m.step.1 = .ok cycles) : 0 < cycles := by
  unfold step at done
  split at done
  next => cases done
  next stepped =>
    have before := stepCpu_pos running (congrArg Prod.fst stepped)
    split at done
    next => cases done
    next => exact Nat.lt_of_lt_of_le before (le_dispatch done)

@[specialize] def repeatSteps (advance : Machine β → Except Fault Nat × Machine β) :
    Nat → Array Nat → Machine β → Except Fault (Array Nat) × Machine β
  | 0, counts, m => (.ok counts, m)
  | n + 1, counts, m =>
    match advance m with
    | (.error fault, m) => (.error fault, m)
    | (.ok cycles, m) => repeatSteps advance n (counts.push cycles) m

end DotMatrix.Machine
