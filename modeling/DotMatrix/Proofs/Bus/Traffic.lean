import DotMatrix.Proofs.Bus.Simulation
import Mathlib.Algebra.Order.Ring.Int

/-!
What a run does to its bus. A watched bus lists every write, note and batch of cycles that it takes;
watching changes nothing else, so the list of a step can be read off the watched machine.
-/

namespace DotMatrix

inductive Access where
  | write (address : UInt16) (byte : UInt8)
  | note (event : CpuEvent)
  /-- A batch of cycles that the bus could count. -/
  | batch (cycles : Nat)

namespace Access

def cycles : Access → Nat
  | batch cycles => cycles
  | _ => 0

def writesTo (address : UInt16) : Access → Bool
  | write target _ => target == address
  | _ => false

/-- The processor has come to a stop, or to an opcode without a meaning. -/
def halts : Access → Bool
  | note (.stops _) | note (.unassigned _ _) => true
  | _ => false

def total (seen : List Access) : Nat := (seen.map cycles).sum

@[simp] theorem total_nil : total [] = 0 := rfl

@[simp] theorem total_append (first second : List Access) :
    total (first ++ second) = total first + total second := by
  simp only [total, List.map_append, List.sum_append]

@[simp] theorem total_write (address : UInt16) (byte : UInt8) : total [write address byte] = 0 := rfl

@[simp] theorem total_note (event : CpuEvent) : total [note event] = 0 := rfl

@[simp] theorem total_batch (cycles : Nat) : total [batch cycles] = cycles := rfl

end Access

/-- No access of the list writes to one of the addresses. -/
def Spares (addresses : List UInt16) (seen : List Access) : Prop :=
  ∀ access ∈ seen, ∀ address ∈ addresses, access.writesTo address = false

-- the instance is written out since the one that is found may go through all the addresses there are
instance (addresses : List UInt16) (seen : List Access) : Decidable (Spares addresses seen) :=
  @List.decidableBAll Access (fun access => ∀ address ∈ addresses, access.writesTo address = false)
    (fun access => List.decidableBAll (access.writesTo · = false) addresses) seen

theorem spares_append {addresses : List UInt16} {first second : List Access} :
    Spares addresses (first ++ second) ↔ Spares addresses first ∧ Spares addresses second :=
  List.forall_mem_append

theorem Spares.ne {addresses : List UInt16} {before : List Access} {address : UInt16} {byte : UInt8}
    (spares : Spares addresses (before ++ [.write address byte])) (spared : UInt16)
    (listed : spared ∈ addresses) : address ≠ spared := by
  have kept := (spares_append.mp spares).2 _ (List.mem_singleton.mpr rfl) spared listed
  exact beq_eq_false_iff_ne.mp kept

structure Watched (β : Type) where
  bus : β
  /-- The accesses so far, the oldest first. -/
  seen : List Access

variable {β : Type} [Bus β]

namespace Watched

instance : Bus (Watched β) where
  read address w := ((Bus.read address w.bus).1, { w with bus := (Bus.read address w.bus).2 })
  write address byte w := ⟨Bus.write address byte w.bus, w.seen ++ [.write address byte]⟩
  tick cycles w :=
    match Bus.tick cycles w.bus with
    | (.ok (), bus) => (.ok (), ⟨bus, w.seen ++ [.batch cycles]⟩)
    | (.error fault, bus) => (.error fault, { w with bus })
  note event w := ⟨Bus.note event w.bus, w.seen ++ [.note event]⟩

theorem tick_ok {cycles : Nat} {w : Watched β} {bus : β} (taken : Bus.tick cycles w.bus = (.ok (), bus)) :
    Bus.tick cycles w = (.ok (), ⟨bus, w.seen ++ [.batch cycles]⟩) := by
  change (match Bus.tick cycles w.bus with | (.ok (), bus) => _ | (.error fault, bus) => _) = _
  rw [taken]

theorem tick_error {cycles : Nat} {w : Watched β} {fault : Fault} {bus : β}
    (refused : Bus.tick cycles w.bus = (.error fault, bus)) :
    Bus.tick cycles w = (.error fault, { w with bus }) := by
  change (match Bus.tick cycles w.bus with | (.ok (), bus) => _ | (.error fault, bus) => _) = _
  rw [refused]

theorem simulates : Bus.Simulates fun (w : Watched β) (b : β) => w.bus = b where
  read address _ _ h := by subst h; exact ⟨rfl, rfl⟩
  write address byte _ _ h := by subst h; rfl
  note event _ _ h := by subst h; rfl
  tick cycles _ w _ h := by
    subst h
    generalize taken : Bus.tick cycles w.bus = x
    obtain ⟨result, bus⟩ := x
    cases result with
    | ok => rw [tick_ok taken]; exact ⟨rfl, rfl⟩
    | error fault => rw [tick_error taken]; exact ⟨rfl, rfl⟩

theorem mem_tick {access : Access} (cycles : Nat) {w : Watched β} (listed : access ∈ w.seen) :
    access ∈ (Bus.tick cycles w).2.seen := by
  generalize taken : Bus.tick cycles w.bus = x
  obtain ⟨result, bus⟩ := x
  cases result with
  | ok => rw [tick_ok taken]; exact List.mem_append_left _ listed
  | error fault => rw [tick_error taken]; exact listed

theorem keeps_mem (access : Access) : Bus.Invariant fun w : Watched β => access ∈ w.seen where
  read _ _ listed := listed
  write _ _ _ listed := List.mem_append_left _ listed
  note _ _ listed := List.mem_append_left _ listed
  tick cycles _ _ listed := mem_tick cycles listed

theorem keeps_total (cycles : Nat) :
    Bus.AccessInvariant fun w : Watched β => Access.total w.seen = cycles where
  read _ _ same := same
  write address byte w same := by
    change Access.total (w.seen ++ [.write address byte]) = cycles
    rw [Access.total_append, same, Access.total_write, Nat.add_zero]
  note event w same := by
    change Access.total (w.seen ++ [.note event]) = cycles
    rw [Access.total_append, same, Access.total_note, Nat.add_zero]

end Watched

namespace Machine

def watch (m : Machine β) : Machine (Watched β) := ⟨m.cpu, ⟨m.bus, []⟩⟩

def traffic (m : Machine β) : List Access := m.watch.step.2.bus.seen

def trafficOf : Nat → Machine β → List Access
  | 0, _ => []
  | n + 1, m =>
    m.traffic ++ match m.step with
      | (.ok _, next) => trafficOf n next
      | (.error _, _) => []

omit [Bus β] in
theorem related_watch (m : Machine β) : Related (fun w b => w.bus = b) m.watch m := ⟨rfl, rfl⟩

/-- Watching a step changes nothing about it. -/
theorem watch_step (m : Machine β) :
    m.watch.step = (m.step.1, ⟨m.step.2.cpu, ⟨m.step.2.bus, m.traffic⟩⟩) := by
  obtain ⟨same, cpu, bus⟩ := m.related_watch.step Watched.simulates
  rw [← same, ← cpu, ← bus]
  rfl

theorem step_of_watch {m : Machine β} {result : Except Fault Nat} {next : Machine (Watched β)}
    (whole : m.watch.step = (result, next)) :
    m.step = (result, ⟨next.cpu, next.bus.bus⟩) ∧ m.traffic = next.bus.seen := by
  rw [watch_step] at whole
  cases whole
  exact ⟨rfl, rfl⟩

theorem total_tick {cycles : Nat} {m next : Machine (Watched β)} (ticked : m.tick cycles = (.ok (), next)) :
    Access.total next.bus.seen = Access.total m.bus.seen + cycles := by
  generalize taken : Bus.tick cycles m.bus.bus = x
  obtain ⟨result, bus⟩ := x
  cases result with
  | ok =>
    have both := Watched.tick_ok taken
    simp only [Machine.tick, both] at ticked
    cases ticked
    simp only [Access.total_append, Access.total_batch]
  | error fault =>
    have both := Watched.tick_error taken
    simp only [Machine.tick, both] at ticked
    cases ticked

/-- A step hands exactly the cycles that it reports to its bus. -/
theorem total_traffic {m : Machine β} {cycles : Nat} (done : m.step.1 = .ok cycles) :
    Access.total m.traffic = cycles := by
  have counted : m.watch.step.1 = .ok cycles := by rw [watch_step]; exact done
  have outcome := m.watch.step_outcome
  simp only [traffic]
  generalize m.watch.step = x at counted outcome ⊢
  cases outcome with
  | failed | refused | refusedEntry => cases counted
  | unserved cpu batch service =>
    cases counted
    have start := stepCpu_keeps (Watched.keeps_total 0) (m := m.watch) rfl
    rw [cpu] at start
    have caught := total_tick batch
    have rest := serveInterrupt_keeps (Watched.keeps_total _) caught
    rw [service] at rest
    rw [rest, start, Nat.zero_add]
  | served cpu batch service entry =>
    cases counted
    have start := stepCpu_keeps (Watched.keeps_total 0) (m := m.watch) rfl
    rw [cpu] at start
    have caught := total_tick batch
    have entered := serveInterrupt_keeps (Watched.keeps_total _) caught
    rw [service] at entered
    rw [total_tick entry, entered, start, Nat.zero_add]

variable {m : Machine (Watched β)}

theorem noted_of_stepCpu_stopped (running : m.cpu.stopped = false)
    (stopped : m.stepCpu.2.cpu.stopped = true) :
    ∃ address, .note (.stops address) ∈ m.stepCpu.2.bus.seen := by
  have outcome := m.stepCpu_outcome
  generalize m.stepCpu = x at stopped outcome ⊢
  cases outcome with
  | stopped rests => exact absurd (running.symm.trans rests) (by decide)
  | halted =>
    have same : m.stepHalted.cpu.stopped = m.cpu.stopped := by
      simp only [stepHalted]
      split <;> rfl
    exact absurd (running.symm.trans (same.symm.trans stopped)) (by decide)
  | @performed opcode op rest _ _ fetched =>
    have same : rest.cpu = m.cpu := by
      have := m.cpu_fetch
      rwa [fetched] at this
    by_cases stops : op = .stop
    · subst stops
      exact ⟨_, List.mem_append_right _ (List.mem_singleton.mpr rfl)⟩
    · have kept := stopped_execute stops
        ((rest.note (.executes rest.cpu.registers.pc opcode op)).setPC
          (rest.cpu.registers.pc + UInt16.ofNat op.length))
      have after : rest.cpu.stopped = true := kept.symm.trans stopped
      rw [same, running] at after
      cases after
  | @unknown _ _ rest _ _ fetched =>
    have same := m.cpu_fetch
    rw [fetched] at same
    rw [cpu_note, show rest.cpu = m.cpu from same, running] at stopped
    cases stopped

theorem noted_of_stepCpu_error {fault : Fault} (failed : m.stepCpu.1 = .error fault) :
    ∃ opcode registers, .note (.unassigned opcode registers) ∈ m.stepCpu.2.bus.seen := by
  have outcome := m.stepCpu_outcome
  generalize m.stepCpu = x at failed outcome ⊢
  cases outcome with
  | stopped | halted | performed => cases failed
  | unknown => exact ⟨_, _, List.mem_append_right _ (List.mem_singleton.mpr rfl)⟩

theorem noted_of_step_stopped (running : m.cpu.stopped = false) (stopped : m.step.2.cpu.stopped = true) :
    ∃ address, .note (.stops address) ∈ m.step.2.bus.seen := by
  revert stopped
  apply holds_after_step (m := m)
    (Q := fun k => k.cpu.stopped = true → ∃ address, .note (.stops address) ∈ k.bus.seen)
  · intro cycles k noted stopped
    obtain ⟨address, listed⟩ := noted stopped
    exact ⟨address, Watched.mem_tick cycles listed⟩
  · intro k noted stopped
    obtain ⟨address, listed⟩ := noted (stopped_of_serveInterrupt stopped)
    exact ⟨address, serveInterrupt_keeps (Watched.keeps_mem _).toAccessInvariant listed⟩
  · exact noted_of_stepCpu_stopped running

theorem noted_of_step_error {fault : Fault} (failed : m.stepCpu.1 = .error fault) :
    ∃ opcode registers, .note (.unassigned opcode registers) ∈ m.step.2.bus.seen := by
  obtain ⟨opcode, registers, noted⟩ := noted_of_stepCpu_error failed
  refine ⟨opcode, registers, ?_⟩
  apply holds_after_step (m := m) (Q := fun k => .note (.unassigned opcode registers) ∈ k.bus.seen)
  · intro cycles k listed
    exact Watched.mem_tick cycles listed
  · intro k listed
    exact serveInterrupt_keeps (Watched.keeps_mem _).toAccessInvariant listed
  · exact noted

end Machine

namespace Machine

variable {m : Machine β}

theorem running_of_step (running : m.cpu.stopped = false)
    (goesOn : ∀ access ∈ m.traffic, access.halts = false) : m.step.2.cpu.stopped = false := by
  cases stops : m.step.2.cpu.stopped with
  | false => rfl
  | true =>
    have stopped : m.watch.step.2.cpu.stopped = true := by rw [watch_step]; exact stops
    obtain ⟨address, listed⟩ := noted_of_step_stopped (m := m.watch) running stopped
    cases goesOn _ listed

theorem stepCpu_of_goesOn (goesOn : ∀ access ∈ m.traffic, access.halts = false) :
    ∃ cycles, m.stepCpu.1 = .ok cycles := by
  cases result : m.stepCpu.1 with
  | ok cycles => exact ⟨cycles, rfl⟩
  | error fault =>
    have same := (m.related_watch.stepCpu Watched.simulates.toAnswers).value
    obtain ⟨opcode, registers, listed⟩ := noted_of_step_error (m := m.watch) (same.trans result)
    cases goesOn _ listed

end Machine
end DotMatrix
