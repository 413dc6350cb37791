import DotMatrix.Proofs.Board.Requests
import DotMatrix.Proofs.Console.Programs

/-!
The life of an interrupt request. A step adds the requests that its parts raise and takes back at most one:
that of the source it serves, which is the first of those that are requested and enabled.
-/

namespace DotMatrix

namespace Interrupt

structure FirstIn (source : Interrupt) (byte : UInt8) : Prop where
  named : Byte.has byte source.mask = true
  first : ∀ other : Interrupt, other.number < source.number → Byte.has byte other.mask = false

theorem mem_byPriority (source : Interrupt) : source ∈ byPriority := by
  cases source <;> decide

theorem pairwise_byPriority : byPriority.Pairwise (·.number < ·.number) := by decide

end Interrupt

namespace InterruptSet

theorem firstIn_of_first? {set : InterruptSet} {source : Interrupt} (found : set.first? = some source) :
    source.FirstIn set.bits := by
  obtain ⟨named, earlier, later, split, before⟩ := List.find?_eq_some_iff_append.mp found
  refine ⟨named, fun other smaller => ?_⟩
  have ordered := Interrupt.pairwise_byPriority
  have listed := other.mem_byPriority
  rw [split] at ordered listed
  rcases List.mem_append.mp listed with sooner | rest
  · exact Bool.not_eq_true' _ ▸ before other sooner
  · -- whatever stands behind the source has a greater number
    have behind := (List.pairwise_cons.mp (List.pairwise_append.mp ordered).2.1).1
    rcases List.mem_cons.mp rest with rfl | rest
    · exact absurd smaller (Nat.lt_irrefl _)
    · exact absurd smaller (Nat.lt_asymm (behind other rest))

theorem bits_of_first?_none {byte : UInt8} : (ofByte byte).first? = none → byte &&& 0x1F = 0 := by
  revert byte
  decide +kernel

end InterruptSet

namespace Board

variable {b : Board}

def pending (b : Board) : UInt8 := b.enables &&& b.requests &&& 0x1F

theorem pending_eq (b : Board) : (b.requests ||| 0xE0) &&& b.enables &&& 0x1F = b.pending := by
  calc
    (b.requests ||| 0xE0) &&& b.enables &&& 0x1F
    _ = (b.requests &&& b.enables) &&& 0x1F ||| (0xE0 &&& b.enables) &&& 0x1F := by rw [Byte.or_and, Byte.or_and]
    _ = (b.requests &&& b.enables) &&& 0x1F ||| b.enables &&& (0xE0 &&& 0x1F) := by
      rw [UInt8.and_comm 0xE0, UInt8.and_assoc b.enables]
    _ = (b.enables &&& b.requests) &&& 0x1F ||| b.enables &&& 0 := by rw [UInt8.and_comm b.requests]; rfl
    _ = b.pending := by rw [UInt8.and_zero, UInt8.or_zero]; rfl

/-- Writing back what was read, without a source, takes the request of the source back. -/
theorem write_withdrawn (bound : b.requests.toNat ≤ 0x1F) (source : Interrupt) :
    b.write 0xFF0F ((b.requests ||| 0xE0) &&& ~~~source.mask) = b.withdraw source := by
  have whole : b.requests &&& 0x1F = b.requests := by
    apply UInt8.toNat_inj.mp
    rw [UInt8.toNat_and]
    exact Nat.and_two_pow_sub_one_of_lt_two_pow (n := 5) (by omega)
  have kept : ((b.requests ||| 0xE0) &&& ~~~source.mask) &&& 0x1F = b.requests &&& ~~~source.mask := by
    calc
      ((b.requests ||| 0xE0) &&& ~~~source.mask) &&& 0x1F
      _ = (b.requests ||| 0xE0) &&& 0x1F &&& ~~~source.mask := by
        rw [UInt8.and_assoc, UInt8.and_comm (~~~source.mask), ← UInt8.and_assoc]
      _ = (b.requests &&& 0x1F ||| 0xE0 &&& 0x1F) &&& ~~~source.mask := by rw [Byte.or_and]
      _ = b.requests &&& ~~~source.mask := by rw [whole, show (0xE0 : UInt8) &&& 0x1F = 0 from rfl, UInt8.or_zero]
  rw [write_requests, kept]
  rfl

end Board

namespace Machine

variable {m : Machine Board}

theorem pendingInterrupts_eq (m : Machine Board) : m.pendingInterrupts = (⟨m.bus.pending⟩, m) := by
  have bits : m.pendingInterrupts = (⟨m.bus.read 0xFF0F &&& m.bus.read 0xFFFF &&& 0x1F⟩, m) := rfl
  rw [bits, Board.read_requests, Board.read_enables, Board.pending_eq]

def cpuTraffic (m : Machine Board) : List Access := m.watch.stepCpu.2.bus.seen

def pushes (m : Machine Board) : List Access :=
  [.write (m.cpu.registers.sp - 2) (Word.low m.cpu.registers.pc),
    .write (m.cpu.registers.sp - 2 + 1) (Word.high m.cpu.registers.pc)]

/-- The board as the entry of a routine leaves it: the request is taken back, and the return address is
handed to the board as a word at the new top of the stack. -/
def handed (source : Interrupt) (m : Machine Board) : Board :=
  (Bus.writeWord (m.cpu.registers.sp - 2) m.cpu.registers.pc (m.bus.withdraw source)).note
    (CpuEvent.dispatches source m.cpu.registers.pc (m.cpu.registers.sp - 2))

def entered (source : Interrupt) (cpu : Cpu) : Cpu where
  registers := { cpu.registers with pc := 0x0040 + 8 * UInt16.ofNat source.number, sp := cpu.registers.sp - 2 }
  ime := false
  halted := false
  stopped := false

theorem enterRoutine_eq (bound : m.bus.requests.toNat ≤ 0x1F) (source : Interrupt) :
    m.enterRoutine source = ⟨entered source m.cpu, handed source m⟩ := by
  have reads (address : UInt16) (b : Board) : Bus.read address b = (b.read address, b) := rfl
  have writes (address : UInt16) (byte : UInt8) (b : Board) : Bus.write address byte b = b.write address byte := rfl
  simp only [enterRoutine, read, write, push, setPC, setSP, mapRegisters, writeWord, note, entered, handed,
    Interrupt.vector, Interrupt.requestAddress, reads]
  rw [writes 0xFF0F, Board.read_requests, Board.write_withdrawn bound]
  rfl

inductive Service (m : Machine Board) : Option Interrupt × Machine Board → Prop where
  | enters {source : Interrupt} (served : m.cpu.ime = true) (asked : m.bus.pending ≠ 0)
      (first : source.FirstIn m.bus.pending) : Service m (some source, ⟨entered source m.cpu, handed source m⟩)
  | passes (idle : ¬(m.cpu.ime = true ∧ m.bus.pending ≠ 0)) : Service m (none, m)

theorem serveInterrupt_service (bound : m.bus.requests.toNat ≤ 0x1F) : m.Service m.serveInterrupt := by
  unfold serveInterrupt
  rw [pendingInterrupts_eq]
  split
  next served =>
    simp only
    split
    next none =>
      refine .passes fun both => both.2 ?_
      have empty : (m.bus.enables &&& m.bus.requests) &&& 0x1F = 0 := InterruptSet.bits_of_first?_none none
      exact empty
    next source found =>
      rw [enterRoutine_eq bound]
      have first := InterruptSet.firstIn_of_first? found
      refine .enters served (fun empty => ?_) first
      have named := first.named
      rw [show (⟨m.bus.pending⟩ : InterruptSet).bits = 0 from empty] at named
      cases source <;> cases named
  next ignored => exact .passes fun both => ignored both.1

variable {ready caught : Machine Board} {taken : Nat}

theorem requests_stepCpu (cpu : m.stepCpu = (.ok taken, ready)) (spares : Spares [0xFF0F] m.cpuTraffic) :
    ready.bus.requests = m.bus.requests ||| Access.raisedIn m.cpuTraffic := by
  have start : Board.Gathers m.bus.requests m.watch.bus := fun _ => UInt8.or_zero.symm
  have gathered := stepCpu_keeps (Board.gathers_invariant m.bus.requests) start spares
  have same := (m.related_watch.stepCpu Watched.simulates.toAnswers).rest.bus
  rw [cpu] at same
  rw [same] at gathered
  exact gathered

theorem bus_of_tick (ticked : ready.tick taken = (.ok (), caught)) :
    caught.cpu = ready.cpu ∧ ready.bus.tick taken = (.ok (), caught.bus) := by
  change ((ready.bus.tick taken).1, { ready with bus := (ready.bus.tick taken).2 }) = _ at ticked
  obtain ⟨done, rfl⟩ := Prod.mk.inj ticked
  exact ⟨rfl, Prod.ext done rfl⟩

theorem requests_caughtUp (sound : m.bus.Sound) (cpu : m.stepCpu = (.ok taken, ready))
    (batch : ready.tick taken = (.ok (), caught)) (spares : Spares [0xFF0F] m.cpuTraffic) :
    caught.bus.Sound ∧ caught.bus.requests =
      m.bus.requests ||| (Access.raisedIn m.cpuTraffic ||| ready.bus.raisedBy taken) := by
  have short := stepCpu_le (congrArg Prod.fst cpu)
  have kept := stepCpu_keeps Board.sound_invariant.toAccessInvariant sound
  obtain ⟨_, ticked⟩ := bus_of_tick batch
  rw [cpu] at kept
  have later := kept.tick short
  rw [ticked] at later
  rw [Board.requests_tick ticked, requests_stepCpu cpu spares, UInt8.or_assoc]
  exact ⟨later, rfl⟩

theorem tick_of_bus {after : Board} (ticked : m.bus.tick taken = (.ok (), after)) :
    m.tick taken = (.ok (), { m with bus := after }) := by
  change ((m.bus.tick taken).1, { m with bus := (m.bus.tick taken).2 }) = _
  rw [ticked]

theorem requests_handed (source : Interrupt) (spares : Spares [0xFF0F] m.pushes) :
    (m.handed source).requests = m.bus.requests &&& ~~~source.mask ||| Access.raisedIn m.pushes := by
  obtain ⟨low, high⟩ : m.cpu.registers.sp - 2 ≠ 0xFF0F ∧ m.cpu.registers.sp - 2 + 1 ≠ 0xFF0F := by
    simpa [Spares, Access.writesTo, pushes] using spares
  change (Board.write _ _ (Board.write _ _ (m.bus.withdraw source))).requests = _ ||| (0 ||| _ ||| _)
  rw [Board.requests_write high, Board.requests_write low, UInt8.zero_or, UInt8.or_assoc]
  rfl

/-- A step that serves a source takes the time of entering its routine. -/
theorem step_of_service {source : Interrupt} {inside rest : Machine Board} (cpu : m.stepCpu = (.ok taken, ready))
    (batch : ready.tick taken = (.ok (), caught)) (service : caught.serveInterrupt = (some source, inside))
    (entry : inside.tick Interrupt.dispatchCycles = (.ok (), rest)) : m.step = (.ok (taken + 20), rest) := by
  rw [step, cpu]
  simp only [batch]
  rw [dispatch, service]
  simp only [entry]
  rfl

theorem sound_handed (sound : m.bus.Sound) (source : Interrupt) : (m.handed source).Sound := by
  have withdrawn : (m.bus.withdraw source).Sound := by
    refine ⟨sound.lcd, sound.timer, ?_⟩
    have fewer : (m.bus.requests &&& ~~~source.mask).toNat ≤ m.bus.requests.toNat := by
      rw [UInt8.toNat_and]
      exact Nat.and_le_left
    exact Nat.le_trans fewer sound.requests
  exact ((withdrawn.write _ _).write _ _).note _

theorem handed_off (sound : m.bus.Sound) (off : m.bus.timer.enabled = false) (source : Interrupt)
    (low : m.cpu.registers.sp - 2 ≠ 0xFF07) (high : m.cpu.registers.sp - 2 + 1 ≠ 0xFF07) :
    (m.handed source).Sound ∧ (m.handed source).timer.enabled = false := by
  refine ⟨sound_handed sound source, ?_⟩
  change (Board.write _ _ (Board.write _ _ (m.bus.withdraw source))).timer.enabled = false
  rw [Board.enabled_timer_write high, Board.enabled_timer_write low]
  exact off

end Machine

namespace Console

/-- A step loses no request and serves none twice. -/
theorem requests_conserved {c next : Console} {cycles : Nat} (reachable : c.Reachable)
    (stepped : c.step = (.ok cycles, next)) (spares : Spares [0xFF0F] c.machine.cpuTraffic) :
    ∃ (taken : Nat) (ready caught : Machine Board), c.machine.stepCpu = (.ok taken, ready) ∧
      ready.tick taken = (.ok (), caught) ∧ caught.cpu = ready.cpu ∧
      caught.bus.requests =
        c.board.requests ||| (Access.raisedIn c.machine.cpuTraffic ||| ready.bus.raisedBy taken) ∧
      ((caught.cpu.ime = true ∧ caught.bus.pending ≠ 0 ∧ cycles = taken + 20 ∧
          ∃ source : Interrupt, source.FirstIn caught.bus.pending ∧
            next.machine.cpu = Machine.entered source caught.cpu ∧
            (caught.handed source).tick 20 = (.ok (), next.board) ∧
            (Spares [0xFF0F] caught.pushes →
              next.board.requests = caught.bus.requests &&& ~~~source.mask |||
                (Access.raisedIn caught.pushes ||| (caught.handed source).raisedBy 20))) ∨
        (¬(caught.cpu.ime = true ∧ caught.bus.pending ≠ 0) ∧ cycles = taken ∧ next.machine = caught)) := by
  have outcome := c.machine.step_outcome
  rw [machine_of_step stepped] at outcome
  cases outcome with
  | @unserved _ ready caught _ cpu batch service =>
    obtain ⟨same, _⟩ := Machine.bus_of_tick batch
    obtain ⟨sound, gathered⟩ := Machine.requests_caughtUp reachable.sound cpu batch spares
    have went := Machine.serveInterrupt_service sound.requests
    rw [service] at went
    cases went with
    | passes idle => exact ⟨cycles, ready, _, cpu, batch, same, gathered, .inr ⟨idle, rfl, rfl⟩⟩
  | @served taken source ready caught _ _ cpu batch service entry =>
    obtain ⟨same, _⟩ := Machine.bus_of_tick batch
    obtain ⟨sound, gathered⟩ := Machine.requests_caughtUp reachable.sound cpu batch spares
    have went := Machine.serveInterrupt_service sound.requests
    rw [service] at went
    cases went with
    | enters served asked first =>
      obtain ⟨processor, ticked⟩ := Machine.bus_of_tick entry
      refine ⟨taken, ready, caught, cpu, batch, same, gathered, .inl ⟨served, asked, rfl, source, first,
        processor, ticked, fun spares => ?_⟩⟩
      rw [← UInt8.or_assoc, ← Machine.requests_handed source spares]
      exact Board.requests_tick ticked

end Console

namespace Program

/-- The program enables the vertical blank, which is requested from the start, and then lets interrupts in. -/
def welcoming : List UInt8 := [
  0xE0, 0xFF,  -- LDH (FF),A
  0xFB]        -- EI

theorem stored_enables (m : Machine Board) :
    ∃ journal, stored 0xFF m = { m.bus with enables := m.cpu.registers.a, journal } :=
  stored_eq (show Region.ofAddress (0xFF00 ||| (0xFF : UInt8).toUInt16) = .enables by decide +kernel) m

structure Welcomes (c : Console) : Prop where
  runs : Runs welcoming 0x0102 c.machine
  off : c.board.timer.enabled = false
  enabled : c.board.enables = 0x01
  requested : c.board.requests &&& 0x01 = 0x01
  sp : c.machine.cpu.registers.sp = 0xFFFE

theorem welcomes_of_booted {c : Console} (runs : Runs welcoming 0x0100 c.machine) (cpu : c.machine.cpu = Cpu.postBoot)
    (timer : c.board.timer = Timer.postBoot) (requests : c.board.requests = 0x01) : Welcomes c.step.2 := by
  have off : c.board.timer.enabled = false := by
    rw [timer]
    decide
  obtain ⟨journal, board⟩ := stored_enables c.machine
  obtain ⟨outcome, same, _⟩ := runs.storePage
    (show Has welcoming (0x0100 : UInt16).toNat [0xE0, 0xFF] by decide) (by rw [board]) (by rw [board]; exact runs.on)
  rw [board] at same
  obtain ⟨next, passed⟩ := outcome.passed_of_off (by rw [same]; exact off)
  have ticked := passed.ticked
  have enables := Board.enables_tick 12 { c.machine.bus with enables := c.machine.cpu.registers.a, journal }
  rw [same] at ticked
  rw [ticked] at enables
  have gathered := Board.requests_tick ticked
  rw [Console.step_of_machine passed.done]
  refine ⟨passed.runs, passed.off, ?_, ?_, ?_⟩
  · change next.bus.enables = 0x01
    rw [enables, cpu]
    rfl
  · change next.bus.requests &&& 0x01 = 0x01
    rw [gathered, show c.machine.bus.requests = 0x01 from requests, Byte.or_and]
    exact Byte.or_and_self _ 0x01
  · change next.cpu.registers.sp = 0xFFFE
    rw [passed.cpu]
    change c.machine.cpu.registers.sp = 0xFFFE
    rw [cpu]
    rfl

theorem exists_welcomes : ∃ c : Console, c.Reachable ∧ Welcomes c := by
  obtain ⟨runs, timer, _, requests⟩ :=
    runs_loaded (parse_image (show welcoming.length ≤ 0x43 by decide)) rfl {}
  exact ⟨_, (reachable_loaded (image welcoming) {}).step,
    welcomes_of_booted runs (cpu_loaded _ _) timer requests⟩

theorem Welcomes.step {c : Console} (h : Welcomes c) :
    c.machine.stepCpu.1 = .ok 4 ∧ (∃ next, c.step = (.ok 24, next)) ∧
      Spares [0xFF0F] c.machine.cpuTraffic := by
  have found : Opcode.decode c.machine.nextOpcode = .instruction .ei :=
    h.runs.toAt.decode (show Has welcoming (0x0102 : UInt16).toNat [0xFB] by decide) rfl
  have cpu := stepCpu_performed h.runs.running h.runs.awake found rfl
  refine ⟨congrArg Prod.fst cpu, ?_, ?_⟩
  · have sound : (performed .ei c.machine).bus.Sound := h.runs.sound.note _
    obtain ⟨after, ticked, kept, off⟩ := sound.tick_of_off h.off (show 4 ≤ longestBatch by decide)
    have enables := Board.enables_tick 4 (performed .ei c.machine).bus
    have requests := Board.requests_tick ticked
    rw [ticked] at enables
    have requested : after.requests &&& 0x01 = 0x01 := by
      rw [requests, Byte.or_and, show (performed .ei c.machine).bus.requests &&& 0x01 = 0x01 from h.requested]
      exact Byte.or_and_self _ 0x01
    have pending : after.pending = 0x01 := by
      rw [Board.pending, show after.enables = 0x01 from enables.trans h.enabled, UInt8.and_comm 0x01, requested]
      rfl
    have batch := Machine.tick_of_bus ticked
    have service := Machine.serveInterrupt_service
      (m := { performed .ei c.machine with bus := after }) kept.requests
    generalize served : Machine.serveInterrupt { performed .ei c.machine with bus := after } = x at service
    cases service with
    | passes idle => exact absurd ⟨rfl, by rw [pending]; decide⟩ idle
    | @enters source =>
      have sp : (performed .ei c.machine).cpu.registers.sp = 0xFFFE := h.sp
      obtain ⟨sound, off⟩ := Machine.handed_off (m := { performed .ei c.machine with bus := after }) kept off
        source (by rw [sp]; decide) (by rw [sp]; decide)
      obtain ⟨last, entry, _⟩ := sound.tick_of_off off (show Interrupt.dispatchCycles ≤ longestBatch by decide)
      have whole := Machine.step_of_service cpu batch served (Machine.tick_of_bus entry)
      exact ⟨_, Console.step_of_machine whole⟩
  · have traffic : c.machine.cpuTraffic = [.note (.executes c.machine.cpu.registers.pc c.machine.nextOpcode .ei)] := by
      rw [Machine.cpuTraffic, stepCpu_of_decode h.runs.running h.runs.awake found]
      rfl
    rw [traffic]
    simp [Spares, Access.writesTo]

end Program

namespace Console

/-- The instruction that lets interrupts in is followed by the service of the vertical blank. -/
theorem requests_conserved_on_entry : ∃ (c next : Console) (caught : Machine Board) (source : Interrupt),
    c.Reachable ∧ c.step = (.ok 24, next) ∧ Spares [0xFF0F] c.machine.cpuTraffic ∧
    source.FirstIn caught.bus.pending ∧ next.machine.cpu = Machine.entered source caught.cpu ∧
    (Spares [0xFF0F] caught.pushes →
      next.board.requests = caught.bus.requests &&& ~~~source.mask |||
        (Access.raisedIn caught.pushes ||| (caught.handed source).raisedBy 20)) := by
  obtain ⟨c, reachable, welcomes⟩ := Program.exists_welcomes
  obtain ⟨short, ⟨next, stepped⟩, spares⟩ := welcomes.step
  obtain ⟨taken, ready, caught, start, _, _, _, ⟨_, _, _, source, first, cpu, _, requests⟩ | ⟨_, long, _⟩⟩ :=
    requests_conserved reachable stepped spares
  · exact ⟨c, next, caught, source, reachable, stepped, spares, first, cpu, requests⟩
  · rw [start, ← long] at short
    cases short

end Console
end DotMatrix
