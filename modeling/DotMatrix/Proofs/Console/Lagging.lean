import DotMatrix.Proofs.Console.Programs

/-!
A program that the timer cannot keep up with. It makes the counter wrap with every count and then loops
in steps of more cycles than one count takes, so the counter falls further and further behind.
-/

namespace DotMatrix

namespace Lagging

/-- The loop takes 36 cycles in two batches, of which the counter counts 32. -/
def program : List UInt8 := [
  0x3E, 0xFF,        -- LD A,FF
  0xE0, 0x06,        -- LDH (06),A
  0xE0, 0x05,        -- LDH (05),A
  0x3E, 0x05,        -- LD A,05
  0xE0, 0x07,        -- LDH (07),A
  0x08, 0x00, 0xC0,  -- LD (C000),SP
  0xC3, 0x0A, 0x01]  -- JP 010A

def image : ByteArray := Program.image program

theorem parse_image : Header.parse image = .ok (Program.header program) := Program.parse_image (by decide)

abbrev Runs (pc : UInt16) (m : Machine Board) : Prop := Program.Runs program pc m

open Program (Has Outcome performed accesses operandWord stored storedSP quiet_of_accesses)

variable {pc : UInt16} {m : Machine Board} {cycles : Nat}

theorem Runs.loadA (h : Runs pc m) {byte : UInt8} (has : Has program pc.toNat [0x3E, byte])
    (keepsUp : ¬m.bus.timer.Behind) :
    ∃ next, m.step = (.ok 8, next) ∧ Runs (pc + 2) next ∧ next.cpu.registers.a = byte ∧
      next.bus.timer = m.bus.timer.advance 8 := by
  obtain ⟨leads, a⟩ := h.toAt.loadA has
  cases (h.outcome 8 (by decide) (by decide) leads h.free).1 with
  | passed done runs cpu timer =>
    refine ⟨_, done, runs, ?_, timer⟩
    rw [cpu, a]
  | refused _ behind => exact absurd behind keepsUp

theorem Runs.storeA (h : Runs pc m) {offset : UInt8} (has : Has program pc.toNat [0xE0, offset]) (f : Timer → Timer)
    (stores : ∀ b : Board,
      b.write (0xFF00 ||| offset.toUInt16) m.cpu.registers.a = { b with timer := f b.timer })
    (keepsUp : ¬(f m.bus.timer).Behind) :
    ∃ next, m.step = (.ok 12, next) ∧ Runs (pc + 2) next ∧ next.cpu.registers.a = m.cpu.registers.a ∧
      next.bus.timer = (f m.bus.timer).advance 12 := by
  have bus : stored offset m =
      { m.bus.note (CpuEvent.executes m.cpu.registers.pc m.nextOpcode (.storeA .page)) with
        timer := f m.bus.timer } := stores _
  have kept : (stored offset m).cartridge = m.bus.cartridge := by
    rw [bus]
    rfl
  have on : (stored offset m).lcd.pace.enabled = true := by
    rw [bus]
    exact h.on
  obtain ⟨outcome, same, a⟩ := h.storePage has kept on
  have timer : (performed (.storeA .page) m).bus.timer = f m.bus.timer := by rw [same, bus]
  cases outcome with
  | passed done runs cpu counted =>
    refine ⟨_, done, runs, (congrArg (fun cpu => cpu.registers.a) cpu).trans a, counted.trans ?_⟩
    rw [timer]
    rfl
  | refused _ behind => exact absurd (timer ▸ behind) keepsUp

/-- What the loop does to the board leaves the timer, the LCD and the cartridge alone. -/
theorem Runs.storeSP (h : Runs 0x010A m) :
    Outcome program .storeSP 0x010D 20 m ∧ (performed .storeSP m).bus.timer = m.bus.timer ∧
      Quiet [0xFF40, 0xFF44] m.traffic := by
  have has : Has program (0x010A : UInt16).toNat [0x08, 0x00, 0xC0] := by decide
  obtain ⟨leads, bus⟩ := h.toAt.storeSP has rfl h.on
  have timer : (performed .storeSP m).bus.timer = m.bus.timer := by
    rw [bus]
    rfl
  obtain ⟨outcome, traffic⟩ := h.outcome 20 (by decide) (by decide) leads h.free
  have word : operandWord m = 0xC000 := h.toAt.operandWord has
  have made : accesses .storeSP m = [.note (.executes m.cpu.registers.pc m.nextOpcode .storeSP),
      .write 0xC000 (Word.low m.cpu.registers.sp), .write 0xC001 (Word.high m.cpu.registers.sp)] := by
    change [Access.note _, Access.write (operandWord m) _,
      Access.write (operandWord m + 1) _] = _
    rw [word]
    rfl
  refine ⟨outcome, timer, quiet_of_accesses traffic ?_⟩
  rw [made]
  constructor <;> simp [Spares, Access.writesTo, Access.halts]

theorem Runs.jump (h : Runs 0x010D m) :
    Outcome program (.jp none) 0x010A 16 m ∧ Quiet [0xFF40, 0xFF44] m.traffic := by
  have has : Has program (0x010D : UInt16).toNat [0xC3, 0x0A, 0x01] := by decide
  have made : accesses (.jp none) m = [.note (.executes m.cpu.registers.pc m.nextOpcode (.jp none))] := rfl
  obtain ⟨outcome, traffic⟩ := h.outcome 16 (by decide) (by decide) (h.toAt.jump has) h.free
  refine ⟨outcome, quiet_of_accesses traffic ?_⟩
  rw [made]
  constructor <;> simp [Spares, Access.writesTo, Access.halts]

structure Spins (c : Console) : Prop where
  inLoop : Runs 0x010A c.machine ∨ Runs 0x010D c.machine
  lags : c.board.timer.Lags

/-- The cycles of a turn of the loop that are lost ahead of an address. -/
def ahead (pc : UInt16) : Int := if pc = 0x010A then 0 else 2

def lead (c : Console) : Int := c.board.timer.counterCountdown + ahead c.machine.cpu.registers.pc

structure Turned (c next : Console) (cycles : Nat) : Prop where
  spins : Spins next
  loses : lead next + 2 ≤ lead c
  keeps : c.board.timer.counterCountdown ≤ next.board.timer.counterCountdown + cycles
  room : -2 ^ 31 ≤ next.board.timer.counterCountdown

inductive Turn (c : Console) : Prop where
  | passed {cycles : Nat} {next : Console} (done : c.step = (.ok cycles, next)) (turned : Turned c next cycles)
  | refused {rest : Console} (failed : c.step = (.error .countdownOverflow, rest))
      (behind : c.board.timer.Behind)

theorem Spins.passed {c : Console} {next : Machine Board} (h : Spins c)
    (done : c.machine.step = (.ok cycles, next)) (inLoop : Runs 0x010A next ∨ Runs 0x010D next)
    (timer : next.bus.timer = c.board.timer.advance cycles)
    (room : -2 ^ 31 ≤ c.board.timer.counterCountdown - cycles)
    (cost : ahead next.cpu.registers.pc + 18 ≤ ahead c.machine.cpu.registers.pc + cycles) : Turn c := by
  obtain ⟨lags, keeps, loses⟩ := @Timer.Lags.advance _ cycles h.lags
  rw [← timer] at lags keeps loses
  refine .passed (Console.step_of_machine done) ⟨⟨inLoop, lags⟩, ?_, ?_, ?_⟩
  · change next.bus.timer.counterCountdown + ahead next.cpu.registers.pc + 2 ≤
      c.board.timer.counterCountdown + ahead c.machine.cpu.registers.pc
    omega
  · change _ ≤ next.bus.timer.counterCountdown + cycles
    omega
  · change _ ≤ next.bus.timer.counterCountdown
    omega

theorem Spins.turn {c : Console} (h : Spins c) : Turn c ∧ Quiet [0xFF40, 0xFF44] c.machine.traffic := by
  have on : c.machine.bus.timer.enabled = true := by
    rw [Timer.enabled, show c.machine.bus.timer.control = 5 from h.lags.control]
    rfl
  rcases h.inLoop with first | second
  · obtain ⟨outcome, same, quiet⟩ := first.storeSP
    refine ⟨?_, quiet⟩
    cases outcome with
    | passed done runs cpu timer _ room =>
      rw [same] at timer room
      apply h.passed done (.inr runs) timer (room on)
      rw [runs.at_pc, first.at_pc]
      decide
    | refused failed behind => exact .refused (Console.step_of_machine failed) (same ▸ behind)
  · obtain ⟨outcome, quiet⟩ := second.jump
    refine ⟨?_, quiet⟩
    cases outcome with
    | passed done runs cpu timer _ room =>
      apply h.passed done (.inl runs) timer (room on)
      rw [runs.at_pc, second.at_pc]
      decide
    | refused failed behind => exact .refused (Console.step_of_machine failed) behind

theorem Spins.turned {c next : Console} (h : Spins c) (stepped : c.step = (.ok cycles, next)) :
    Turned c next cycles := by
  cases h.turn.1 with
  | passed done turned =>
    cases done.symm.trans stepped
    exact turned
  | refused failed => cases failed.symm.trans stepped

theorem Spins.behind {c rest : Console} {fault : Fault} (h : Spins c) (stepped : c.step = (.error fault, rest)) :
    c.board.timer.Behind := by
  cases h.turn.1 with
  | passed done => cases done.symm.trans stepped
  | refused _ behind => exact behind

theorem Spins.sound {c : Console} (h : Spins c) : c.board.Sound := h.inLoop.elim Program.Runs.sound Program.Runs.sound

theorem Spins.clearFrame {c : Console} (h : Spins c) : Spins c.clearFrame :=
  ⟨h.inLoop.imp Program.Runs.clearFrame Program.Runs.clearFrame, h.lags⟩

end Lagging

namespace Console

open Lagging

variable {c last : Console} {elapsed total : Nat}

theorem quiet_nil {addresses : List UInt16} : Quiet addresses [] := by
  constructor
  · intro access listed
    cases listed
  · intro access listed
    cases listed

theorem quiet_continueTraffic (h : Spins c) : Quiet [0xFF40, 0xFF44] (c.continueTraffic elapsed) := by
  fun_induction continueFrame elapsed c with
  | case1 elapsed c fault next stepped =>
    rw [continueTraffic_error stepped]
    exact h.turn.2
  | case2 elapsed c cycles next stepped within ends =>
    rw [continueTraffic_ok stepped, if_pos within, if_pos ends]
    exact quiet_append.mpr ⟨h.turn.2, quiet_nil⟩
  | case3 elapsed c cycles next stepped within goesOn ih =>
    rw [continueTraffic_ok stepped, if_pos within, if_neg goesOn]
    exact quiet_append.mpr ⟨h.turn.2, ih (h.turned stepped).spins⟩
  | case4 elapsed c cycles next stepped beyond =>
    rw [continueTraffic_ok stepped, if_neg beyond]
    exact quiet_append.mpr ⟨h.turn.2, quiet_nil⟩

theorem spins_continueFrame (h : Spins c) (ran : c.continueFrame elapsed = (.ok total, last)) :
    Spins last ∧ lead last + 2 ≤ lead c ∧ -2 ^ 31 ≤ last.board.timer.counterCountdown ∧
      c.board.timer.counterCountdown + elapsed ≤ last.board.timer.counterCountdown + total := by
  fun_induction continueFrame elapsed c with
  | case1 | case4 => cases ran
  | case2 elapsed c cycles next stepped within ends =>
    cases ran
    obtain ⟨spins, loses, keeps, room⟩ := h.turned stepped
    have same : next.clearFrame.board.timer.counterCountdown = next.board.timer.counterCountdown := rfl
    exact ⟨spins.clearFrame, loses, room, by omega⟩
  | case3 elapsed c cycles next stepped within goesOn ih =>
    obtain ⟨spins, loses, keeps, _⟩ := h.turned stepped
    obtain ⟨spins, later, room, kept⟩ := ih spins ran
    exact ⟨spins, by omega, room, by omega⟩

/-- A frame that begins with the counter far enough ahead does not fall behind. -/
theorem not_fallsBehind {start : Int} (h : Spins c) (awaits : c.Awaits start elapsed)
    (early : start ≤ frameCycles)
    (far : 2 * frameCycles - 2 ^ 31 ≤ c.board.timer.counterCountdown + elapsed) :
    ¬FallsBehind (c.continueFrame elapsed) := by
  fun_induction continueFrame elapsed c with
  | case1 elapsed c fault next stepped =>
    have late := (h.behind stepped).2
    have soon := awaits.ahead
    have waits := (Pace.untilBlank_bounds awaits.sound.lcd).1
    simp only [frameCycles, Lcd.lineCycles, longestBatch] at *
    omega
  | case2 | case4 =>
    rintro ⟨failed, _⟩
    cases failed
  | case3 elapsed c cycles next stepped within goesOn ih =>
    obtain ⟨spins, _, keeps, _⟩ := h.turned stepped
    rcases awaits.step stepped h.turn.2 with ahead | ⟨ends, _⟩
    · exact ih spins ahead (by omega)
    · exact absurd ends goesOn

theorem fallsBehind_of_one (behind : FallsBehind (c.runFrames 1)) : FallsBehind c.runFrame := by
  simp only [runFrames] at behind
  generalize c.runFrame = x at behind ⊢
  obtain ⟨result, next⟩ := x
  cases result with
  | error fault =>
    obtain ⟨failed, late⟩ := behind
    cases failed
    exact ⟨rfl, late⟩
  | ok cycles => cases behind.1

/-- Every frame costs some of the lead. -/
theorem lead_runFrames (n : Nat) {counts : List Nat} (h : Spins c)
    (room : -2 ^ 31 ≤ c.board.timer.counterCountdown) (ran : c.runFrames n = (.ok counts, last)) :
    lead last + 2 * n ≤ lead c ∧ -2 ^ 31 ≤ last.board.timer.counterCountdown := by
  induction n generalizing c counts with
  | zero =>
    cases ran
    exact ⟨by omega, room⟩
  | succ n ih =>
    simp only [runFrames] at ran
    generalize frame : c.runFrame = x at ran
    obtain ⟨result, next⟩ := x
    cases result with
    | error fault => cases ran
    | ok cycles =>
      obtain ⟨spins, loses, room, _⟩ := spins_continueFrame h.clearFrame frame
      simp only at ran
      generalize rest : runFrames n next = y at ran
      obtain ⟨result, final⟩ := y
      cases result with
      | error fault => cases ran
      | ok counts =>
        cases ran
        obtain ⟨later, room⟩ := ih spins room rest
        have start : lead c.clearFrame = lead c := rfl
        exact ⟨by omega, room⟩

theorem quiet_framesTraffic (n : Nat) (h : Spins c) : Quiet [0xFF40, 0xFF44] (c.framesTraffic n) := by
  induction n generalizing c with
  | zero => exact quiet_nil
  | succ n ih =>
    rw [framesTraffic]
    refine quiet_append.mpr ⟨quiet_continueTraffic h.clearFrame, ?_⟩
    generalize frame : c.runFrame = x
    obtain ⟨result, next⟩ := x
    cases result with
    | error fault => exact quiet_nil
    | ok cycles => exact ih (spins_continueFrame h.clearFrame frame).1

/-- The lead is lost within so many frames as the countdown has places. -/
theorem fallsBehind_of_spins (h : Spins c) (blank : c.AtBlank)
    (room : -2 ^ 31 ≤ c.board.timer.counterCountdown) : FallsBehind (c.runFrames (2 ^ 31)) := by
  rcases blank.paced (2 ^ 31) (quiet_framesTraffic _ h) with behind | ⟨counts, last, ran, _⟩
  · exact behind
  · obtain ⟨loses, room⟩ := lead_runFrames (2 ^ 31) h room ran
    have far := blank.sound.timer.counter_le
    have most (pc : UInt16) : 0 ≤ ahead pc ∧ ahead pc ≤ 2 := by
      unfold ahead
      split <;> omega
    have first := most c.machine.cpu.registers.pc
    have final := most last.machine.cpu.registers.pc
    simp only [lead, Timer.longestPeriod] at loses far
    omega

theorem clearFrame_awaits {start : Console} (spins : Spins start) :
    start.clearFrame.Awaits start.board.lcd.pace.untilBlank 0 := by
  have on : start.board.lcd.pace.enabled = true := spins.inLoop.elim Program.Runs.on Program.Runs.on
  have running : start.machine.cpu.stopped = false := spins.inLoop.elim Program.Runs.running Program.Runs.running
  exact ⟨spins.sound.clearFrame, on, rfl, running, Int.add_zero _⟩

theorem not_fallsBehind_runFrame {start : Console} (spins : Spins start)
    (far : 2 * frameCycles - 2 ^ 31 ≤ start.board.timer.counterCountdown) : ¬FallsBehind start.runFrame := by
  have room : 2 * frameCycles - 2 ^ 31 ≤ start.clearFrame.board.timer.counterCountdown + (0 : Nat) := by
    rw [Int.natCast_zero, Int.add_zero]
    exact far
  exact not_fallsBehind spins.clearFrame (clearFrame_awaits spins) (Pace.untilBlank_bounds spins.sound.lcd).2
    room

theorem runFrame_of_spins {start : Console} (spins : Spins start)
    (far : 4 * frameCycles - 2 ^ 31 ≤ start.board.timer.counterCountdown) :
    ∃ total c, start.runFrame = (.ok total, c) ∧ c.AtBlank ∧ Spins c ∧
      2 * frameCycles - 2 ^ 31 ≤ c.board.timer.counterCountdown := by
  have soon := (Pace.untilBlank_bounds spins.sound.lcd).2
  rcases continueFrame_reaches soon (clearFrame_awaits spins) (quiet_continueTraffic spins.clearFrame) with
    behind | ⟨total, c, ran, blank, took⟩
  · exact absurd behind (not_fallsBehind_runFrame spins (by simp only [frameCycles] at *; omega))
  · obtain ⟨spins, _, _, keeps⟩ := spins_continueFrame spins.clearFrame ran
    have late := blank.offset_le
    have same : start.clearFrame.board.timer.counterCountdown = start.board.timer.counterCountdown := rfl
    refine ⟨total, c, ran, blank, spins, ?_⟩
    simp only [frameCycles, Lcd.lineCycles] at *
    omega

end Console

namespace Lagging

theorem runs_load {bytes : ByteArray} (parsed : Header.parse bytes = .ok (Program.header program))
    (holds : Cartridge.build (Program.header program) bytes none = Program.cartridge program) (journal : Journal) :
    Runs 0x0100 ((Console.postBoot journal).load bytes none).2.machine ∧
      ((Console.postBoot journal).load bytes none).2.machine.bus.timer = Timer.postBoot := by
  obtain ⟨runs, timer, _⟩ := Program.runs_loaded parsed holds journal
  exact ⟨runs, timer⟩

theorem write_timer {offset value : UInt8} {register : IoRegister} (b : Board)
    (place : Region.ofAddress (0xFF00 ||| offset.toUInt16) = .register register) :
    b.write (0xFF00 ||| offset.toUInt16) value = b.writeRegister register value := by
  rw [Board.write, place]
  rfl

theorem spins_of_runs (h : Runs 0x0100 m) (fresh : m.bus.timer = Timer.postBoot) :
    ∃ m₁ m₂ m₃ m₄ m₅, m.step = (.ok 8, m₁) ∧ m₁.step = (.ok 12, m₂) ∧ m₂.step = (.ok 12, m₃) ∧
      m₃.step = (.ok 8, m₄) ∧ m₄.step = (.ok 12, m₅) ∧ Runs 0x010A m₅ ∧ m₅.bus.timer.Lags ∧
      m₅.bus.timer.counterCountdown = 4 := by
  obtain ⟨m₁, step₁, runs₁, a₁, timer₁⟩ := h.loadA
    (show Program.Has program (0x0100 : UInt16).toNat [0x3E, 0xFF] by decide) (by rw [fresh]; decide)
  rw [fresh] at timer₁
  have modulo : Region.ofAddress (0xFF00 ||| (0x06 : UInt8).toUInt16) = .register .modulo := by
    decide +kernel
  obtain ⟨m₂, step₂, runs₂, a₂, timer₂⟩ := runs₁.storeA
    (show Program.Has program (0x0102 : UInt16).toNat [0xE0, 0x06] by decide)
    (fun t => { t with modulo := 0xFF }) (fun b => by rw [a₁, write_timer b modulo]; rfl)
    (by rw [timer₁]; decide)
  rw [a₁] at a₂
  rw [timer₁] at timer₂
  have counter : Region.ofAddress (0xFF00 ||| (0x05 : UInt8).toUInt16) = .register .counter := by
    decide +kernel
  obtain ⟨m₃, step₃, runs₃, _, timer₃⟩ := runs₂.storeA
    (show Program.Has program (0x0104 : UInt16).toNat [0xE0, 0x05] by decide)
    (fun t => { t with counter := 0xFF }) (fun b => by rw [a₂, write_timer b counter]; rfl)
    (by rw [timer₂]; decide)
  rw [timer₂] at timer₃
  obtain ⟨m₄, step₄, runs₄, a₄, timer₄⟩ := runs₃.loadA
    (show Program.Has program (0x0106 : UInt16).toNat [0x3E, 0x05] by decide) (by rw [timer₃]; decide)
  rw [timer₃] at timer₄
  have control : Region.ofAddress (0xFF00 ||| (0x07 : UInt8).toUInt16) = .register .timerControl := by
    decide +kernel
  obtain ⟨m₅, step₅, runs₅, _, timer₅⟩ := runs₄.storeA
    (show Program.Has program (0x0108 : UInt16).toNat [0xE0, 0x07] by decide)
    (Timer.writeControl 0x05) (fun b => by rw [a₄, write_timer b control]; rfl)
    (by rw [timer₄]; decide)
  rw [timer₄] at timer₅
  refine ⟨m₁, m₂, m₃, m₄, m₅, step₁, step₂, step₃, step₄, step₅, runs₅, ?_, ?_⟩
  · rw [timer₅]
    exact ⟨by decide, by decide, fun _ => by decide⟩
  · rw [timer₅]
    decide

def entered (bytes : ByteArray) : Console :=
  ((Console.postBoot {}).load bytes none).2.afterAll (List.replicate 5 .step)

theorem machine_step (c : Console) : c.step.2.machine = c.machine.step.2 := rfl

theorem reachable_entered (bytes : ByteArray) : (entered bytes).Reachable :=
  (Program.reachable_loaded bytes {}).afterAll _

theorem runs_entered {bytes : ByteArray} (parsed : Header.parse bytes = .ok (Program.header program))
    (holds : Cartridge.build (Program.header program) bytes none = Program.cartridge program) :
    Runs 0x010A (entered bytes).machine ∧ (entered bytes).board.timer.Lags ∧
      (entered bytes).board.timer.counterCountdown = 4 := by
  obtain ⟨runs, fresh⟩ := runs_load parsed holds {}
  obtain ⟨m₁, m₂, m₃, m₄, m₅, step₁, step₂, step₃, step₄, step₅, runs, lags, four⟩ := spins_of_runs runs fresh
  have machine : (entered bytes).machine = m₅ := by
    simp only [entered, Console.afterAll, List.replicate, List.foldl_cons, List.foldl_nil, Console.after,
      machine_step, step₁, step₂, step₃, step₄, step₅]
  have board : (entered bytes).board = m₅.bus := congrArg Machine.bus machine
  rw [machine, board]
  exact ⟨runs, lags, four⟩

theorem spins_entered {bytes : ByteArray} (parsed : Header.parse bytes = .ok (Program.header program))
    (holds : Cartridge.build (Program.header program) bytes none = Program.cartridge program) :
    Spins (entered bytes) ∧ (entered bytes).board.timer.counterCountdown = 4 := by
  obtain ⟨runs, lags, four⟩ := runs_entered parsed holds
  exact ⟨⟨.inl runs, lags⟩, four⟩

end Lagging

namespace Console

theorem entered_frame : ∃ total c, (Lagging.entered Lagging.image).Reachable ∧
    (Lagging.entered Lagging.image).runFrame = (.ok total, c) ∧ c.AtBlank ∧ Lagging.Spins c ∧
    2 * frameCycles - 2 ^ 31 ≤ c.board.timer.counterCountdown := by
  have reachable := Lagging.reachable_entered Lagging.image
  obtain ⟨spins, four⟩ := Lagging.spins_entered Lagging.parse_image rfl
  obtain ⟨total, c, frame⟩ := runFrame_of_spins spins (by
    rw [four]
    decide)
  exact ⟨total, c, reachable, frame⟩

end Console
end DotMatrix
