import DotMatrix.Proofs.Console.Faults
import DotMatrix.Proofs.Console.Interrupts
import DotMatrix.Proofs.Timer.Backlog

/-!
The room that the counter keeps. A batch that it can count leaves it within sixteen cycles of the end of its range at
worst, so short batches always go through, and so does the entry of a routine behind a batch that it has counted. Only
a counter that is switched on by the entry itself can be too far behind.
-/

namespace DotMatrix

namespace Timer

variable {t : Timer} {cycles : Nat}

def Overdrawn (cycles : Nat) (t : Timer) : Prop := t.enabled = true ∧ t.counterCountdown < (cycles : Int) - 2 ^ 31

theorem Sound.admits_iff_not_overdrawn (h : t.Sound) (short : cycles ≤ longestBatch) :
    t.admits cycles = true ↔ ¬t.Overdrawn cycles := by
  cases on : t.enabled with
  | false =>
    simp only [longestBatch] at short
    rw [admits, h.divider_admits (by omega), Overdrawn, on]
    simp only [Bool.not_false, Bool.true_or, Bool.and_self, Bool.false_eq_true, false_and, not_false_eq_true]
  | true =>
    rw [h.admits_iff on short, Overdrawn, on]
    simp only [true_and]
    omega

theorem sixteen_le_period (control : UInt8) : 16 ≤ period control := by
  unfold period
  split <;> decide

theorem countdown_of_enabled (on : t.enabled = true) (cycles : Int) :
    min 1 (t.counterCountdown - cycles + 16) ≤ (t.advance cycles).counterCountdown := by
  have counted : (t.reload.advanceDivider cycles).enabled = true :=
    (congrArg (Byte.has · 0x04) (reload_control t)).trans on
  have before : (t.reload.advanceDivider cycles).counterCountdown = t.counterCountdown := reload_countdown t
  change _ ≤ ((t.reload.advanceDivider cycles).advanceCounter cycles).counterCountdown
  generalize t.reload.advanceDivider cycles = ready at counted before ⊢
  rw [advanceCounter, if_pos counted, ← before]
  simp only
  have rate := period_pos ready.control
  by_cases spent : ready.counterCountdown - cycles ≤ 0
  · by_cases due : periodsDue (ready.counterCountdown - cycles) (period ready.control) ≤ 256 - ready.counter.toNat
    · have bounds := (rewound_bounds rate spent).1
      rw [Nat.min_eq_left due]
      omega
    · have room : 1 ≤ 256 - ready.counter.toNat := by
        have := ready.counter.toNat_lt
        omega
      have most : 16 ≤ (256 - ready.counter.toNat) * period ready.control :=
        Nat.le_trans (sixteen_le_period _) (Nat.le_mul_of_pos_left _ room)
      rw [Nat.min_eq_right (by omega), ← Int.natCast_mul]
      omega
  · rw [periodsDue_of_running (by omega), Nat.zero_min]
    omega

theorem countdown_of_off (off : t.enabled = false) (cycles : Int) :
    (t.advance cycles).counterCountdown = t.counterCountdown := by
  have same : (t.reload.advanceDivider cycles).enabled = false :=
    (congrArg (Byte.has · 0x04) (reload_control t)).trans off
  rw [advance, advanceCounter, if_neg (by rw [same]; decide)]
  exact reload_countdown t

end Timer

namespace Board

variable {b : Board} {cycles : Nat}

theorem Sound.tick_result (h : b.Sound) (short : cycles ≤ longestBatch) :
    (¬b.timer.Overdrawn cycles → b.tick cycles = (.ok (), (b.tick cycles).2)) ∧
      (cycles ≠ 0 → b.timer.Overdrawn cycles → b.tick cycles = (.error .countdownOverflow, b)) := by
  have admits := h.timer.admits_iff_not_overdrawn short
  simp only [Board.tick, Countdown.batch_eq short, h.lcd_admits short, Bool.and_true]
  by_cases none : cycles = 0
  · simp only [if_pos none]
    exact ⟨fun _ => trivial, fun some => absurd none some⟩
  · simp only [if_neg none]
    constructor
    · intro room
      simp only [if_pos (admits.mpr room)]
    · intro _ full
      exact if_neg fun room => admits.mp room full

structure Afloat (b : Board) : Prop where
  sound : b.Sound
  counter : 16 - 2 ^ 31 ≤ b.timer.counterCountdown

theorem afloat_postBoot (journal : Journal) : (postBoot journal).Afloat :=
  ⟨sound_postBoot journal, by
    change 16 - 2 ^ 31 ≤ Timer.postBoot.counterCountdown
    decide⟩

theorem Afloat.tick_ok (h : b.Afloat) (short : cycles ≤ 16) : b.tick cycles = (.ok (), (b.tick cycles).2) := by
  apply (h.sound.tick_result (by simp only [longestBatch]; omega)).1
  rintro ⟨_, late⟩
  have := h.counter
  omega

theorem countdown_write (address : UInt16) (value : UInt8) (b : Board) :
    (b.write address value).timer.counterCountdown = b.timer.counterCountdown ∨
      0 < (b.write address value).timer.counterCountdown := by
  have outcome := b.write_outcome address value
  generalize b.write address value = after at outcome ⊢
  cases outcome with
  | timerControl => exact Timer.countdown_writeControl value b.timer
  | lcdControl _ timer => exact .inl (congrArg Timer.counterCountdown timer)
  | linkControl =>
    simp only [writeLinkControl]
    split <;> exact .inl rfl
  | other same => exact .inl (congrArg Timer.counterCountdown same.timer)
  | _ => exact .inl rfl

/-- Behind a batch that it has counted the counter has room for the entry of a routine. -/
theorem Afloat.countdown_tick (h : b.Afloat) (on : b.timer.enabled = true) (some : cycles ≠ 0) (short : cycles ≤ 16) :
    32 - (cycles : Int) - 2 ^ 31 ≤ (b.tick cycles).2.timer.counterCountdown := by
  have taken := h.tick_ok short
  have outcome := b.tick_outcome (show cycles ≤ longestBatch by simp only [longestBatch]; omega)
  have floor := h.counter
  rw [taken] at outcome
  cases outcome with
  | nothing => exact absurd rfl some
  | taken timer =>
    have counted := Timer.countdown_of_enabled on cycles
    rw [timer]
    omega

theorem enabled_tick (short : cycles ≤ longestBatch) (b : Board) :
    (b.tick cycles).2.timer.enabled = b.timer.enabled := by
  have outcome := b.tick_outcome short
  generalize b.tick cycles = x at outcome ⊢
  cases outcome with
  | nothing | refused => rfl
  | taken timer => rw [timer, Timer.enabled_advance]

theorem lcdEnabled_tick (short : cycles ≤ longestBatch) (b : Board) :
    (b.tick cycles).2.lcd.pace.enabled = b.lcd.pace.enabled := by
  have outcome := b.tick_outcome short
  generalize b.tick cycles = x at outcome ⊢
  cases outcome with
  | nothing | refused => rfl
  | taken _ lcd => rw [lcd, Lcd.enabled_advance]

theorem Afloat.tick (h : b.Afloat) (short : cycles ≤ longestBatch) : (b.tick cycles).2.Afloat := by
  refine ⟨h.sound.tick short, ?_⟩
  have floor := h.counter
  have outcome := b.tick_outcome short
  generalize taken : b.tick cycles = x at outcome ⊢
  cases outcome with
  | nothing | refused => exact floor
  | @taken _ after timer =>
    rw [timer]
    cases on : b.timer.enabled with
    | false => rwa [Timer.countdown_of_off on]
    | true =>
      have counted := Timer.countdown_of_enabled on cycles
      by_cases none : cycles = 0
      · omega
      · have room := room_of_tick short none on taken
        omega

theorem Afloat.write (h : b.Afloat) (address : UInt16) (value : UInt8) : (b.write address value).Afloat := by
  refine ⟨h.sound.write address value, ?_⟩
  have floor := h.counter
  have counter := countdown_write address value b
  omega

theorem afloat_invariant : Bus.Invariant Board.Afloat where
  read _ _ h := h
  write address byte _ h := h.write address byte
  note _ _ h := ⟨h.sound.note _, h.counter⟩
  tick _ short _ h := h.tick short

end Board

namespace Machine

variable {m : Machine Board}

theorem stepStopped_eq (m : Machine Board) : m.stepStopped =
    if Byte.has m.bus.pending 0x10 then
      { m.note .leavesStop with cpu := { m.cpu with stopped := false } }
    else m := by
  rw [stepStopped, pendingInterrupts_eq]
  rfl

theorem stepHalted_eq (m : Machine Board) : m.stepHalted =
    if m.bus.pending = 0 then m else { m with cpu := { m.cpu with halted := false } } := by
  rw [stepHalted, pendingInterrupts_eq]
  simp only [InterruptSet.isEmpty, beq_iff_eq]

/-- A processor that is stopped when its step ends has been stopped before, or has just come to a stop, which takes
four cycles and leaves the timer alone. -/
theorem stopped_of_stepCpu {result : Except Fault Nat} {ready : Machine Board} (cpu : m.stepCpu = (result, ready))
    (stopped : ready.cpu.stopped = true) :
    m.cpu.stopped = true ∧ result = .ok 0 ∧ ready.bus = m.bus ∨ result = .ok 4 ∧ ready.bus.timer = m.bus.timer := by
  have outcome := m.stepCpu_outcome
  rw [cpu] at outcome
  cases outcome with
  | stopped rests =>
    left
    refine ⟨rests, rfl, ?_⟩
    rw [stepStopped_eq] at stopped ⊢
    split at stopped
    next => cases stopped
    next asleep => rw [if_neg asleep]
  | halted running =>
    rw [stepHalted_eq] at stopped
    have same : m.cpu.stopped = true := by split at stopped <;> exact stopped
    exact absurd (running.symm.trans same) (by decide)
  | @performed opcode op rest running awake fetched =>
    have bus : m.fetch.2.2.bus = m.bus := m.bus_fetch
    have processor : m.fetch.2.2.cpu = m.cpu := m.cpu_fetch
    rw [fetched] at bus processor
    by_cases stops : op = .stop
    · subst stops
      have timer : rest.bus.timer = m.bus.timer := congrArg Board.timer bus
      exact .inr ⟨rfl, timer⟩
    · have same : rest.cpu.stopped = m.cpu.stopped := congrArg Cpu.stopped processor
      have kept : (rest.perform opcode op).2.cpu.stopped = m.cpu.stopped := (stopped_execute stops _).trans same
      exact absurd ((running.symm.trans kept.symm).trans stopped) (by decide)
  | @unknown opcode slot rest running awake fetched =>
    have processor : m.fetch.2.2.cpu = m.cpu := m.cpu_fetch
    rw [fetched] at processor
    have kept : rest.cpu.stopped = m.cpu.stopped := congrArg Cpu.stopped processor
    exact absurd ((running.symm.trans kept.symm).trans stopped) (by decide)

theorem eq_of_stopped (bound : m.bus.requests.toNat ≤ 0x1F) {source : Option Interrupt} {rest : Machine Board}
    (service : m.serveInterrupt = (source, rest)) (stopped : rest.cpu.stopped = true) :
    source = none ∧ rest = m ∧ ¬(m.cpu.ime = true ∧ m.bus.pending ≠ 0) := by
  have went := serveInterrupt_service bound
  rw [service] at went
  cases went with
  | enters => cases stopped
  | passes idle => exact ⟨rfl, rfl, idle⟩

theorem running_of_entry (bound : m.bus.requests.toNat ≤ 0x1F) {source : Interrupt} {inside rest : Machine Board}
    {cycles : Nat} {result : Except Fault Unit} (service : m.serveInterrupt = (some source, inside))
    (entry : inside.tick cycles = (result, rest)) : rest.cpu.stopped = false := by
  have went := serveInterrupt_service bound
  rw [service] at went
  cases went with
  | enters => exact congrArg (fun x : Except Fault Unit × Machine Board => x.2.cpu.stopped) entry.symm

/-- How a step can end that leaves the processor stopped: it has counted nothing, or four cycles for the stop. Either
way no interrupt is waiting to be served. -/
theorem stopped_of_step (afloat : m.bus.Afloat) (stopped : m.step.2.cpu.stopped = true) :
    ¬(m.step.2.cpu.ime = true ∧ m.step.2.bus.pending ≠ 0) ∧
      (m.cpu.stopped = true ∧ m.step.2.bus = m.bus ∨
        ∃ b : Board, b.Afloat ∧ b.timer = m.bus.timer ∧ b.tick 4 = (.ok (), m.step.2.bus)) := by
  have ready := stepCpu_keeps Board.afloat_invariant.toAccessInvariant afloat
  have outcome := m.step_outcome
  generalize m.step = x at outcome stopped ⊢
  cases outcome with
  | failed cpu => rcases stopped_of_stepCpu cpu stopped with ⟨_, result, _⟩ | ⟨result, _⟩ <;> cases result
  | @refused cycles fault prepared rest cpu batch =>
    rw [cpu] at ready
    have processor : prepared.cpu = rest.cpu := congrArg (fun x : Except Fault Unit × Machine Board => x.2.cpu) batch
    have short : cycles ≤ 16 := by
      rcases stopped_of_stepCpu cpu (processor ▸ stopped) with ⟨_, result, _⟩ | ⟨result, _⟩ <;> cases result <;> decide
    have taken := congrArg Prod.fst (ready.tick_ok short)
    have refused : (prepared.bus.tick cycles).1 = .error fault := congrArg Prod.fst batch
    rw [taken] at refused
    cases refused
  | @unserved cycles prepared caught rest cpu batch service =>
    rw [cpu] at ready
    obtain ⟨processor, ticked⟩ := bus_of_tick batch
    have short := stepCpu_le (congrArg Prod.fst cpu)
    have bound : caught.bus.Sound := by
      have kept := ready.sound.tick short
      rwa [ticked] at kept
    obtain ⟨_, rfl, idle⟩ := eq_of_stopped bound.requests service stopped
    refine ⟨idle, ?_⟩
    rcases stopped_of_stepCpu cpu (processor ▸ stopped) with ⟨rests, result, bus⟩ | ⟨result, timer⟩
    · cases result
      have same : prepared.bus = rest.bus := congrArg Prod.snd ticked
      exact .inl ⟨rests, same.symm.trans bus⟩
    · cases result
      exact .inr ⟨prepared.bus, ready, timer, ticked⟩
  | @refusedEntry cycles _ _ prepared caught _ _ cpu batch service entry
  | @served cycles _ prepared caught _ _ cpu batch service entry =>
    rw [cpu] at ready
    obtain ⟨_, ticked⟩ := bus_of_tick batch
    have bound : caught.bus.Sound := by
      have kept := ready.sound.tick (stepCpu_le (congrArg Prod.fst cpu))
      rwa [ticked] at kept
    exact absurd (stopped.symm.trans (running_of_entry bound.requests service entry)) (by decide)

/-- How a step goes on behind its first batch: it ends there, or it enters the routine of the first source, if the
counter has room for the entry. -/
theorem step_of_batch {taken : Nat} {ready : Machine Board} {after : Board} (cpu : m.stepCpu = (.ok taken, ready))
    (ticked : ready.bus.tick taken = (.ok (), after)) (sound : after.Sound) :
    (¬(ready.cpu.ime = true ∧ after.pending ≠ 0) → m.step = (.ok taken, ⟨ready.cpu, after⟩)) ∧
      (ready.cpu.ime = true → after.pending ≠ 0 → ∃ source : Interrupt, source.FirstIn after.pending ∧
        let entry := handed source ⟨ready.cpu, after⟩
        (¬entry.timer.Overdrawn 20 → m.step = (.ok (taken + 20), ⟨entered source ready.cpu, (entry.tick 20).2⟩)) ∧
        (entry.timer.Overdrawn 20 → m.step.1 = .error .countdownOverflow)) := by
  have batch := tick_of_bus ticked
  have service := serveInterrupt_service (m := ⟨ready.cpu, after⟩) sound.requests
  generalize served : serveInterrupt (⟨ready.cpu, after⟩ : Machine Board) = x at service
  have stepped : m.step = dispatch taken ⟨ready.cpu, after⟩ := by
    rw [step, cpu]
    simp only [batch]
  rw [stepped, dispatch, served]
  cases service with
  | passes idle => exact ⟨fun _ => rfl, fun serves asked => absurd ⟨serves, asked⟩ idle⟩
  | @enters source serves asked first =>
    refine ⟨fun idle => absurd ⟨serves, asked⟩ idle, fun _ _ => ⟨source, first, ?_⟩⟩
    intro entry
    have result := (sound_handed (m := ⟨ready.cpu, after⟩) sound source).tick_result (show 20 ≤ longestBatch by decide)
    have counted {x : Except Fault Unit × Board} (entered : entry.tick 20 = x) :
        ((entry.tick 20).1.map fun _ => taken + 20) = x.1.map fun _ => taken + 20 := by rw [entered]
    constructor
    · intro room
      exact Prod.ext (counted (result.1 room)) rfl
    · intro full
      exact counted (result.2 (by decide) full)

/-- The entry of a routine can be counted if the counter has had room for it before. -/
theorem not_overdrawn_handed {cycles : Nat} (short : cycles ≤ longestBatch)
    (room : (cycles : Int) - 2 ^ 31 ≤ m.bus.timer.counterCountdown) (source : Interrupt) :
    ¬(m.handed source).timer.Overdrawn cycles := by
  rintro ⟨_, late⟩
  simp only [longestBatch] at short
  have low := Board.countdown_write (m.cpu.registers.sp - 2) (Word.low m.cpu.registers.pc) (m.bus.withdraw source)
  have high := Board.countdown_write (m.cpu.registers.sp - 2 + 1) (Word.high m.cpu.registers.pc)
    ((m.bus.withdraw source).write (m.cpu.registers.sp - 2) (Word.low m.cpu.registers.pc))
  change (Board.write _ _ (Board.write _ _ (m.bus.withdraw source))).timer.counterCountdown < _ at late
  change _ = m.bus.timer.counterCountdown ∨ _ at low
  omega

end Machine

namespace Console

variable {c : Console}

structure Afloat (c : Console) : Prop where
  board : c.board.Afloat
  atRest : c.machine.cpu.stopped = true → c.board.timer.enabled = true →
    28 - 2 ^ 31 ≤ c.board.timer.counterCountdown

theorem afloat_postBoot (journal : Journal) : (postBoot journal).Afloat := ⟨Board.afloat_postBoot journal, nofun⟩

theorem Afloat.of_same {next : Console} (h : c.Afloat) (sound : next.board.Sound)
    (cpu : next.machine.cpu = c.machine.cpu) (timer : next.board.timer = c.board.timer) : next.Afloat := by
  refine ⟨⟨sound, ?_⟩, ?_⟩
  · rw [timer]
    exact h.board.counter
  · rw [cpu, timer]
    exact h.atRest

theorem Afloat.step (h : c.Afloat) : c.step.2.Afloat := by
  refine ⟨step_keeps Board.afloat_invariant h.board, ?_⟩
  intro stopped on
  obtain ⟨_, ⟨rested, same⟩ | ⟨b, afloat, timer, ticked⟩⟩ := Machine.stopped_of_step h.board stopped
  · rw [show c.step.2.board = c.board from same] at on ⊢
    exact h.atRest rested on
  · have after : (b.tick 4).2 = c.step.2.board := congrArg Prod.snd ticked
    have kept := b.enabled_tick (show 4 ≤ longestBatch by decide)
    rw [after, on] at kept
    have counted := afloat.countdown_tick kept.symm (show 4 ≠ 0 by decide) (by decide)
    rw [after] at counted
    omega

theorem Afloat.clearFrame (h : c.Afloat) : c.clearFrame.Afloat := h.of_same h.board.sound.clearFrame rfl rfl

theorem Afloat.continueFrame {elapsed : Nat} (h : c.Afloat) : (c.continueFrame elapsed).2.Afloat := by
  fun_induction Console.continueFrame elapsed c with
  | case1 elapsed c fault next stepped =>
    have kept := h.step
    rwa [stepped] at kept
  | case2 elapsed c cycles next stepped =>
    have kept := h.step
    rw [stepped] at kept
    exact kept.clearFrame
  | case3 elapsed c cycles next stepped _ _ ih =>
    have kept := h.step
    rw [stepped] at kept
    exact ih kept
  | case4 elapsed c cycles next stepped =>
    have kept := h.step
    rwa [stepped] at kept

theorem Afloat.after (h : c.Afloat) (call : Call) : (c.after call).Afloat := by
  have sound := sound_after h.board.sound call
  cases call with
  | step => exact h.step
  | runFrame => exact h.clearFrame.continueFrame
  | reset => exact (afloat_postBoot c.board.journal).of_same sound rfl rfl
  | press | release | keep | copyPicture => exact h.of_same sound rfl rfl
  | load image saved =>
    obtain ⟨_, _, _, same⟩ := c.board.load_frame image saved
    have timer : (c.board.load image saved).2.timer = c.board.timer := by rw [same]
    exact h.of_same sound rfl timer
  | save =>
    obtain ⟨_, same⟩ := save_frame c
    exact h.of_same sound (congrArg (fun d => d.machine.cpu) same) (congrArg (fun d => d.board.timer) same)

theorem Reachable.afloat (reachable : c.Reachable) : c.Afloat := by
  obtain ⟨journal, calls, rfl⟩ := reachable
  have start := afloat_postBoot journal
  generalize postBoot journal = first at start ⊢
  induction calls generalizing first with
  | nil => exact start
  | cons call rest ih => exact ih (first.after call) (start.after call)

end Console
end DotMatrix
