import DotMatrix.Proofs.Board.Writes
import DotMatrix.Proofs.Bus.Simulation
import DotMatrix.Proofs.Timer

/-!
The board as it can be met. Its soundness is kept by everything that a machine does to its bus; for
the batches this rests on none of them being longer than a line.
-/

namespace DotMatrix

/-- A longer batch would have to end more than one line. -/
theorem longestBatch_le_line : longestBatch ≤ Lcd.lineCycles := by decide

theorem Countdown.batch_eq {cycles : Nat} (short : cycles ≤ longestBatch) :
    Countdown.batch cycles = cycles := by
  unfold longestBatch at short
  exact if_pos (by omega)

/-- The counter is so far behind that it cannot count every batch. -/
def Timer.Behind (t : Timer) : Prop :=
  t.enabled = true ∧ t.counterCountdown < (longestBatch : Int) - 2 ^ 31

namespace Board

structure Sound (b : Board) : Prop where
  lcd : b.lcd.pace.Sound
  timer : b.timer.Sound
  requests : b.requests.toNat ≤ 0x1F

variable {b : Board}

theorem sound_postBoot (journal : Journal) : (postBoot journal).Sound :=
  ⟨Lcd.sound_postBoot, Timer.sound_postBoot, show (0x01 : UInt8).toNat ≤ 0x1F by decide⟩

theorem requests_or_mask (bound : b.requests.toNat ≤ 0x1F) (source : Interrupt) :
    (b.requests ||| source.mask).toNat ≤ 0x1F := by
  have mask : source.mask.toNat < 2 ^ 5 := by cases source <;> decide
  have union := Nat.or_lt_two_pow (show b.requests.toNat < 2 ^ 5 by omega) mask
  rw [UInt8.toNat_or]
  omega

theorem Sound.request (h : b.Sound) (source : Interrupt) : (b.request source).Sound :=
  ⟨h.lcd, h.timer, requests_or_mask h.requests source⟩

theorem Sound.note {ε : Type} [Event ε] (h : b.Sound) (event : ε) : (b.note event).Sound :=
  ⟨h.lcd, h.timer, h.requests⟩

theorem Sound.writeLinkControl (h : b.Sound) (value : UInt8) : (b.writeLinkControl value).Sound := by
  unfold Board.writeLinkControl
  split
  next => exact ⟨h.lcd, h.timer, requests_or_mask h.requests .serial⟩
  next => exact ⟨h.lcd, h.timer, h.requests⟩

theorem Sound.write (h : b.Sound) (address : UInt16) (value : UInt8) : (b.write address value).Sound := by
  have outcome := b.write_outcome address value
  generalize b.write address value = after at outcome ⊢
  cases outcome with
  | lcdControl lcd timer requests =>
    exact ⟨by rw [lcd]; exact Lcd.sound_writeControl value h.lcd, timer ▸ h.timer, requests ▸ h.requests⟩
  | lcdStatus => exact ⟨Lcd.sound_writeStatus value h.lcd, h.timer, h.requests⟩
  | line => exact ⟨Lcd.sound_restart h.lcd, h.timer, h.requests⟩
  | divider => exact ⟨h.lcd, h.timer.clearDivider, h.requests⟩
  | counter | modulo =>
    exact ⟨h.lcd, ⟨h.timer.divider_pos, h.timer.divider_le, h.timer.counter_le⟩, h.requests⟩
  | timerControl => exact ⟨h.lcd, h.timer.writeControl value, h.requests⟩
  | requests =>
    refine ⟨h.lcd, h.timer, ?_⟩
    rw [UInt8.toNat_and]
    exact Nat.and_le_right
  | linkControl => exact h.writeLinkControl value
  | other same => exact ⟨same.pace ▸ h.lcd, same.timer ▸ h.timer, same.requests ▸ h.requests⟩

theorem Sound.clearFrame (h : b.Sound) : Sound { b with lcd := b.lcd.clearFrame } :=
  ⟨Lcd.sound_clearFrame h.lcd, h.timer, h.requests⟩

theorem Sound.advanceTimer (h : b.Sound) {cycles : Int} (forwards : 0 ≤ cycles) :
    (b.advanceTimer cycles).Sound := by
  have moved : ({ b with timer := b.timer.advance cycles } : Board).Sound :=
    ⟨h.lcd, h.timer.advance forwards, h.requests⟩
  simp only [Board.advanceTimer]
  split
  next => exact moved.request .timer
  next => exact moved

theorem sound_advance {lcd : Lcd} (h : lcd.pace.Sound) {cycles : Int} (forwards : 0 ≤ cycles)
    (short : cycles ≤ Lcd.lineCycles) : (lcd.advance cycles).2.pace.Sound := by
  cases on : lcd.enabled with
  | false =>
    rw [Lcd.advance, on]
    exact h
  | true =>
    obtain ⟨status, same, unused⟩ := Lcd.pace_advance cycles on
    rw [same]
    exact h.countDown on forwards short unused

theorem Sound.advanceLcd (h : b.Sound) {cycles : Int} (forwards : 0 ≤ cycles)
    (short : cycles ≤ Lcd.lineCycles) : (b.advanceLcd cycles).Sound := by
  have moved : ({ b with lcd := (b.lcd.advance cycles).2 } : Board).Sound :=
    ⟨sound_advance h.lcd forwards short, h.timer, h.requests⟩
  simp only [Board.advanceLcd]
  generalize (b.lcd.advance cycles).1 = requests
  cases requests.vblank with
  | false =>
    split
    next => exact (moved.request .stat).note _
    next => exact moved
  | true =>
    have blank := (moved.request .vblank).note
      (LcdEvent.vblank (Board.request .vblank { b with lcd := (b.lcd.advance cycles).2 }).requests)
    split
    next => exact (blank.request .stat).note _
    next => exact blank

theorem lcd_advanceTimer (cycles : Int) (b : Board) : (b.advanceTimer cycles).lcd = b.lcd := by
  simp only [Board.advanceTimer]
  split <;> rfl

theorem timer_advanceTimer (cycles : Int) (b : Board) :
    (b.advanceTimer cycles).timer = b.timer.advance cycles := by
  simp only [Board.advanceTimer]
  split <;> rfl

theorem lcd_advanceLcd (cycles : Int) (b : Board) : (b.advanceLcd cycles).lcd = (b.lcd.advance cycles).2 := by
  simp only [Board.advanceLcd]
  split <;> split <;> rfl

theorem timer_advanceLcd (cycles : Int) (b : Board) : (b.advanceLcd cycles).timer = b.timer := by
  simp only [Board.advanceLcd]
  split <;> split <;> rfl

inductive TickOutcome (b : Board) : Nat → Except Fault Unit × Board → Prop where
  | nothing : TickOutcome b 0 (.ok (), b)
  | taken {cycles : Nat} {after : Board} (timer : after.timer = b.timer.advance cycles)
      (lcd : after.lcd = (b.lcd.advance cycles).2) : TickOutcome b cycles (.ok (), after)
  | refused {cycles : Nat} (room : (b.timer.admits cycles && b.lcd.admits cycles) = false) :
      TickOutcome b cycles (.error .countdownOverflow, b)

theorem Sound.lcd_admits (h : b.Sound) {cycles : Nat} (short : cycles ≤ longestBatch) :
    b.lcd.admits cycles = true := by
  have positive := h.lcd.positive
  have line := h.lcd.le_line
  simp only [Lcd.pace, Lcd.lineCycles] at positive line
  simp only [longestBatch] at short
  rw [Lcd.admits, Countdown.admits_of_pos positive (by omega) (by omega) (by omega), Bool.or_true]

theorem Sound.behind_of_refusal (h : b.Sound) {cycles : Nat} (short : cycles ≤ longestBatch)
    (refused : (b.timer.admits cycles && b.lcd.admits cycles) = false) : b.timer.Behind := by
  rw [h.lcd_admits short, Bool.and_true] at refused
  simp only [longestBatch] at short
  obtain ⟨on, late⟩ := h.timer.behind_of_refusal (by omega) refused
  exact ⟨on, by unfold longestBatch; omega⟩

theorem tick_outcome {cycles : Nat} (short : cycles ≤ longestBatch) (b : Board) :
    b.TickOutcome cycles (b.tick cycles) := by
  simp only [Board.tick]
  split
  next none =>
    subst none
    exact .nothing
  next =>
    rw [Countdown.batch_eq short]
    split
    next =>
      apply TickOutcome.taken
      · rw [timer_advanceLcd, timer_advanceTimer]
      · rw [lcd_advanceLcd, lcd_advanceTimer]
    next full => exact .refused (Bool.eq_false_iff.mpr full)

theorem devices_of_tick {cycles : Nat} {after : Board} (short : cycles ≤ longestBatch) (some : cycles ≠ 0)
    (taken : b.tick cycles = (.ok (), after)) :
    after.timer = b.timer.advance cycles ∧ after.lcd = (b.lcd.advance cycles).2 := by
  have outcome := b.tick_outcome short
  rw [taken] at outcome
  cases outcome with
  | nothing => exact absurd rfl some
  | taken timer lcd => exact ⟨timer, lcd⟩

theorem Sound.tick (h : b.Sound) {cycles : Nat} (short : cycles ≤ longestBatch) :
    (b.tick cycles).2.Sound := by
  have line := longestBatch_le_line
  simp only [Board.tick]
  split
  next => exact h
  next =>
    split
    next =>
      rw [Countdown.batch_eq short]
      exact (h.advanceTimer (by omega)).advanceLcd (by omega) (by omega)
    next => exact h

/-- While the counter is off the board counts every batch. -/
theorem Sound.tick_of_off (h : b.Sound) (off : b.timer.enabled = false) {cycles : Nat}
    (short : cycles ≤ longestBatch) :
    ∃ after : Board, b.tick cycles = (.ok (), after) ∧ after.Sound ∧ after.timer.enabled = false := by
  have kept := h.tick short
  have outcome := b.tick_outcome short
  generalize b.tick cycles = x at kept outcome ⊢
  cases outcome with
  | nothing => exact ⟨b, rfl, h, off⟩
  | @taken _ after timer =>
    refine ⟨after, rfl, kept, ?_⟩
    rw [timer, Timer.enabled_advance]
    exact off
  | refused room => exact absurd (off.symm.trans (h.behind_of_refusal short room).1) (by decide)

/-- A batch changes nothing of the board but the two devices that count it, the requests and the journal. -/
theorem tick_frame (cycles : Nat) (b : Board) :
    ∃ timer lcd requests journal, (b.tick cycles).2 = { b with timer, lcd, requests, journal } := by
  simp only [Board.tick]
  split
  next => exact ⟨_, _, _, _, rfl⟩
  next =>
    split
    next =>
      unfold advanceLcd advanceTimer
      simp only
      split <;> split <;> split <;> exact ⟨_, _, _, _, rfl⟩
    next => exact ⟨_, _, _, _, rfl⟩

theorem cartridge_tick (cycles : Nat) (b : Board) : (b.tick cycles).2.cartridge = b.cartridge := by
  obtain ⟨timer, lcd, requests, journal, same⟩ := b.tick_frame cycles
  rw [same]

theorem enables_tick (cycles : Nat) (b : Board) : (b.tick cycles).2.enables = b.enables := by
  obtain ⟨timer, lcd, requests, journal, same⟩ := b.tick_frame cycles
  rw [same]

theorem room_of_tick {cycles : Nat} {after : Board} (short : cycles ≤ longestBatch) (some : cycles ≠ 0)
    (on : b.timer.enabled = true) (taken : b.tick cycles = (.ok (), after)) :
    -2 ^ 31 ≤ b.timer.counterCountdown - cycles := by
  unfold Board.tick at taken
  rw [if_neg some, Countdown.batch_eq short] at taken
  by_cases room : (b.timer.admits cycles && b.lcd.admits cycles) = true
  · rw [Bool.and_eq_true, Timer.admits, Bool.and_eq_true, on] at room
    exact (Countdown.inRange_iff.mp room.1.2).1
  · rw [if_neg room] at taken
    cases taken

theorem sound_invariant : Bus.Invariant Board.Sound where
  read _ _ h := h
  write address byte _ h := h.write address byte
  note _ _ h := h.note _
  tick _ short _ h := h.tick short

end Board
end DotMatrix
