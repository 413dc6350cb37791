import DotMatrix.Proofs.Console.Programs

/-!
A program that never lets the vertical blank begin. It takes the LCD back to the first line before two lines
have passed, so a frame goes on for as long as its cycles can be counted.
-/

namespace DotMatrix.Restarting

open Program (Runs Has performed stored image loaded)

def program : List UInt8 := [
  0xE0, 0x44,  -- LDH (44),A
  0x18, 0xFC]  -- JR -4

structure Loops (c : Console) : Prop where
  place : (Runs program 0x0100 c.machine ∧ c.board.lcd.line.toNat ≤ 2) ∨
    (Runs program 0x0102 c.machine ∧ c.board.lcd.line.toNat ≤ 1)
  off : c.board.timer.enabled = false
  waiting : c.board.lcd.frameReady = false

theorem line_countDown {p : Pace} (sound : p.Sound) (cycles : Int) (near : p.line.toNat < 100)
    (waiting : p.frameReady = false) :
    (p.countDown cycles).line.toNat ≤ p.line.toNat + 1 ∧ (p.countDown cycles).frameReady = false := by
  unfold Pace.countDown
  split
  next =>
    rcases Pace.toNat_following sound with ⟨last, _⟩ | ⟨_, next⟩
    · rw [Lcd.lastLine] at last
      omega
    · refine ⟨Nat.le_of_eq next, ?_⟩
      rw [waiting, Bool.false_or, beq_eq_false_iff_ne, next, screenHeight]
      omega
  next => exact ⟨Nat.le_succ _, waiting⟩

theorem line_advance {lcd : Lcd} (sound : lcd.pace.Sound) (cycles : Int) (near : lcd.line.toNat < 100)
    (waiting : lcd.frameReady = false) :
    (lcd.advance cycles).2.line.toNat ≤ lcd.line.toNat + 1 ∧ (lcd.advance cycles).2.frameReady = false := by
  change (lcd.advance cycles).2.pace.line.toNat ≤ _ ∧ (lcd.advance cycles).2.pace.frameReady = false
  rcases Lcd.pace_batch cycles lcd with ⟨_, same⟩ | ⟨_, status, same⟩
  · rw [same]
    exact ⟨Nat.le_succ _, waiting⟩
  · rw [same]
    exact line_countDown sound cycles near waiting

theorem stored_line (m : Machine Board) :
    ∃ journal, stored 0x44 m = { m.bus with lcd := { m.bus.lcd with line := 0 }, journal } :=
  Program.stored_eq (show Region.ofAddress (0xFF00 ||| (0x44 : UInt8).toUInt16) = .register .line by decide +kernel) m

variable {c : Console}

theorem Loops.step (h : Loops c) : ∃ next, c.step = (.ok 12, next) ∧ Loops next := by
  rcases h.place with ⟨runs, near⟩ | ⟨runs, near⟩
  · obtain ⟨journal, board⟩ := stored_line c.machine
    obtain ⟨outcome, same, _⟩ := runs.storePage
      (show Has program (0x0100 : UInt16).toNat [0xE0, 0x44] by decide) (by rw [board]) (by rw [board]; exact runs.on)
    rw [board] at same
    obtain ⟨next, passed⟩ := outcome.passed_of_off (by rw [same]; exact h.off)
    have lcd := passed.lcd
    rw [same] at lcd
    have restarted : ({ c.machine.bus.lcd with line := 0 } : Lcd).pace.Sound := Lcd.sound_restart runs.sound.lcd
    obtain ⟨close, waiting⟩ := line_advance restarted 12 (show (0 : UInt8).toNat < 100 by decide) h.waiting
    refine ⟨_, Console.step_of_machine passed.done, ⟨.inr ⟨passed.runs, ?_⟩, passed.off, ?_⟩⟩
    · change next.bus.lcd.line.toNat ≤ 1
      rw [lcd]
      exact close
    · change next.bus.lcd.frameReady = false
      rw [lcd]
      exact waiting
  · obtain ⟨outcome, sameTimer, sameLcd, _⟩ := runs.jumpBy
      (show Has program (0x0102 : UInt16).toNat [0x18, 0xFC] by decide)
    obtain ⟨next, passed⟩ := outcome.passed_of_off (by rw [sameTimer]; exact h.off)
    have lcd := passed.lcd
    rw [sameLcd] at lcd
    obtain ⟨close, waiting⟩ := line_advance runs.sound.lcd 12 (Nat.lt_of_le_of_lt near (by decide)) h.waiting
    refine ⟨_, Console.step_of_machine passed.done, ⟨.inl ⟨passed.runs, ?_⟩, passed.off, ?_⟩⟩
    · change next.bus.lcd.line.toNat ≤ 2
      rw [lcd]
      exact Nat.le_trans close (Nat.succ_le_succ near)
    · change next.bus.lcd.frameReady = false
      rw [lcd]
      exact waiting

theorem Loops.runs (h : Loops c) : ∃ pc, Runs program pc c.machine :=
  h.place.elim (fun first => ⟨_, first.1⟩) (fun second => ⟨_, second.1⟩)

theorem Loops.goesOn (h : Loops c) :
    c.frameReady = false ∧ c.machine.cpu.stopped = false ∧ c.board.lcd.enabled = true := by
  obtain ⟨pc, runs⟩ := h.runs
  exact ⟨h.waiting, runs.running, runs.on⟩

theorem Loops.clearFrame (h : Loops c) : Loops c.clearFrame :=
  ⟨h.place.imp (And.imp_left Runs.clearFrame) (And.imp_left Runs.clearFrame), h.off, rfl⟩

theorem Loops.repeatSteps (n : Nat) (before : Array Nat) (h : Loops c) :
    ∃ counts last, Machine.repeatSteps Machine.step n before c.machine = (.ok counts, last) ∧
      Loops { c with machine := last } := by
  induction n generalizing c before with
  | zero => exact ⟨before, c.machine, rfl, h⟩
  | succ n ih =>
    obtain ⟨next, stepped, loops⟩ := h.step
    obtain ⟨counts, last, ran, still⟩ := ih (before.push 12) loops
    refine ⟨counts, last, ?_, ⟨still.place, still.off, still.waiting⟩⟩
    simp only [Machine.repeatSteps, Console.machine_of_step stepped]
    exact ran

theorem Loops.continueFrame {elapsed : Nat} (h : Loops c) :
    (c.continueFrame elapsed).1 = .error .frameOverflow := by
  fun_induction Console.continueFrame elapsed c with
  | case1 elapsed c fault next stepped =>
    obtain ⟨_, done, _⟩ := h.step
    cases stepped.symm.trans done
  | case2 elapsed c cycles next stepped within ends =>
    obtain ⟨_, done, loops⟩ := h.step
    cases stepped.symm.trans done
    obtain ⟨waiting, running, on⟩ := loops.goesOn
    rw [Console.endsFrame, waiting, running, on] at ends
    cases ends
  | case3 elapsed c cycles next stepped within goesOn ih =>
    obtain ⟨_, done, loops⟩ := h.step
    cases stepped.symm.trans done
    exact ih loops
  | case4 => rfl

theorem exists_loops : ∃ c : Console, c.Reachable ∧ Loops c := by
  obtain ⟨runs, timer, lcd, _⟩ :=
    Program.runs_loaded (Program.parse_image (show program.length ≤ 0x43 by decide)) rfl {}
  refine ⟨_, Program.reachable_loaded (image program) {}, .inl ⟨runs, ?_⟩, ?_, ?_⟩
  · rw [lcd]
    decide
  · rw [timer]
    decide
  · rw [lcd]
    rfl

end DotMatrix.Restarting
