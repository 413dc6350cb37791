import DotMatrix.Proofs.Console.Lagging

/-!
The pace of frames. While a program leaves the LCD to itself, frames end a fixed time apart, give or
take the end of the step that reaches the vertical blank, and these ends do not add up.
-/

namespace DotMatrix.Console

structure Unlit (c : Console) : Prop where
  sound : c.board.Sound
  off : c.board.lcd.pace.enabled = false
  running : c.machine.cpu.stopped = false

theorem Unlit.clearFrame {c : Console} (h : c.Unlit) : c.clearFrame.Unlit :=
  ⟨h.sound.clearFrame, h.off, h.running⟩

theorem Unlit.step {cycles : Nat} {c next : Console} (h : c.Unlit) (waiting : c.frameReady = false)
    (stepped : c.step = (.ok cycles, next)) (quiet : Quiet [0xFF40] c.machine.traffic) :
    next.Unlit ∧ next.frameReady = false := by
  have moved := machine_of_step stepped
  have sound := step_keeps Board.sound_invariant h.sound
  have running := Machine.running_of_step h.running quiet.goesOn
  have dark := Machine.dark_step h.off waiting quiet.spares
  rw [stepped] at sound
  rw [moved] at running dark
  exact ⟨⟨sound, dark.1, running⟩, dark.2⟩

theorem Unlit.endsFrame_iff {c : Console} (h : c.Unlit) (waiting : c.frameReady = false) (elapsed : Nat) :
    c.endsFrame elapsed = true ↔ frameCycles ≤ elapsed := by
  have off : c.board.lcd.enabled = false := h.off
  rw [endsFrame, waiting, h.running, off]
  simp

/-- While the LCD is off a frame ends with the step that completes the time of a picture. -/
theorem continueFrame_unlit {elapsed : Nat} {c : Console} (early : elapsed < frameCycles) (h : c.Unlit)
    (waiting : c.frameReady = false) (quiet : Quiet [0xFF40] (c.continueTraffic elapsed)) :
    FallsBehind (c.continueFrame elapsed) ∨
      ∃ total last, c.continueFrame elapsed = (.ok total, last) ∧ last.Unlit ∧
        frameCycles ≤ total ∧ total ≤ frameCycles + 43 := by
  fun_induction continueFrame elapsed c with
  | case1 elapsed c fault next stepped =>
    rw [continueTraffic_error stepped] at quiet
    obtain ⟨rfl, behind⟩ := Machine.behind_of_step h.sound (machine_of_step stepped) quiet.goesOn
    exact .inl ⟨rfl, behind⟩
  | case2 elapsed c cycles next stepped within ends =>
    have short := Machine.step_le (congrArg Prod.fst (machine_of_step stepped))
    rw [continueTraffic_ok stepped] at quiet
    obtain ⟨unlit, still⟩ := h.step waiting stepped (quiet_append.mp quiet).1
    have late := (unlit.endsFrame_iff still _).mp ends
    simp only [longestBatch, Interrupt.dispatchCycles] at short
    exact .inr ⟨_, _, rfl, unlit.clearFrame, late, by omega⟩
  | case3 elapsed c cycles next stepped within goesOn ih =>
    rw [continueTraffic_ok stepped, if_pos within, if_neg goesOn] at quiet
    obtain ⟨here, later⟩ := quiet_append.mp quiet
    obtain ⟨unlit, still⟩ := h.step waiting stepped here
    have before := mt (unlit.endsFrame_iff still _).mpr goesOn
    exact ih (Nat.lt_of_not_le before) unlit still later
  | case4 elapsed c cycles next stepped beyond =>
    have short := Machine.step_le (congrArg Prod.fst (machine_of_step stepped))
    simp only [longestBatch, Interrupt.dispatchCycles, frameCycles, Lcd.lineCycles, frameLimit] at *
    omega

theorem Unlit.runFrame {c : Console} (h : c.Unlit) (quiet : Quiet [0xFF40] c.frameTraffic) :
    FallsBehind c.runFrame ∨
      ∃ total last, c.runFrame = (.ok total, last) ∧ last.Unlit ∧ 70224 ≤ total ∧ total ≤ 70224 + 43 :=
  continueFrame_unlit (by decide) h.clearFrame rfl quiet

theorem Unlit.paced {c : Console} (h : c.Unlit) (n : Nat) (quiet : Quiet [0xFF40] (c.framesTraffic n)) :
    PacedFor n c fun counts _ => ∀ count ∈ counts, 70224 ≤ count ∧ count ≤ 70224 + 43 := by
  refine pacedFor_of_frames Unlit (fun _ counts _ => ∀ count ∈ counts, 70224 ≤ count ∧ count ≤ 70224 + 43)
    ?_ ?_ n h quiet
  · intro c _
    simp
  · intro c unlit here
    rcases unlit.runFrame here with behind | ⟨total, next, ended, still, time⟩
    · exact .inl behind
    · exact .inr ⟨total, next, ended, still, fun counts _ rest => List.forall_mem_cons.mpr ⟨time, rest⟩⟩

/-- Frames keep pace without drifting: with the LCD on each one ends at the vertical blank, and the times
of any number of them differ from whole pictures by the lateness at both ends only; with the LCD off each
one takes the time of a picture. The only exception is a timer that has fallen behind by the whole range
of its countdown. -/
theorem frames_keep_pace {c : Console} (n : Nat) :
    (∀ {before : Console} {total : Nat}, before.Reachable → before.runFrame = (.ok total, c) →
      c.board.lcd.line.toNat = 144 → c.board.lcd.enabled = true → c.machine.cpu.stopped = false →
      Quiet [0xFF40, 0xFF44] (c.framesTraffic n) → PacedFor n c c.OnTime) ∧
    (c.Reachable → c.board.lcd.enabled = false → c.machine.cpu.stopped = false →
      Quiet [0xFF40] (c.framesTraffic n) →
      PacedFor n c fun counts _ => ∀ count ∈ counts, 70224 ≤ count ∧ count ≤ 70224 + 43) := by
  constructor
  · intro before total reachable ran line on running quiet
    exact (atBlank_of_runFrame reachable.sound ran line on running).paced n quiet
  · intro reachable off running quiet
    exact Unlit.paced ⟨reachable.sound, off, running⟩ n quiet

/-- The loop that lags keeps pace for a frame. -/
theorem frames_keep_pace_in_loop : ∃ (total : Nat) (c : Console) (counts : List Nat) (last : Console),
    (Lagging.entered Lagging.image).Reachable ∧ (Lagging.entered Lagging.image).runFrame = (.ok total, c) ∧
    c.board.lcd.line.toNat = 144 ∧ c.board.lcd.enabled = true ∧ c.machine.cpu.stopped = false ∧
    Quiet [0xFF40, 0xFF44] (c.framesTraffic 1) ∧
    c.runFrames 1 = (.ok counts, last) ∧ counts.length = 1 ∧ c.OnTime counts last := by
  obtain ⟨total, c, reachable, ran, blank, spins, far⟩ := entered_frame
  have quiet := quiet_framesTraffic 1 spins
  rcases (frames_keep_pace 1).1 reachable ran blank.line blank.on blank.running quiet with
    behind | ⟨counts, last, done, one, onTime⟩
  · exact absurd (fallsBehind_of_one behind) (not_fallsBehind_runFrame spins far)
  · exact ⟨total, c, counts, last, reachable, ran, blank.line, blank.on, blank.running, quiet, done, one,
      onTime⟩

/-- The program makes the console fail: whatever the pace of the frames before, one of the next 2³¹ calls
for a frame ends with a batch that the timer cannot count, though the program leaves the LCD to itself and
neither stops nor meets an opcode that means nothing. -/
theorem frames_fall_behind : ∃ (total : Nat) (c : Console),
    (Lagging.entered Lagging.image).Reachable ∧ (Lagging.entered Lagging.image).runFrame = (.ok total, c) ∧
    c.board.lcd.line.toNat = 144 ∧ c.board.lcd.enabled = true ∧ c.machine.cpu.stopped = false ∧
    (∀ n, Quiet [0xFF40, 0xFF44] (c.framesTraffic n)) ∧ FallsBehind (c.runFrames (2 ^ 31)) := by
  obtain ⟨total, c, reachable, ran, blank, spins, far⟩ := entered_frame
  have room : -2 ^ 31 ≤ c.board.timer.counterCountdown := by omega
  exact ⟨total, c, reachable, ran, blank.line, blank.on, blank.running,
    fun n => quiet_framesTraffic n spins, fallsBehind_of_spins spins blank room⟩

end DotMatrix.Console
