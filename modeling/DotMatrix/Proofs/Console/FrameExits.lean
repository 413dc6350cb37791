import DotMatrix.Proofs.Board.Restarts
import DotMatrix.Proofs.Console.Restarting

/-!
How a frame ends. Unless something stops it, it ends at the vertical blank or, while the LCD is off, after the
time of a picture. Only a program that takes the LCD back to the top of the picture again and again can keep a
frame from ending, until its cycles can no longer be counted.
-/

namespace DotMatrix

def longestStep : Nat := longestBatch + Interrupt.dispatchCycles

/-- The most cycles after a restart at which the blank can still be ahead: the LCD rests for the time of a
picture, is switched on by the next step, and goes on to the blank from the top. -/
def longestWait : Nat := frameCycles + longestStep + Lcd.lineCycles * screenHeight

/-- The most cycles that can have passed since a restart, when a step of some cycles has led to a pace. -/
def Pace.patience (p : Pace) (cycles : Nat) : Int :=
  if p.frameReady then longestWait + cycles
  else if p.enabled then longestWait - p.untilBlank
  else frameCycles + cycles

def RestartsOften (seen : List Access) : Prop :=
  ∀ early late, seen = early ++ late → Access.sinceRestart early < 2 * frameCycles

theorem RestartsOften.concat {seen : List Access} {access : Access} (often : RestartsOften seen)
    (last : Access.sinceRestart (seen ++ [access]) < 2 * frameCycles) : RestartsOften (seen ++ [access]) := by
  intro early late split
  rcases List.eq_nil_or_concat late with rfl | ⟨late, final, rfl⟩
  · rw [List.append_nil] at split
    rwa [← split]
  · rw [List.concat_eq_append, ← List.append_assoc] at split
    obtain ⟨same, _⟩ := List.append_inj' split rfl
    exact often early late same

theorem RestartsOften.exists_restart {before stretch after : List Access}
    (often : RestartsOften (before ++ stretch ++ after)) (long : 2 * frameCycles ≤ Access.total stretch) :
    ∃ access ∈ stretch, access.restarts = true := by
  by_cases steady : Steady stretch
  · have counted := Access.sinceRestart_append before steady
    have short := often _ _ rfl
    omega
  · simpa [Steady] using steady

/-- What a step keeps when some accesses have gone before it. -/
structure Waits (base : List Access) (w : Watched Board) : Prop where
  sound : w.bus.Sound
  patient : Access.total w.seen ≤ longestStep →
    (Access.sinceRestart (base ++ w.seen) : Int) ≤ w.bus.lcd.pace.patience (Access.total w.seen)
  often : Access.total w.seen ≤ longestStep → RestartsOften (base ++ w.seen)

theorem Pace.patience_lt {p : Pace} (h : p.Sound) {cycles : Nat} (short : cycles ≤ longestStep) :
    p.patience cycles < 2 * frameCycles := by
  have soon := (Pace.untilBlank_bounds h).1
  unfold patience
  simp only [longestWait, longestStep, longestBatch, Interrupt.dispatchCycles, frameCycles, Lcd.lineCycles,
    screenHeight] at *
  split
  · omega
  · split <;> omega

theorem Pace.patience_nonneg {p : Pace} (h : p.Sound) (cycles : Nat) : 0 ≤ p.patience cycles := by
  have late := (Pace.untilBlank_bounds h).2
  unfold patience
  simp only [longestWait, longestStep, longestBatch, Interrupt.dispatchCycles, frameCycles, Lcd.lineCycles,
    screenHeight] at *
  split
  · omega
  · split <;> omega

variable {base : List Access}

theorem Waits.concat {w : Watched Board} {after : Board} {access : Access} (h : Waits base w)
    (sound : after.Sound)
    (patient : access.restarts = false → Access.total w.seen + access.cycles ≤ longestStep →
      w.bus.lcd.pace.patience (Access.total w.seen) + access.cycles ≤
        after.lcd.pace.patience (Access.total w.seen + access.cycles)) :
    Waits base ⟨after, w.seen ++ [access]⟩ := by
  have counted : Access.total (w.seen ++ [access]) = Access.total w.seen + access.cycles := by
    rw [Access.total_append]
    rfl
  have enough : Access.total w.seen + access.cycles ≤ longestStep →
      (Access.sinceRestart (base ++ (w.seen ++ [access])) : Int) ≤
        after.lcd.pace.patience (Access.total w.seen + access.cycles) := by
    intro short
    have before := h.patient (by omega)
    rw [← List.append_assoc, Access.sinceRestart_concat]
    cases restarts : access.restarts with
    | true => exact Pace.patience_nonneg sound.lcd _
    | false =>
      have after := patient restarts short
      simp only [Bool.false_eq_true, if_false]
      omega
  refine ⟨sound, ?_, ?_⟩
  · rw [counted]
    exact enough
  · rw [counted, ← List.append_assoc]
    intro short
    apply (h.often (by omega)).concat
    have bound := Pace.patience_lt sound.lcd short
    have patient := enough short
    rw [List.append_assoc]
    omega

theorem Board.KeepsPlace.untilBlank {b after : Board} (kept : b.KeepsPlace after) :
    after.lcd.pace.untilBlank = b.lcd.pace.untilBlank := by
  simp only [Pace.untilBlank, Pace.position, kept.line, kept.countdown]

theorem Board.KeepsPlace.patience_le {b after : Board} (sound : b.Sound) (kept : b.KeepsPlace after) {cycles : Nat}
    (short : cycles ≤ longestStep) : b.lcd.pace.patience cycles ≤ after.lcd.pace.patience cycles := by
  have distance := kept.untilBlank
  unfold Pace.patience
  rw [kept.frameReady, distance]
  cases on : b.lcd.pace.enabled with
  | true => exact Int.le_of_eq (by rw [kept.stays on])
  | false =>
    obtain ⟨top, rests, _⟩ := sound.lcd.off on
    have whole : b.lcd.pace.untilBlank = Lcd.lineCycles * screenHeight := by
      simp only [Pace.untilBlank, Pace.position, top, rests, screenHeight]
      rfl
    rw [whole]
    simp only [longestWait, Bool.false_eq_true, if_false]
    split
    · exact Int.le_refl _
    · split <;> omega

theorem Pace.patience_batch {lcd : Lcd} (sound : lcd.pace.Sound) (before cycles : Nat) :
    lcd.pace.patience before + cycles ≤ (lcd.advance cycles).2.pace.patience (before + cycles) := by
  rcases Lcd.pace_batch cycles lcd with ⟨off, same⟩ | ⟨on, status, same⟩
  · rw [same]
    unfold patience
    rw [off]
    split <;> simp <;> omega
  · have stays := (Pace.enabled_countDown cycles lcd.pace).trans on
    rw [same]
    change _ ≤ (lcd.pace.countDown cycles).patience (before + cycles)
    have soon := (Pace.untilBlank_bounds sound).1
    unfold patience
    rw [stays, on]
    simp only [if_true]
    rcases Pace.untilBlank_countDown sound cycles with ⟨nearer, flag⟩ | ⟨_, flag, reached⟩
    · rw [nearer, flag]
      split <;> omega
    · rw [flag]
      simp only [if_true]
      split <;> omega

theorem waits_invariant (base : List Access) : Bus.Invariant (Waits base) where
  read _ _ h := h
  write address byte w h := by
    apply h.concat (h.sound.write address byte)
    intro steady short
    have kept := (h.sound.keepsPlace_write steady).patience_le h.sound short
    exact Int.le_trans (Int.le_of_eq (Int.add_zero _)) kept
  note event w h := by
    apply h.concat (h.sound.note event)
    intro _ _
    exact Int.le_of_eq (Int.add_zero _)
  tick cycles short w h := by
    apply Watched.tick_keeps short h
    · apply h.concat h.sound
      intro _ _
      exact Int.le_of_eq (Int.add_zero _)
    · intro after sound _ lcd
      apply h.concat (sound h.sound)
      intro _ _
      rw [lcd]
      exact Pace.patience_batch h.sound.lcd _ _

namespace Console

variable {c next last : Console} {elapsed total : Nat}

/-- A frame that is not over waits for its next step. -/
theorem waits_of_goesOn (sound : c.board.Sound) (waiting : c.board.lcd.pace.frameReady = false)
    (early : c.board.lcd.pace.enabled = false → Access.total base ≤ frameCycles)
    (patient : c.board.lcd.pace.enabled = true →
      (Access.sinceRestart base : Int) ≤ longestWait - c.board.lcd.pace.untilBlank)
    (often : RestartsOften base) : Waits base ⟨c.board, []⟩ := by
  refine ⟨sound, fun _ => ?_, fun _ => ?_⟩
  · rw [List.append_nil, Access.total_nil]
    unfold Pace.patience
    rw [waiting]
    cases on : c.board.lcd.pace.enabled with
    | true => simpa using patient on
    | false =>
      have most := Access.sinceRestart_le base
      have before := early on
      simp only [Bool.false_eq_true, if_false]
      omega
  · rw [List.append_nil]
    exact often

/-- A step either ends the frame or leaves it waiting for the next one. -/
theorem waits_step {cycles : Nat} (h : Waits base ⟨c.board, []⟩) (counted : Access.total base = elapsed)
    (stepped : c.step = (.ok cycles, next)) :
    Access.total (base ++ c.machine.traffic) = elapsed + cycles ∧ RestartsOften (base ++ c.machine.traffic) ∧
      (¬next.endsFrame (elapsed + cycles) → Waits (base ++ c.machine.traffic) ⟨next.board, []⟩) := by
  have moved := machine_of_step stepped
  have short : cycles ≤ longestStep := Machine.step_le (congrArg Prod.fst moved)
  obtain ⟨after, took⟩ := Machine.watched_step (waits_invariant base) h moved
  have all : Access.total (base ++ c.machine.traffic) = elapsed + cycles := by
    rw [Access.total_append, counted, took]
  have within : Access.total c.machine.traffic ≤ longestStep := by omega
  have patient := after.patient within
  refine ⟨all, after.often within, fun goesOn => ?_⟩
  simp only [endsFrame, Bool.or_eq_true, not_or, Bool.not_eq_true] at goesOn
  obtain ⟨⟨waiting, _⟩, early⟩ := goesOn
  apply waits_of_goesOn after.sound waiting
  · intro off
    rw [show next.board.lcd.enabled = false from off, Bool.not_false, Bool.true_and, decide_eq_false_iff_not] at early
    omega
  · intro on
    unfold Pace.patience at patient
    rw [show next.machine.bus.lcd.pace.frameReady = false from waiting,
      show next.machine.bus.lcd.pace.enabled = true from on] at patient
    exact patient
  · exact after.often within

/-- A frame whose cycles could not be counted to its end has met a restart in every stretch of two pictures. -/
theorem often_of_continueFrame (base : List Access) (h : Waits base ⟨c.board, []⟩)
    (counted : Access.total base = elapsed) (ran : (c.continueFrame elapsed).1 = .error .frameOverflow) :
    RestartsOften (base ++ c.continueTraffic elapsed) ∧
      frameLimit < Access.total (base ++ c.continueTraffic elapsed) := by
  fun_induction continueFrame elapsed c generalizing base with
  | case1 elapsed c fault next stepped =>
    obtain rfl : fault = .frameOverflow := Except.error.inj ran
    cases explains_of_step h.sound stepped
  | case2 => cases ran
  | case3 elapsed c cycles next stepped within goesOn ih =>
    obtain ⟨all, _, waits⟩ := waits_step h counted stepped
    rw [continueTraffic_ok stepped, if_pos within, if_neg goesOn, ← List.append_assoc]
    exact ih _ (waits goesOn) all ran
  | case4 elapsed c cycles next stepped beyond =>
    obtain ⟨all, often, _⟩ := waits_step h counted stepped
    rw [continueTraffic_ok stepped, if_neg beyond, List.append_nil]
    exact ⟨often, by omega⟩

theorem often_of_runFrame (sound : c.board.Sound) (ran : c.runFrame.1 = .error .frameOverflow) :
    RestartsOften c.frameTraffic ∧ frameLimit < Access.total c.frameTraffic := by
  have cleared : c.clearFrame.board.Sound := sound.clearFrame
  have start : Waits [] ⟨c.clearFrame.board, []⟩ := by
    apply waits_of_goesOn cleared rfl
    · intro _
      exact Nat.zero_le _
    · intro _
      have late := (Pace.untilBlank_bounds cleared.lcd).2
      simp only [Access.sinceRestart_nil, longestWait]
      omega
    · intro early late split
      obtain ⟨rfl, _⟩ := List.nil_eq_append_iff.mp split
      decide
  exact often_of_continueFrame [] start rfl ran

theorem eq_of_step {result : Except Fault Nat} (stepped : c.step = (result, next)) :
    { c with machine := next.machine } = next := by
  simp only [step] at stepped
  cases stepped
  rfl

/-- A frame that is counted to its end is a run of steps, of which only the last ends it. -/
theorem steps_of_continueFrame (ran : c.continueFrame elapsed = (.ok total, last)) (before : Array Nat) :
    ∃ (n : Nat) (counts : Array Nat) (almost ended : Machine Board) (cycles : Nat),
      Machine.repeatSteps Machine.step n before c.machine = (.ok counts, almost) ∧
      almost.step = (.ok cycles, ended) ∧ counts.sum + cycles + elapsed = before.sum + total ∧
      last = ({ c with machine := ended } : Console).clearFrame ∧
      ({ c with machine := ended } : Console).endsFrame total = true ∧
      (c.frameReady = false → almost.bus.lcd.frameReady = false) := by
  fun_induction continueFrame elapsed c generalizing before with
  | case1 | case4 => cases ran
  | case2 elapsed c cycles next stepped within ends =>
    cases ran
    refine ⟨0, before, c.machine, next.machine, cycles, rfl, machine_of_step stepped, by omega, ?_, ?_, id⟩
    · rw [eq_of_step stepped]
    · rw [eq_of_step stepped]
      exact ends
  | case3 elapsed c cycles next stepped within goesOn ih =>
    obtain ⟨n, counts, almost, ended, more, run, final, counted, cleared, ends, waiting⟩ :=
      ih ran (before.push cycles)
    have same : { c with machine := ended } = { next with machine := ended } := by rw [← eq_of_step stepped]
    rw [Array.sum_push] at counted
    refine ⟨n + 1, counts, almost, ended, more, ?_, final, by omega, ?_, ?_, fun _ => waiting ?_⟩
    · simp only [Machine.repeatSteps, machine_of_step stepped]
      exact run
    · rw [same]
      exact cleared
    · rw [same]
      exact ends
    · simp only [endsFrame, Bool.or_eq_true, not_or, Bool.not_eq_true] at goesOn
      exact goesOn.1.1

theorem repeatSteps_concat {n cycles : Nat} {before counts : Array Nat} {m mid after : Machine Board}
    (ran : Machine.repeatSteps Machine.step n before m = (.ok counts, mid)) (stepped : mid.step = (.ok cycles, after)) :
    Machine.repeatSteps Machine.step (n + 1) before m = (.ok (counts.push cycles), after) := by
  induction n generalizing before m with
  | zero =>
    cases ran
    simp only [Machine.repeatSteps, stepped]
  | succ n ih =>
    rw [Machine.repeatSteps] at ran ⊢
    generalize m.step = x at ran ⊢
    obtain ⟨result, next⟩ := x
    cases result with
    | error fault => cases ran
    | ok first => exact ih ran

/-- A frame that is counted to its end ends in one of three ways. -/
theorem exit_of_runFrame (ran : c.runFrame = (.ok total, last)) :
    ∃ (n : Nat) (counts : Array Nat) (ended : Console), c.clearFrame.stepMany n = (.ok counts, ended) ∧
      c.runFrame = (.ok counts.sum, ended.clearFrame) ∧
      (ended.frameReady = true ∨ ended.machine.cpu.stopped = true ∨
        (ended.board.lcd.enabled = false ∧ frameCycles ≤ counts.sum)) := by
  obtain ⟨n, counts, almost, ended, cycles, run, final, counted, cleared, ends, _⟩ :=
    steps_of_continueFrame ran #[]
  have whole := repeatSteps_concat run final
  have sum : (counts.push cycles).sum = total := by
    rw [Array.sum_push]
    rw [Array.sum_empty] at counted
    omega
  refine ⟨n + 1, counts.push cycles, { c.clearFrame with machine := ended }, ?_, ?_, ?_⟩
  · simp only [stepMany, whole]
  · rw [ran, sum, cleared]
  · rw [sum]
    simp only [endsFrame, Bool.or_eq_true, Bool.and_eq_true, Bool.not_eq_true', decide_eq_true_eq] at ends
    rcases ends with (ready | stopped) | dark
    · exact .inl ready
    · exact .inr (.inl stopped)
    · exact .inr (.inr dark)

/-- A frame comes back: at the vertical blank, at a stop, after the time of a picture while the LCD is off, or
at an opcode that means nothing. Else the timer has fallen behind, or the program has taken the LCD back to the
top of the picture in every stretch of two pictures, until the cycles of the frame could not be counted. -/
theorem runFrame_exits (reachable : c.Reachable) :
    (∃ (n : Nat) (counts : Array Nat) (ended : Console), c.clearFrame.stepMany n = (.ok counts, ended) ∧
      c.runFrame = (.ok counts.sum, ended.clearFrame) ∧
      (ended.frameReady = true ∨ ended.machine.cpu.stopped = true ∨
        (ended.board.lcd.enabled = false ∧ frameCycles ≤ counts.sum))) ∨
    (∃ stuck : Console, stuck.Stuck ∧ c.runFrame = (.error stuck.stuckFault, stuck)) ∨
    FallsBehind c.runFrame ∨
    (c.runFrame.1 = .error .frameOverflow ∧ frameLimit < Access.total c.frameTraffic ∧
      ∀ before stretch after : List Access, c.frameTraffic = before ++ stretch ++ after →
        2 * frameCycles ≤ Access.total stretch → ∃ access ∈ stretch, access.restarts = true) := by
  generalize ran : c.runFrame = x
  obtain ⟨result, rest⟩ := x
  cases result with
  | ok total => exact .inl (ran ▸ exit_of_runFrame ran)
  | error fault =>
    rcases explains_of_runFrame reachable.sound ran with rfl | explained
    · obtain ⟨often, beyond⟩ := often_of_runFrame reachable.sound (congrArg Prod.fst ran)
      refine .inr (.inr (.inr ⟨rfl, beyond, ?_⟩))
      intro before stretch after split long
      exact RestartsOften.exists_restart (split ▸ often) long
    · cases explained with
      | stuck stuck => exact .inr (.inl ⟨rest, stuck, rfl⟩)
      | behind late => exact .inr (.inr (.inl ⟨rfl, late⟩))

/-- The loop that restarts the picture ends its frame by the count of its cycles. -/
theorem runFrame_exits_by_count : ∃ c : Console, c.Reachable ∧ c.runFrame.1 = .error .frameOverflow ∧
    frameLimit < Access.total c.frameTraffic ∧
    ∀ before stretch after : List Access, c.frameTraffic = before ++ stretch ++ after →
      2 * frameCycles ≤ Access.total stretch → ∃ access ∈ stretch, access.restarts = true := by
  obtain ⟨c, reachable, loops⟩ := Restarting.exists_loops
  have uncounted : c.runFrame.1 = .error .frameOverflow := loops.clearFrame.continueFrame
  rcases runFrame_exits reachable with ⟨_, _, _, _, ran, _⟩ | ⟨_, _, ran⟩ | ⟨behind, _⟩ | beyond
  · rw [ran] at uncounted
    cases uncounted
  · rw [ran] at uncounted
    cases uncounted
  · cases uncounted.symm.trans behind
  · exact ⟨c, reachable, beyond⟩

/-- A frame need not end at a blank, at a stop, with the LCD off or at a meaningless opcode: after any number of
steps of the loop none of these has come, and the call only ends since its cycles can no longer be counted. -/
theorem frame_never_ends : ∃ c : Console, c.Reachable ∧ c.runFrame.1 = .error .frameOverflow ∧
    ∀ n, ∃ counts last, c.clearFrame.stepMany n = (.ok counts, last) ∧ last.frameReady = false ∧
      last.machine.cpu.stopped = false ∧ last.board.lcd.enabled = true := by
  obtain ⟨c, reachable, loops⟩ := Restarting.exists_loops
  refine ⟨c, reachable, loops.clearFrame.continueFrame, fun n => ?_⟩
  obtain ⟨counts, last, ran, still⟩ := loops.clearFrame.repeatSteps n #[]
  refine ⟨counts, { c.clearFrame with machine := last }, ?_, still.goesOn⟩
  simp only [stepMany, ran]

end Console
end DotMatrix
