import DotMatrix.Proofs.Console.QuietSteps

/-!
Frames one after the other. From one vertical blank to the next a console that leaves the LCD to itself
counts down the cycles of a picture, and the step that reaches the blank ends the frame.
-/

namespace DotMatrix

/-- Nothing is written to the addresses, and the processor neither stops nor fails. -/
structure Quiet (addresses : List UInt16) (seen : List Access) : Prop where
  spares : Spares addresses seen
  goesOn : ∀ access ∈ seen, access.halts = false

theorem quiet_append {addresses : List UInt16} {first second : List Access} :
    Quiet addresses (first ++ second) ↔ Quiet addresses first ∧ Quiet addresses second := by
  constructor
  · rintro ⟨spares, goesOn⟩
    rw [spares_append] at spares
    rw [List.forall_mem_append] at goesOn
    exact ⟨⟨spares.1, goesOn.1⟩, ⟨spares.2, goesOn.2⟩⟩
  · rintro ⟨first, second⟩
    exact ⟨spares_append.mpr ⟨first.spares, second.spares⟩,
      List.forall_mem_append.mpr ⟨first.goesOn, second.goesOn⟩⟩

namespace Console

def continueTraffic (elapsed : Nat) (c : Console) : List Access :=
  c.machine.traffic ++
    match _stepped : c.step with
    | (.error _, _) => []
    | (.ok cycles, next) =>
      if elapsed + cycles ≤ frameLimit then
        if next.endsFrame (elapsed + cycles) then [] else continueTraffic (elapsed + cycles) next
      else []
termination_by frameBudget elapsed c
decreasing_by exact frameBudget_lt (pos_of_step _stepped) ‹_› ‹_›

def frameTraffic (c : Console) : List Access := c.clearFrame.continueTraffic 0

def runFrames : Nat → Console → Except Fault (List Nat) × Console
  | 0, c => (.ok [], c)
  | n + 1, c =>
    match c.runFrame with
    | (.error fault, next) => (.error fault, next)
    | (.ok cycles, next) =>
      let (counts, last) := runFrames n next
      (counts.map (cycles :: ·), last)

def framesTraffic : Nat → Console → List Access
  | 0, _ => []
  | n + 1, c =>
    c.frameTraffic ++ match c.runFrame with
      | (.error _, _) => []
      | (.ok _, next) => framesTraffic n next

def offset (c : Console) : Int := 456 - c.board.lcd.countdown

structure Awaits (start : Int) (elapsed : Nat) (c : Console) : Prop where
  sound : c.board.Sound
  on : c.board.lcd.pace.enabled = true
  waiting : c.board.lcd.pace.frameReady = false
  running : c.machine.cpu.stopped = false
  ahead : c.board.lcd.pace.untilBlank + elapsed = start

structure AtBlank (c : Console) : Prop where
  sound : c.board.Sound
  on : c.board.lcd.pace.enabled = true
  running : c.machine.cpu.stopped = false
  line : c.board.lcd.line.toNat = 144
  offset_le : c.offset ≤ 43

/-- The run has failed since the timer is too far behind to count a batch. -/
def FallsBehind {α : Type} (result : Except Fault α × Console) : Prop :=
  result.1 = .error .countdownOverflow ∧ result.2.board.timer.Behind

def PacedFor (n : Nat) (c : Console) (Good : List Nat → Console → Prop) : Prop :=
  FallsBehind (c.runFrames n) ∨
    ∃ counts last, c.runFrames n = (.ok counts, last) ∧ counts.length = n ∧ Good counts last

theorem machine_of_step {c next : Console} {result : Except Fault Nat} (stepped : c.step = (result, next)) :
    c.machine.step = (result, next.machine) := by
  obtain ⟨machine, keeper⟩ := c
  simp only [step] at stepped
  cases stepped
  rfl

theorem step_of_machine {c : Console} {result : Except Fault Nat} {next : Machine Board}
    (stepped : c.machine.step = (result, next)) : c.step = (result, { c with machine := next }) := by
  simp only [Console.step, stepped]

theorem AtBlank.untilBlank {c : Console} (h : c.AtBlank) :
    c.board.lcd.pace.untilBlank = frameCycles - c.offset := by
  have line := h.line
  simp only [Pace.untilBlank, Pace.position, offset, screenHeight, Lcd.lineCycles, frameCycles, Lcd.pace]
  omega

theorem AtBlank.awaits {c : Console} (h : c.AtBlank) :
    c.clearFrame.Awaits (frameCycles - c.offset) 0 := by
  refine ⟨h.sound.clearFrame, h.on, rfl, h.running, ?_⟩
  have distance := h.untilBlank
  change c.board.lcd.pace.untilBlank + (0 : Nat) = _
  omega

/-- Where a frame ends that has taken some cycles. -/
theorem atBlank_of_late {c : Console} (sound : c.board.Sound) (on : c.board.lcd.pace.enabled = true)
    (running : c.machine.cpu.stopped = false) (late : Int) (upper : late ≤ 43)
    (distance : c.board.lcd.pace.untilBlank = frameCycles - late) : c.AtBlank ∧ c.offset = late := by
  have last := sound.lcd.line_le
  have positive := sound.lcd.positive
  have line := sound.lcd.le_line
  have place : c.board.lcd.line.toNat = 144 ∧ c.offset = late := by
    simp only [Pace.untilBlank, Pace.position, offset, screenHeight, Lcd.lastLine, Lcd.lineCycles, frameCycles,
      Lcd.pace] at *
    omega
  exact ⟨⟨sound, on, running, place.1, place.2 ▸ upper⟩, place.2⟩

theorem continueTraffic_error {elapsed : Nat} {c next : Console} {fault : Fault}
    (stepped : c.step = (.error fault, next)) : c.continueTraffic elapsed = c.machine.traffic := by
  rw [continueTraffic]
  split
  next => exact List.append_nil _
  next other => cases stepped.symm.trans other

theorem continueTraffic_ok {elapsed cycles : Nat} {c next : Console} (stepped : c.step = (.ok cycles, next)) :
    c.continueTraffic elapsed = c.machine.traffic ++
      if elapsed + cycles ≤ frameLimit then
        if next.endsFrame (elapsed + cycles) then [] else next.continueTraffic (elapsed + cycles)
      else [] := by
  rw [continueTraffic]
  split
  next other => cases stepped.symm.trans other
  next other => cases stepped.symm.trans other; rfl

theorem Awaits.goesOn {start : Int} {elapsed : Nat} {c : Console} (h : c.Awaits start elapsed) :
    c.endsFrame elapsed = false := by
  have waiting : c.frameReady = false := h.waiting
  have on : c.board.lcd.enabled = true := h.on
  rw [endsFrame, waiting, h.running, on]
  rfl

/-- A step either leaves the blank ahead or ends the frame. -/
theorem Awaits.step {start : Int} {elapsed cycles : Nat} {c next : Console} (h : c.Awaits start elapsed)
    (stepped : c.step = (.ok cycles, next)) (quiet : Quiet [0xFF40, 0xFF44] c.machine.traffic) :
    next.Awaits start (elapsed + cycles) ∨
      (next.endsFrame (elapsed + cycles) = true ∧ next.clearFrame.AtBlank ∧
        ((elapsed + cycles : Nat) : Int) = start + next.clearFrame.offset) := by
  have moved := machine_of_step stepped
  have sound := step_keeps Board.sound_invariant h.sound
  have running := Machine.running_of_step h.running quiet.goesOn
  have short := Machine.step_le (congrArg Prod.fst moved)
  obtain ⟨soon, _⟩ := Pace.untilBlank_bounds h.sound.lcd
  have ahead := h.ahead
  rw [stepped] at sound
  rw [moved] at running
  simp only [longestBatch, Interrupt.dispatchCycles] at short
  obtain ⟨on, waiting⟩ := Machine.blank_step h.sound h.on h.waiting moved quiet.spares
  change next.board.lcd.pace.enabled = true at on
  change (next.board.lcd.pace.frameReady = false ∧
      next.board.lcd.pace.untilBlank = c.board.lcd.pace.untilBlank - cycles) ∨
    (next.board.lcd.pace.frameReady = true ∧
      next.board.lcd.pace.untilBlank = c.board.lcd.pace.untilBlank - cycles + frameCycles) at waiting
  rcases waiting with ⟨waiting, nearer⟩ | ⟨ready, reached⟩
  · exact .inl ⟨sound, on, waiting, running, by omega⟩
  · obtain ⟨blank, late⟩ := atBlank_of_late (c := next.clearFrame)
      sound.clearFrame on running (elapsed + cycles - start)
      (by omega) (by
        change next.board.lcd.pace.untilBlank = _
        omega)
    refine .inr ⟨?_, blank, by omega⟩
    rw [endsFrame, show next.frameReady = true from ready]
    rfl

theorem Awaits.within {start : Int} {elapsed cycles : Nat} {c next : Console} (h : c.Awaits start elapsed)
    (early : start ≤ frameCycles) (stepped : c.step = (.ok cycles, next)) :
    elapsed + cycles ≤ frameLimit := by
  have short := Machine.step_le (congrArg Prod.fst (machine_of_step stepped))
  obtain ⟨soon, _⟩ := Pace.untilBlank_bounds h.sound.lcd
  have ahead := h.ahead
  simp only [longestBatch, Interrupt.dispatchCycles, frameCycles, Lcd.lineCycles, frameLimit] at *
  omega

/-- A frame that leaves the LCD to itself ends with the step that reaches the blank. -/
theorem continueFrame_reaches {start : Int} {elapsed : Nat} {c : Console} (early : start ≤ frameCycles)
    (h : c.Awaits start elapsed) (quiet : Quiet [0xFF40, 0xFF44] (c.continueTraffic elapsed)) :
    FallsBehind (c.continueFrame elapsed) ∨
      ∃ total last, c.continueFrame elapsed = (.ok total, last) ∧ last.AtBlank ∧ total = start + last.offset := by
  fun_induction continueFrame elapsed c with
  | case1 elapsed c fault next stepped =>
    rw [continueTraffic_error stepped] at quiet
    obtain ⟨rfl, behind⟩ := Machine.behind_of_step h.sound (machine_of_step stepped) quiet.goesOn
    exact .inl ⟨rfl, behind⟩
  | case2 elapsed c cycles next stepped within ends =>
    rw [continueTraffic_ok stepped] at quiet
    rcases h.step stepped (quiet_append.mp quiet).1 with awaits | ⟨_, blank, total⟩
    · exact absurd (awaits.goesOn.symm.trans ends) (by decide)
    · exact .inr ⟨_, _, rfl, blank, total⟩
  | case3 elapsed c cycles next stepped within goesOn ih =>
    rw [continueTraffic_ok stepped, if_pos within, if_neg goesOn] at quiet
    obtain ⟨here, later⟩ := quiet_append.mp quiet
    rcases h.step stepped here with awaits | ⟨ends, _⟩
    · exact ih awaits later
    · exact absurd ends goesOn
  | case4 elapsed c cycles next stepped beyond => exact absurd (h.within early stepped) beyond

theorem AtBlank.offset_nonneg {c : Console} (h : c.AtBlank) : 0 ≤ c.offset := by
  have line : c.board.lcd.countdown ≤ 456 := h.sound.lcd.le_line
  unfold offset
  omega

/-- One frame takes the time of a picture, less the lateness of the frame before, and its own lateness. -/
theorem AtBlank.runFrame {c : Console} (h : c.AtBlank) (quiet : Quiet [0xFF40, 0xFF44] c.frameTraffic) :
    FallsBehind c.runFrame ∨
      ∃ total last, c.runFrame = (.ok total, last) ∧ last.AtBlank ∧
        (total : Int) = 70224 - c.offset + last.offset := by
  have early := h.offset_nonneg
  have whole : (frameCycles : Int) = 70224 := rfl
  rcases continueFrame_reaches (by omega) h.awaits quiet with behind | ⟨total, last, ran, blank, late⟩
  · exact .inl behind
  · exact .inr ⟨total, last, ran, blank, by omega⟩

theorem offset_of_continueFrame {elapsed : Nat} {c : Console} (sound : c.board.Sound)
    (waiting : c.frameReady = false) {total : Nat} {last : Console} :
    c.continueFrame elapsed = (.ok total, last) → last.board.lcd.line.toNat = 144 →
      last.board.lcd.enabled = true → last.machine.cpu.stopped = false → last.offset ≤ 43 := by
  fun_induction continueFrame elapsed c with
  | case1 | case4 =>
    intro ran
    cases ran
  | case2 elapsed c cycles next stepped within ends =>
    intro ran line on running
    cases ran
    have ready : next.frameReady = true := by
      have still : next.machine.cpu.stopped = false := running
      have lit : next.board.lcd.enabled = true := on
      rw [endsFrame, still, lit] at ends
      simpa using ends
    have moved := machine_of_step stepped
    have short := Machine.step_le (congrArg Prod.fst moved)
    have fresh := Machine.fresh_step sound waiting moved ready on line
    simp only [longestBatch, Interrupt.dispatchCycles] at short
    change (456 : Int) - next.board.lcd.countdown < cycles at fresh
    change (456 : Int) - next.board.lcd.countdown ≤ 43
    omega
  | case3 elapsed c cycles next stepped within goesOn ih =>
    have kept := step_keeps Board.sound_invariant sound
    rw [stepped] at kept
    apply ih kept
    cases ready : next.frameReady with
    | false => rfl
    | true => exact absurd (by rw [endsFrame, ready]; rfl) goesOn

theorem sound_runFrame {c : Console} (h : c.board.Sound) : c.runFrame.2.board.Sound := sound_after h .runFrame

theorem atBlank_of_runFrame {before c : Console} {total : Nat} (sound : before.board.Sound)
    (ran : before.runFrame = (.ok total, c)) (line : c.board.lcd.line.toNat = 144)
    (on : c.board.lcd.enabled = true) (running : c.machine.cpu.stopped = false) : c.AtBlank := by
  have kept := sound_runFrame sound
  rw [ran] at kept
  have cleared : before.clearFrame.board.Sound := sound.clearFrame
  exact ⟨kept, on, running, line, offset_of_continueFrame cleared rfl ran line on running⟩

/-- What holds of each frame, and goes from frame to frame, holds of any number of them. -/
theorem pacedFor_of_frames {addresses : List UInt16} (Fit : Console → Prop)
    (Good : Console → List Nat → Console → Prop) (none : ∀ {c}, Fit c → Good c [] c)
    (frame : ∀ {c : Console}, Fit c → Quiet addresses c.frameTraffic →
      FallsBehind c.runFrame ∨ ∃ total next, c.runFrame = (.ok total, next) ∧ Fit next ∧
        ∀ counts last, Good next counts last → Good c (total :: counts) last)
    (n : Nat) {c : Console} (fit : Fit c) (quiet : Quiet addresses (c.framesTraffic n)) :
    PacedFor n c (Good c) := by
  induction n generalizing c with
  | zero => exact .inr ⟨[], c, rfl, rfl, none fit⟩
  | succ n ih =>
    simp only [framesTraffic] at quiet
    obtain ⟨here, later⟩ := quiet_append.mp quiet
    rcases frame fit here with ⟨failed, behind⟩ | ⟨total, next, ran, fits, further⟩
    · left
      unfold FallsBehind
      simp only [runFrames]
      generalize c.runFrame = x at failed behind
      obtain ⟨result, rest⟩ := x
      cases failed
      exact ⟨rfl, behind⟩
    · rw [ran] at later
      rcases ih fits later with ⟨failed, behind⟩ | ⟨counts, last, rest, length, holds⟩
      · left
        unfold FallsBehind
        rw [runFrames, ran]
        simp only [failed]
        exact ⟨rfl, behind⟩
      · refine .inr ⟨total :: counts, last, ?_, congrArg Nat.succ length, further counts last holds⟩
        simp only [runFrames, ran, rest]
        rfl

/-- Some frames that vertical blanks have ended: their times add up to whole pictures, but for how late
the console `c` and the last frame were. -/
structure OnTime (c : Console) (counts : List Nat) (last : Console) : Prop where
  line : last.board.lcd.line.toNat = 144
  offset_nonneg : 0 ≤ last.offset
  offset_le : last.offset ≤ 43
  total : (counts.sum : Int) = counts.length * 70224 + last.offset - c.offset
  each : ∀ count ∈ counts, 70224 - 43 ≤ count ∧ count ≤ 70224 + 43

theorem AtBlank.paced {c : Console} (h : c.AtBlank) (n : Nat)
    (quiet : Quiet [0xFF40, 0xFF44] (c.framesTraffic n)) : PacedFor n c c.OnTime := by
  refine pacedFor_of_frames AtBlank OnTime ?_ ?_ n h quiet
  · intro c blank
    exact ⟨blank.line, blank.offset_nonneg, blank.offset_le, by simp, by simp⟩
  · intro c blank here
    rcases blank.runFrame here with behind | ⟨total, next, ended, reached, time⟩
    · exact .inl behind
    · refine .inr ⟨total, next, ended, reached, fun counts last rest => ?_⟩
      have first := blank.offset_nonneg
      have second := reached.offset_nonneg
      have soon := blank.offset_le
      have late := reached.offset_le
      have total := rest.total
      refine ⟨rest.line, rest.offset_nonneg, rest.offset_le, ?_, ?_⟩
      · rw [List.sum_cons, List.length_cons]
        omega
      · rw [List.forall_mem_cons]
        exact ⟨by omega, rest.each⟩

end Console
end DotMatrix
