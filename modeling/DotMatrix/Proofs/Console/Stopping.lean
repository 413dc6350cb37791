import DotMatrix.Proofs.Console.Brink

/-!
A stopped console. From the end of the step that stops it nothing moves until a button whose interrupt is enabled
asks for its service; then the next step goes on, with the routine of the button if interrupts are served.
-/

namespace DotMatrix

namespace Console

def Call.passesTime : Call → Bool
  | .step | .runFrame => true
  | _ => false

def Call.movesButton : Call → Bool
  | .press _ | .release _ => true
  | _ => false

def Call.pressesButton : Call → Bool
  | .press _ => true
  | _ => false

/-- The console is stopped, and no interrupt is waiting to be served. -/
structure Rests (c : Console) : Prop where
  afloat : c.Afloat
  stopped : c.machine.cpu.stopped = true
  idle : ¬(c.machine.cpu.ime = true ∧ c.board.pending ≠ 0)

variable {before c : Console} {cycles : Nat}

theorem rests_of_step (before : Console) (afloat : before.Afloat) (stopped : before.step.2.machine.cpu.stopped = true) :
    before.step.2.Rests :=
  ⟨afloat.step, stopped, (Machine.stopped_of_step afloat.board stopped).1⟩

theorem Rests.clearFrame (h : c.Rests) : c.clearFrame.Rests := ⟨h.afloat.clearFrame, h.stopped, h.idle⟩

theorem rests_of_continueFrame (elapsed : Nat) (afloat : before.Afloat)
    (stopped : (before.continueFrame elapsed).2.machine.cpu.stopped = true) :
    (before.continueFrame elapsed).2.Rests := by
  fun_induction Console.continueFrame elapsed before with
  | case1 elapsed before fault next stepped
  | case4 elapsed before cycles next stepped =>
    have rests := rests_of_step before
    rw [stepped] at rests
    exact rests afloat stopped
  | case2 elapsed before cycles next stepped =>
    have rests := rests_of_step before
    rw [stepped] at rests
    exact (rests afloat stopped).clearFrame
  | case3 elapsed before cycles next stepped _ _ ih =>
    have kept := afloat.step
    rw [stepped] at kept
    exact ih kept stopped

/-- Without a button that asks for its service a step changes nothing and takes no time. -/
theorem Rests.step (h : c.Rests) (quiet : c.board.enables &&& c.board.requests &&& 0x10 = 0) :
    c.step = (.ok 0, c) := by
  have asleep : ¬Byte.has c.machine.bus.pending 0x10 = true := by
    have same : c.board.pending &&& 0x10 = c.board.enables &&& c.board.requests &&& 0x10 := UInt8.and_assoc ..
    rw [quiet] at same
    rw [Byte.has, show c.machine.bus.pending &&& 0x10 = 0 from same]
    decide
  have cpu : c.machine.stepCpu = (.ok 0, c.machine) := by
    rw [Machine.stepCpu, if_pos h.stopped, Machine.stepStopped_eq, if_neg asleep]
  have ticked : c.machine.bus.tick 0 = (.ok (), c.machine.bus) := rfl
  exact step_of_machine ((Machine.step_of_batch cpu ticked h.afloat.board.sound).1 h.idle)

theorem Rests.runFrame (h : c.Rests) (quiet : c.board.enables &&& c.board.requests &&& 0x10 = 0) :
    c.runFrame = (.ok 0, c.clearFrame) := by
  have still : c.clearFrame.step = (.ok 0, c.clearFrame) := h.clearFrame.step quiet
  have ends : c.clearFrame.endsFrame 0 = true := by
    rw [endsFrame, show c.clearFrame.machine.cpu.stopped = true from h.stopped, Bool.or_true, Bool.true_or]
  rw [Console.runFrame, continueFrame]
  split
  next failed => cases failed.symm.trans still
  next passed =>
    cases passed.symm.trans still
    rw [if_pos (Nat.zero_le frameLimit), if_pos ends]
    rfl

/-- Time passes without a trace, but for the flag that a frame takes back. -/
theorem Rests.afterAll_time (h : c.Rests) (quiet : c.board.enables &&& c.board.requests &&& 0x10 = 0)
    {calls : List Call} (pass : ∀ call ∈ calls, call.passesTime = true) :
    c.afterAll calls = c ∨ c.afterAll calls = c.clearFrame := by
  induction calls generalizing c with
  | nil => exact .inl rfl
  | cons call rest ih =>
    obtain ⟨here, later⟩ := List.forall_mem_cons.mp pass
    change (c.after call).afterAll rest = _ ∨ (c.after call).afterAll rest = _
    cases call with
    | step =>
      rw [show c.after .step = c from congrArg Prod.snd (h.step quiet)]
      exact ih h quiet later
    | runFrame =>
      rw [show c.after .runFrame = c.clearFrame from congrArg Prod.snd (h.runFrame quiet)]
      -- the flag can be taken back only once
      exact .inr ((ih h.clearFrame quiet later).elim id id)
    | _ => cases here

structure Resting (c d : Console) : Prop where
  rests : d.Rests
  cpu : d.machine.cpu = c.machine.cpu
  deaf : d.board.enables &&& 0x10 = 0

theorem Resting.quiet {d : Console} (h : c.Resting d) : d.board.enables &&& d.board.requests &&& 0x10 = 0 := by
  rw [UInt8.and_assoc, UInt8.and_comm d.board.requests, ← UInt8.and_assoc, h.deaf, UInt8.zero_and]

theorem pending_press (button : Button) (b : Board) :
    (b.press button).pending = b.pending ||| b.enables &&& 0x10 := by
  have mask : Interrupt.joypad.mask &&& 0x1F = 0x10 := rfl
  change b.enables &&& (b.requests ||| Interrupt.joypad.mask) &&& 0x1F = _
  rw [UInt8.and_comm b.enables, Byte.or_and, Byte.or_and, UInt8.and_comm Interrupt.joypad.mask,
    UInt8.and_assoc b.enables, mask, UInt8.and_comm b.requests]
  rfl

theorem Resting.after {d : Console} (h : c.Resting d) {call : Call}
    (patient : call.passesTime = true ∨ call.movesButton = true) : c.Resting (d.after call) := by
  have quiet := h.quiet
  cases call with
  | step =>
    rw [show d.after .step = d from congrArg Prod.snd (h.rests.step quiet)]
    exact h
  | runFrame =>
    rw [show d.after .runFrame = d.clearFrame from congrArg Prod.snd (h.rests.runFrame quiet)]
    exact ⟨h.rests.clearFrame, h.cpu, h.deaf⟩
  | press button =>
    have same : (d.board.press button).pending = d.board.pending := by rw [pending_press, h.deaf, UInt8.or_zero]
    refine ⟨⟨h.rests.afloat.after (.press button), h.rests.stopped, ?_⟩, h.cpu, h.deaf⟩
    rintro ⟨served, asked⟩
    exact h.rests.idle ⟨served, same ▸ asked⟩
  | release button => exact ⟨⟨h.rests.afloat.after (.release button), h.rests.stopped, h.rests.idle⟩, h.cpu, h.deaf⟩
  | _ => rcases patient with time | moves <;> contradiction

theorem Resting.afterAll {d : Console} (h : c.Resting d) {calls : List Call}
    (patient : ∀ call ∈ calls, call.passesTime = true ∨ call.movesButton = true) : c.Resting (d.afterAll calls) := by
  induction calls generalizing d with
  | nil => exact h
  | cons call rest ih =>
    obtain ⟨here, later⟩ := List.forall_mem_cons.mp patient
    exact ih (h.after here) later

structure Nudged (c d : Console) (pressed : Bool) : Prop where
  afloat : d.Afloat
  cpu : d.machine.cpu = c.machine.cpu
  timer : d.board.timer = c.board.timer
  enables : d.board.enables = c.board.enables
  pending : d.board.pending = c.board.pending ||| if pressed then c.board.enables &&& 0x10 else 0

theorem Nudged.after {d : Console} {pressed : Bool} (h : c.Nudged d pressed) {call : Call}
    (moves : call.movesButton = true) : c.Nudged (d.after call) (pressed || call.pressesButton) := by
  cases call with
  | press button =>
    refine ⟨h.afloat.after (.press button), h.cpu, h.timer, h.enables, ?_⟩
    change (d.board.press button).pending = _
    rw [pending_press, h.pending, h.enables, UInt8.or_assoc, show (Call.press button).pressesButton = true from rfl,
      Bool.or_true, if_pos rfl]
    cases pressed with
    | false => rw [if_neg Bool.false_ne_true, UInt8.zero_or]
    | true => rw [if_pos rfl, UInt8.or_self]
  | release button =>
    rw [show (Call.release button).pressesButton = false from rfl, Bool.or_false]
    exact ⟨h.afloat.after (.release button), h.cpu, h.timer, h.enables, h.pending⟩
  | _ => cases moves

theorem Nudged.afterAll {d : Console} {pressed : Bool} (h : c.Nudged d pressed) {events : List Call}
    (move : ∀ event ∈ events, event.movesButton = true) :
    c.Nudged (d.afterAll events) (pressed || events.any Call.pressesButton) := by
  induction events generalizing d pressed with
  | nil =>
    rw [List.any_nil, Bool.or_false]
    exact h
  | cons event rest ih =>
    obtain ⟨here, later⟩ := List.forall_mem_cons.mp move
    rw [List.any_cons, ← Bool.or_assoc]
    exact ih (h.after here) later

theorem firstIn_joypad {source : Interrupt} {byte : UInt8} (first : source.FirstIn (byte &&& 0x10)) :
    source = .joypad := by
  have named := first.named
  rw [Byte.has, UInt8.and_assoc] at named
  cases source with
  | joypad => rfl
  | _ => exact absurd named (by rw [show (0x10 : UInt8) &&& _ = 0 from rfl, UInt8.and_zero]; decide)

def awakened (c p : Console) : Machine Board :=
  ⟨{ c.machine.cpu with stopped := false }, p.board.note CpuEvent.leavesStop⟩

theorem Nudged.stepCpu {p : Console} (rests : c.Rests) (enabled : c.board.enables &&& 0x10 ≠ 0)
    (h : c.Nudged p true) :
    p.machine.stepCpu = (.ok 0, awakened c p) := by
  have stopped : p.machine.cpu.stopped = true := (congrArg Cpu.stopped h.cpu).trans rests.stopped
  have asked : Byte.has p.machine.bus.pending 0x10 = true := by
    have named : p.board.pending &&& 0x10 = c.board.pending &&& 0x10 ||| c.board.enables &&& 0x10 := by
      rw [h.pending, if_pos rfl, Byte.or_and, UInt8.and_assoc c.board.enables]
      rfl
    rw [Byte.has, show p.machine.bus.pending &&& 0x10 = _ from named]
    apply bne_iff_ne.mpr
    intro none
    exact enabled (UInt8.or_eq_zero_iff.mp none).2
  rw [Machine.stepCpu, if_pos stopped, Machine.stepStopped_eq, if_pos asked, awakened, ← h.cpu]
  rfl

/-- With interrupts served the step behind a press enters the routine of the buttons, if the counter has room. -/
theorem Nudged.serves {p : Console} (rests : c.Rests) (enabled : c.board.enables &&& 0x10 ≠ 0) (h : c.Nudged p true)
    (served : c.machine.cpu.ime = true) :
    let entry := (awakened c p).handed .joypad
    (¬entry.timer.Overdrawn 20 →
      p.step = (.ok 20, { p with machine := ⟨Machine.entered .joypad c.machine.cpu, (entry.tick 20).2⟩ })) ∧
    (entry.timer.Overdrawn 20 → p.step.1 = .error .countdownOverflow) := by
  have pending : (awakened c p).bus.pending = c.board.enables &&& 0x10 := by
    have none : c.board.pending = 0 := by
      by_contra asked
      exact rests.idle ⟨served, asked⟩
    rw [show (awakened c p).bus.pending = p.board.pending from rfl, h.pending, none, if_pos rfl, UInt8.zero_or]
  have sound : (awakened c p).bus.Sound := h.afloat.board.sound.note _
  have waits : (awakened c p).bus.tick 0 = (.ok (), (awakened c p).bus) := rfl
  obtain ⟨source, first, enters, fails⟩ :=
    (Machine.step_of_batch (h.stepCpu rests enabled) waits sound).2 served (by rw [pending]; exact enabled)
  rw [pending] at first
  obtain rfl := firstIn_joypad first
  exact ⟨fun room => step_of_machine (enters room), fails⟩

theorem overdrawn_press {x : Int} (poised : Brink.Poised x c) :
    ((awakened c (c.after (.press .a))).handed .joypad).timer.Overdrawn 20 ↔ x < 20 - 2 ^ 31 := by
  have off : Brink.Off x (awakened c (c.after (.press .a))).bus.timer := poised.off
  exact Brink.overdrawn_handed { c.machine.cpu with stopped := false } poised.at_pc poised.sp off .joypad

/-- A stop freezes the console. At the end of the step or the frame in which it has stopped, (1) no interrupt is waiting
to be served. (2) Unless the button is requested and enabled, steps and frames take no time and change nothing but
the flag of the frame. (3) Unless the interrupt of the buttons is enabled, nothing that is done with buttons, steps and
frames moves the processor. (4) If it is enabled, the first step behind a press takes no time and lets the processor
go on where it was, or enters the routine of the buttons; that fails only if what is laid on the stack switches on a
counter that has been off, and has too little room for the entry. -/
theorem stop_lasts_until_button (reachable : before.Reachable)
    (ended : before.step = (.ok cycles, c) ∨ before.runFrame = (.ok cycles, c))
    (stopped : c.machine.cpu.stopped = true) :
    (c.machine.cpu.ime = false ∨ c.board.pending = 0) ∧
    (c.board.enables &&& c.board.requests &&& 0x10 = 0 →
      ∀ calls : List Call, (∀ call ∈ calls, call.passesTime = true) →
        let d := c.afterAll calls
        (d = c ∨ d = c.clearFrame) ∧ d.step = (.ok 0, d) ∧ d.runFrame = (.ok 0, d.clearFrame)) ∧
    (c.board.enables &&& 0x10 = 0 →
      ∀ calls : List Call, (∀ call ∈ calls, call.passesTime = true ∨ call.movesButton = true) →
        let d := c.afterAll calls
        d.machine.cpu = c.machine.cpu ∧ d.step = (.ok 0, d) ∧ d.runFrame = (.ok 0, d.clearFrame)) ∧
    (c.board.enables &&& 0x10 ≠ 0 →
      ∀ events : List Call, (∀ event ∈ events, event.movesButton = true) → events.any Call.pressesButton = true →
        let p := c.afterAll events
        let awake := awakened c p
        let entry := awake.handed .joypad
        p.machine.cpu = c.machine.cpu ∧
        (c.machine.cpu.ime = false → p.step = (.ok 0, { p with machine := awake })) ∧
        (c.machine.cpu.ime = true →
          (¬entry.timer.Overdrawn 20 →
            p.step = (.ok 20, { p with machine := ⟨Machine.entered .joypad c.machine.cpu, (entry.tick 20).2⟩ })) ∧
          (entry.timer.Overdrawn 20 → c.board.timer.enabled = false ∧ p.step.1 = .error .countdownOverflow))) := by
  have rests : c.Rests := by
    rcases ended with stepped | ran
    · have rests := rests_of_step before reachable.afloat
      rw [stepped] at rests
      exact rests stopped
    · have rests := rests_of_continueFrame 0 reachable.afloat.clearFrame
      rw [show before.clearFrame.continueFrame 0 = (.ok cycles, c) from ran] at rests
      exact rests stopped
  refine ⟨?_, ?_, ?_, ?_⟩
  · cases served : c.machine.cpu.ime with
    | false => exact .inl rfl
    | true =>
      right
      by_contra asked
      exact rests.idle ⟨served, asked⟩
  · intro quiet calls pass d
    have same : d = c ∨ d = c.clearFrame := rests.afterAll_time quiet pass
    refine ⟨same, ?_⟩
    rcases same with same | same
    · rw [same]
      exact ⟨rests.step quiet, rests.runFrame quiet⟩
    · rw [same]
      exact ⟨rests.clearFrame.step quiet, rests.clearFrame.runFrame quiet⟩
  · intro deaf calls patient d
    have resting : c.Resting c := ⟨rests, rfl, deaf⟩
    have kept := resting.afterAll patient
    exact ⟨kept.cpu, kept.rests.step kept.quiet, kept.rests.runFrame kept.quiet⟩
  · intro enabled events move pressed p awake entry
    have untouched : c.Nudged c false := ⟨rests.afloat, rfl, rfl, rfl, UInt8.or_zero.symm⟩
    have nudged : c.Nudged p true := by
      have moved := untouched.afterAll move
      rwa [pressed, Bool.false_or] at moved
    refine ⟨nudged.cpu, ?_, ?_⟩
    · intro ignored
      have sound : awake.bus.Sound := nudged.afloat.board.sound.note _
      have waits : awake.bus.tick 0 = (.ok (), awake.bus) := rfl
      have off : ¬awake.cpu.ime = true := by rw [show awake.cpu.ime = false from ignored]; decide
      have stepped := Machine.step_of_batch (nudged.stepCpu rests enabled) waits sound
      exact step_of_machine (stepped.1 fun both => off both.1)
    · intro served
      obtain ⟨enters, fails⟩ := nudged.serves rests enabled served
      refine ⟨enters, fun full => ⟨?_, fails full⟩⟩
      by_contra switched
      have spare := rests.afloat.atRest stopped (Bool.eq_true_of_not_eq_false switched)
      refine Machine.not_overdrawn_handed (m := awake) (show 20 ≤ longestBatch by decide) ?_ .joypad full
      change _ ≤ p.board.timer.counterCountdown
      rw [nudged.timer]
      omega

/-- A press that ends a stop: it enters the routine of the buttons. -/
theorem stop_lasts_until_press : ∃ before c : Console, before.Reachable ∧ before.step = (.ok 4, c) ∧
    c.machine.cpu.stopped = true ∧ c.board.enables &&& c.board.requests &&& 0x10 = 0 ∧
    (c.after .step).step = (.ok 0, c.after .step) ∧ c.board.enables &&& 0x10 ≠ 0 ∧
    ∃ next : Console, (c.after (.press .a)).step = (.ok 20, next) ∧
      next.machine.cpu = Machine.entered .joypad c.machine.cpu := by
  obtain ⟨before, c, reachable, stepped, poised, stopped⟩ := Brink.exists_stopped 0 (by decide)
  obtain ⟨_, _, calm⟩ := poised.calm
  have enabled : c.board.enables &&& 0x10 ≠ 0 := by
    rw [calm.enables]
    decide
  have quiet : c.board.enables &&& c.board.requests &&& 0x10 = 0 := by
    rw [calm.enables, UInt8.and_comm 0x11, calm.none]
    rfl
  obtain ⟨_, frozen, _, woken⟩ := stop_lasts_until_button reachable (.inl stepped) stopped
  obtain ⟨_, still, _⟩ := frozen quiet [.step] (by decide)
  obtain ⟨_, _, serves⟩ := woken enabled [.press .a] (by decide) rfl
  refine ⟨before, c, reachable, stepped, stopped, quiet, still, enabled, _, (serves poised.serving).1 ?_, rfl⟩
  intro full
  have late := (overdrawn_press poised).mp full
  omega

/-- A press that should end a stop, and ends it in a fault: the address behind the stop switches on a counter that has
fallen too far behind to count the entry of the routine. -/
theorem stop_ends_in_fault : ∃ before c : Console, before.Reachable ∧ before.step = (.ok 4, c) ∧
    c.machine.cpu.stopped = true ∧ c.machine.cpu.ime = true ∧ c.board.enables &&& 0x10 ≠ 0 ∧
    (c.after (.press .a)).step.1 = .error .countdownOverflow := by
  obtain ⟨before, c, reachable, stepped, poised, stopped⟩ := Brink.exists_stopped (2 ^ 29 - 5) (Nat.le_refl _)
  obtain ⟨_, _, calm⟩ := poised.calm
  have enabled : c.board.enables &&& 0x10 ≠ 0 := by
    rw [calm.enables]
    decide
  have rests := rests_of_step before reachable.afloat
  rw [stepped] at rests
  have untouched : c.Nudged c false := ⟨(rests stopped).afloat, rfl, rfl, rfl, UInt8.or_zero.symm⟩
  have pressed : c.Nudged (c.after (.press .a)) true := untouched.after rfl
  have fails := (pressed.serves (rests stopped) enabled poised.serving).2
  refine ⟨before, c, reachable, stepped, stopped, poised.serving, enabled, fails ?_⟩
  refine (overdrawn_press poised).mpr ?_
  omega

end Console
end DotMatrix
