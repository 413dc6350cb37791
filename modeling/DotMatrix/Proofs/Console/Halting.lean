import DotMatrix.Proofs.Console.Brink
import DotMatrix.Proofs.Console.FrameExits

/-!
The end of a halt. A halted processor idles through batches of four cycles until one of them leaves an enabled source
requested. If interrupts are served, that same step enters the routine of the source, and otherwise the processor goes
on with the instruction behind the halt.
-/

namespace DotMatrix

namespace Board

def idled : Nat → Board → Board
  | 0, b => b
  | n + 1, b => ((idled n b).tick Machine.idleCycles).2

def instructionAt? (address : UInt16) (b : Board) : Option Instruction :=
  match Opcode.decode (b.read address) with
  | .instruction op => some op
  | .escape => some (Opcode.decodeSecond (b.read (address + 1)))
  | .unassigned => none

variable {b : Board}

theorem Afloat.idled (h : b.Afloat) (n : Nat) : (b.idled n).Afloat := by
  induction n with
  | zero => exact h
  | succ n ih => exact ih.tick (by decide)

theorem enabled_idled (n : Nat) (b : Board) : (b.idled n).timer.enabled = b.timer.enabled := by
  induction n with
  | zero => rfl
  | succ n ih => exact (enabled_tick (by decide) (b.idled n)).trans ih

end Board

namespace Machine

variable {m : Machine Board}

theorem stepCpu_of_halted (running : m.cpu.stopped = false) (halted : m.cpu.halted = true) :
    m.stepCpu = (.ok 4, m.stepHalted) := by
  rw [stepCpu, if_neg (by rw [running]; decide), if_pos halted]
  rfl

end Machine

namespace Console

variable {c : Console}

theorem stepCpu_of_awake (running : c.machine.cpu.stopped = false) (awake : c.machine.cpu.halted = false) :
    match c.board.instructionAt? c.machine.cpu.registers.pc with
    | some op => c.machine.stepCpu =
        (.ok (c.machine.perform c.machine.nextOpcode op).1, (c.machine.perform c.machine.nextOpcode op).2)
    | none => c.Stuck := by
  have asleep : ¬c.machine.cpu.stopped = true ∧ ¬c.machine.cpu.halted = true := by rw [running, awake]; decide
  have first : c.board.read c.machine.cpu.registers.pc = c.machine.nextOpcode := rfl
  have read : (c.machine.read c.machine.cpu.registers.pc).1 = c.machine.nextOpcode := rfl
  rw [Board.instructionAt?, first]
  cases meaning : Opcode.decode c.machine.nextOpcode with
  | unassigned => exact ⟨running, awake, (Opcode.decode_eq_unassigned_iff _).mp meaning⟩
  | instruction op =>
    have fetched : c.machine.fetch = (c.machine.nextOpcode, .instruction op, c.machine) := by
      simp only [Machine.fetch, read, meaning]
      rfl
    simp only [Machine.stepCpu, if_neg asleep.1, if_neg asleep.2, fetched]
  | escape =>
    have fetched : c.machine.fetch = (c.machine.nextOpcode,
        .instruction (Opcode.decodeSecond (c.board.read (c.machine.cpu.registers.pc + 1))), c.machine) := by
      simp only [Machine.fetch, read, meaning]
      rfl
    simp only [Machine.stepCpu, if_neg asleep.1, if_neg asleep.2, fetched]

/-- A halted console whose board idles without a source to wake it. -/
structure Sleeps (c : Console) : Prop where
  afloat : c.board.Afloat
  running : c.machine.cpu.stopped = false
  halted : c.machine.cpu.halted = true

theorem Sleeps.idled (h : c.Sleeps) (n : Nat) : (c.mapBoard (Board.idled n)).Sleeps :=
  ⟨h.afloat.idled n, h.running, h.halted⟩

/-- The processor notices a source before the batch, and serves it behind the batch. -/
theorem Sleeps.stepCpu (h : c.Sleeps) (asleep : c.board.pending = 0) :
    c.machine.stepCpu = (.ok 4, c.machine) := by
  rw [Machine.stepCpu_of_halted h.running h.halted, Machine.stepHalted_eq]
  exact congrArg _ (if_pos asleep)

/-- As long as no batch wakes it, a step of a sleeping console is a batch of idle cycles. -/
theorem Sleeps.step (h : c.Sleeps) (asleep : c.board.pending = 0)
    (idle : ¬(c.machine.cpu.ime = true ∧ (c.board.idled 1).pending ≠ 0)) :
    c.step = (.ok 4, c.mapBoard (Board.idled 1)) := by
  have ticked := h.afloat.tick_ok (show 4 ≤ 16 by decide)
  have sound := h.afloat.sound.tick (show 4 ≤ longestBatch by decide)
  exact step_of_machine ((Machine.step_of_batch (h.stepCpu asleep) ticked sound).1 idle)

theorem Sleeps.repeatSteps (h : c.Sleeps) {n : Nat} (asleep : ∀ k ≤ n, (c.board.idled k).pending = 0) :
    Machine.repeatSteps Machine.step n #[] c.machine =
      (.ok (Array.replicate n 4), (c.mapBoard (Board.idled n)).machine) := by
  induction n with
  | zero => rfl
  | succ n ih =>
    have before := ih fun k early => asleep k (Nat.le_succ_of_le early)
    have idles := (h.idled n).step (asleep n (Nat.le_succ n)) fun both => both.2 (asleep (n + 1) (Nat.le_refl _))
    rw [Array.replicate_succ]
    exact repeatSteps_concat before (machine_of_step idles)

theorem Sleeps.stepMany (h : c.Sleeps) {n : Nat} (asleep : ∀ k ≤ n, (c.board.idled k).pending = 0) :
    c.stepMany n = (.ok (Array.replicate n 4), c.mapBoard (Board.idled n)) := by
  simp only [Console.stepMany, h.repeatSteps asleep]
  rfl

/-- The step that is woken with interrupts served enters the routine of the first source, if the counter has room. -/
theorem Sleeps.serves (h : c.Sleeps) (asleep : c.board.pending = 0) (served : c.machine.cpu.ime = true)
    (asked : (c.board.idled 1).pending ≠ 0) : ∃ source : Interrupt, source.FirstIn (c.board.idled 1).pending ∧
      let entry := Machine.handed source ⟨c.machine.cpu, c.board.idled 1⟩
      (¬entry.timer.Overdrawn 20 →
        c.step = (.ok 24, { c with machine := ⟨Machine.entered source c.machine.cpu, (entry.tick 20).2⟩ })) ∧
      (entry.timer.Overdrawn 20 → c.step.1 = .error .countdownOverflow) := by
  have ticked := h.afloat.tick_ok (show 4 ≤ 16 by decide)
  have sound := h.afloat.sound.tick (show 4 ≤ longestBatch by decide)
  obtain ⟨source, first, enters, fails⟩ := (Machine.step_of_batch (h.stepCpu asleep) ticked sound).2 served asked
  exact ⟨source, first, fun room => step_of_machine (enters room), fails⟩

end Console

namespace Brink

variable {b : Board} {c : Console} {x room : Int}

theorem Calm.idled (h : Calm room b) (off : Off x b.timer) {n : Nat} (far : 4 * (n : Int) < room) :
    Calm (room - 4 * n) (b.idled n) ∧ Off x (b.idled n).timer := by
  induction n with
  | zero =>
    rw [show room - 4 * ((0 : Nat) : Int) = room by omega]
    exact ⟨h, off⟩
  | succ n ih =>
    obtain ⟨calm, off⟩ := ih (by omega)
    obtain ⟨after, ticked, _⟩ := calm.sound.tick_of_off off.enabled (show 4 ≤ longestBatch by decide)
    have same : b.idled (n + 1) = after := congrArg Prod.snd ticked
    have later := calm.tick (by decide) (by decide) (by omega) ticked
    have counted := off.tick (show 4 ≤ longestBatch by decide)
    rw [ticked] at counted
    rw [same, show room - 4 * ((n + 1 : Nat) : Int) = room - 4 * n - (4 : Nat) by omega]
    exact ⟨later, counted⟩

/-- There is a number of idle steps behind which the blank wakes the processor. -/
theorem Poised.exists_blank (h : Poised x c) : ∃ n : Nat, (∀ k ≤ n, (c.board.idled k).pending = 0) ∧
    (c.board.idled (n + 1)).pending = 0x01 ∧ Off x (c.board.idled (n + 1)).timer := by
  obtain ⟨room, far, calm⟩ := h.calm
  obtain ⟨n, before, reached⟩ : ∃ n : Nat, 4 * (n : Int) < room ∧ room - 4 * n ≤ (4 : Nat) :=
    ⟨((room - 1) / 4).toNat, by omega, by omega⟩
  refine ⟨n, fun k early => (calm.idled h.off (by omega)).1.pending, ?_⟩
  obtain ⟨last, off⟩ := calm.idled h.off before
  obtain ⟨after, ticked, _⟩ := last.sound.tick_of_off off.enabled (show 4 ≤ longestBatch by decide)
  have same : c.board.idled (n + 1) = after := congrArg Prod.snd ticked
  have counted := off.tick (show 4 ≤ longestBatch by decide)
  rw [ticked] at counted
  rw [same]
  exact ⟨last.wakes (by decide) (by decide) reached ticked, counted⟩

end Brink

namespace Console

variable {c : Console}

/-- A halt neither loses nor invents a wake-up. A halted console idles, four cycles a step, for as long as no batch
leaves an enabled source requested. If the next one does and interrupts are served, the same step enters the routine
of the first such source, and hands the address behind the halt to the stack; it fails only if what it lays there
switches on a counter that has been off, and has too little room for the entry. If they are not served, that step
only idles, the next one ends the halt, and the one behind it executes the instruction at the same address. -/
theorem halt_ends_by_request (reachable : c.Reachable) (running : c.machine.cpu.stopped = false)
    (halted : c.machine.cpu.halted = true) (n : Nat) (asleep : ∀ k ≤ n, (c.board.idled k).pending = 0) :
    let cpu := c.machine.cpu
    let idle := c.mapBoard (Board.idled n)
    let woken := c.board.idled (n + 1)
    c.stepMany n = (.ok (Array.replicate n 4), idle) ∧
    (woken.pending = 0 → idle.step = (.ok 4, { c with machine := ⟨cpu, woken⟩ })) ∧
    (woken.pending ≠ 0 → cpu.ime = true → ∃ source : Interrupt, source.FirstIn woken.pending ∧
      let entry := Machine.handed source ⟨cpu, woken⟩
      (¬entry.timer.Overdrawn 20 →
        idle.step = (.ok 24, { c with machine := ⟨Machine.entered source cpu, (entry.tick 20).2⟩ })) ∧
      (entry.timer.Overdrawn 20 → c.board.timer.enabled = false ∧ idle.step.1 = .error .countdownOverflow)) ∧
    (woken.pending ≠ 0 → cpu.ime = false →
      let still : Console := { c with machine := ⟨cpu, woken⟩ }
      let awake : Console := { c with machine := ⟨{ cpu with halted := false }, (woken.tick 4).2⟩ }
      idle.step = (.ok 4, still) ∧ still.step = (.ok 4, awake) ∧
      match awake.board.instructionAt? cpu.registers.pc with
      | some op => awake.machine.stepCpu =
          (.ok (awake.machine.perform awake.machine.nextOpcode op).1,
            (awake.machine.perform awake.machine.nextOpcode op).2)
      | none => awake.Stuck) := by
  intro cpu idle woken
  have sleeps : c.Sleeps := ⟨reachable.afloat.board, running, halted⟩
  have last : idle.board.pending = 0 := asleep n (Nat.le_refl n)
  have idles := (sleeps.idled n).step last
  refine ⟨sleeps.stepMany asleep, ?_, ?_, ?_⟩
  · intro quiet
    exact idles fun both => both.2 quiet
  · intro asked served
    obtain ⟨source, first, enters, fails⟩ := (sleeps.idled n).serves last served asked
    refine ⟨source, first, enters, fun full => ⟨?_, fails full⟩⟩
    by_contra switched
    have on : (c.board.idled n).timer.enabled = true :=
      (Board.enabled_idled n c.board).trans (Bool.eq_true_of_not_eq_false switched)
    have counted := (sleeps.afloat.idled n).countdown_tick on (show 4 ≠ 0 by decide) (by decide)
    refine Machine.not_overdrawn_handed (m := ⟨cpu, woken⟩) (show 20 ≤ longestBatch by decide) ?_ source full
    change _ ≤ ((c.board.idled n).tick 4).2.timer.counterCountdown
    omega
  · intro asked ignored still awake
    have off : ¬cpu.ime = true := by rw [ignored]; decide
    refine ⟨idles fun both => off both.1, ?_, ?_⟩
    · have afloat := sleeps.afloat.idled (n + 1)
      have ticked := afloat.tick_ok (show 4 ≤ 16 by decide)
      have sound := afloat.sound.tick (show 4 ≤ longestBatch by decide)
      have noticed : still.machine.stepCpu = (.ok 4, ⟨{ cpu with halted := false }, woken⟩) := by
        rw [Machine.stepCpu_of_halted (m := still.machine) running halted, Machine.stepHalted_eq]
        exact congrArg _ (if_neg asked)
      exact step_of_machine ((Machine.step_of_batch noticed ticked sound).1 fun both => off both.1)
    · exact stepCpu_of_awake (c := awake) running rfl

/-- A halt that the blank ends, with its routine entered in the same step. -/
theorem halt_ends_by_blank : ∃ (c : Console) (n : Nat), c.Reachable ∧ c.machine.cpu.stopped = false ∧
    c.machine.cpu.halted = true ∧ (∀ k ≤ n, (c.board.idled k).pending = 0) ∧
    c.stepMany n = (.ok (Array.replicate n 4), c.mapBoard (Board.idled n)) ∧
    ∃ next : Console, (c.mapBoard (Board.idled n)).step = (.ok 24, next) ∧
      next.machine.cpu = Machine.entered .vblank c.machine.cpu := by
  obtain ⟨c, reachable, poised, running, halted⟩ := Brink.exists_halted 0 (by decide)
  obtain ⟨n, asleep, woken, off⟩ := poised.exists_blank
  obtain ⟨idles, _, wakes, _⟩ := halt_ends_by_request reachable running halted n asleep
  obtain ⟨source, first, enters, _⟩ := wakes (by rw [woken]; decide) poised.serving
  refine ⟨c, n, reachable, running, halted, asleep, idles, _, enters ?_, ?_⟩
  · intro full
    have late := (Brink.overdrawn_handed c.machine.cpu poised.at_pc poised.sp off source).mp full
    omega
  · rw [woken] at first
    have named := first.named
    cases source with
    | vblank => rfl
    | _ => cases named

/-- A halt that the blank should end, and that ends in a fault: the address behind the halt switches on a counter that
has fallen too far behind to count the entry of the routine. -/
theorem halt_ends_in_fault : ∃ (c : Console) (n : Nat), c.Reachable ∧ c.machine.cpu.stopped = false ∧
    c.machine.cpu.halted = true ∧ c.machine.cpu.ime = true ∧ (∀ k ≤ n, (c.board.idled k).pending = 0) ∧
    (c.board.idled (n + 1)).pending ≠ 0 ∧ c.stepMany n = (.ok (Array.replicate n 4), c.mapBoard (Board.idled n)) ∧
    (c.mapBoard (Board.idled n)).step.1 = .error .countdownOverflow := by
  obtain ⟨c, reachable, poised, running, halted⟩ := Brink.exists_halted (2 ^ 29 - 5) (Nat.le_refl _)
  obtain ⟨n, asleep, woken, off⟩ := poised.exists_blank
  have asked : (c.board.idled (n + 1)).pending ≠ 0 := by
    rw [woken]
    decide
  have sleeps : c.Sleeps := ⟨reachable.afloat.board, running, halted⟩
  obtain ⟨source, _, _, fails⟩ := (sleeps.idled n).serves (asleep n (Nat.le_refl n)) poised.serving asked
  refine ⟨c, n, reachable, running, halted, poised.serving, asleep, asked, sleeps.stepMany asleep, fails ?_⟩
  refine (Brink.overdrawn_handed c.machine.cpu poised.at_pc poised.sp off source).mpr ?_
  omega

end Console
end DotMatrix
