import DotMatrix.Proofs.Bus.Traffic
import DotMatrix.Proofs.Console.Reachability

/-!
No cycle is lost and none is counted twice. Over any run of steps the divider and the LCD move on by
exactly the cycles that the steps report, unless the program itself sets them back.
-/

namespace DotMatrix

/-- The divider has moved by the batches of the list, unless a write has cleared it. -/
def DividerMoved (start : Int) (w : Watched Board) : Prop :=
  Spares [0xFF04] w.seen →
    ∃ turns : Nat, w.bus.timer.dividerPosition + 65536 * turns = start + Access.total w.seen

/-- The LCD has moved by the batches of the list, unless a write has switched it or set its line. -/
structure LcdMoved (start : Int) (w : Watched Board) : Prop where
  sound : w.bus.Sound
  moved : Spares [0xFF40, 0xFF44] w.seen → w.bus.lcd.enabled = true ∧
    ∃ turns : Nat, w.bus.lcd.pace.position + frameCycles * turns = start + Access.total w.seen

theorem Board.divider_write {address : UInt16} (elsewhere : address ≠ 0xFF04) (value : UInt8) (b : Board) :
    (b.write address value).timer.dividerPosition = b.timer.dividerPosition := by
  have outcome := b.write_outcome address value
  generalize b.write address value = after at outcome ⊢
  cases outcome with
  | divider => exact absurd rfl elsewhere
  | lcdControl _ timer => rw [timer]
  | linkControl => simp only [writeLinkControl]; split <;> rfl
  | other same => rw [same.timer]
  | _ => rfl

theorem Board.pace_write {address : UInt16} (control : address ≠ 0xFF40) (line : address ≠ 0xFF44)
    (value : UInt8) (b : Board) : ∃ status, (b.write address value).lcd.pace = { b.lcd.pace with status } := by
  have outcome := b.write_outcome address value
  generalize b.write address value = after at outcome ⊢
  cases outcome with
  | lcdControl => exact absurd rfl control
  | line => exact absurd rfl line
  | linkControl =>
    refine ⟨b.lcd.status, ?_⟩
    simp only [writeLinkControl]
    split <;> rfl
  | other same => exact ⟨b.lcd.status, same.pace⟩
  | _ => exact ⟨_, rfl⟩

theorem Watched.tick_keeps {P : Watched Board → Prop} {cycles : Nat} (short : cycles ≤ longestBatch)
    {w : Watched Board} (holds : P w) (nothing : P ⟨w.bus, w.seen ++ [.batch 0]⟩)
    (taken : ∀ after : Board, (w.bus.Sound → after.Sound) → after.timer = w.bus.timer.advance cycles →
      after.lcd = (w.bus.lcd.advance cycles).2 → P ⟨after, w.seen ++ [.batch cycles]⟩) :
    P (Bus.tick cycles w).2 := by
  have sound := fun h : w.bus.Sound => h.tick short
  have outcome := w.bus.tick_outcome short
  generalize ticked : w.bus.tick cycles = x at sound outcome
  cases outcome with
  | nothing =>
    rw [Watched.tick_ok ticked]
    exact nothing
  | taken timer lcd =>
    rw [Watched.tick_ok ticked]
    exact taken _ sound timer lcd
  | refused =>
    rw [Watched.tick_error ticked]
    exact holds

theorem dividerMoved_invariant (start : Int) : Bus.Invariant (DividerMoved start) where
  read _ _ h := h
  write address byte w h spares := by
    have here := spares.ne 0xFF04 (by decide)
    obtain ⟨turns, moved⟩ := h (spares_append.mp spares).1
    refine ⟨turns, ?_⟩
    change (w.bus.write address byte).timer.dividerPosition + _ = _ + (Access.total (w.seen ++ [_]) : Int)
    rw [Board.divider_write here, Access.total_append, Access.total_write]
    exact moved
  note event w h spares := by
    obtain ⟨turns, moved⟩ := h (spares_append.mp spares).1
    refine ⟨turns, ?_⟩
    change w.bus.timer.dividerPosition + _ = _ + (Access.total (w.seen ++ [_]) : Int)
    rw [Access.total_append, Access.total_note]
    exact moved
  tick cycles short w h := by
    apply Watched.tick_keeps short h
    · intro spares
      simpa using h (spares_append.mp spares).1
    · intro after _ timer _ spares
      obtain ⟨before, first⟩ := h (spares_append.mp spares).1
      obtain ⟨within, second⟩ := Timer.position_advance cycles w.bus.timer
      refine ⟨before + within, ?_⟩
      simp only [timer, Access.total_append, Access.total_batch]
      omega

theorem lcdMoved_invariant (start : Int) : Bus.Invariant (LcdMoved start) where
  read _ _ h := h
  write address byte w h := by
    constructor
    · exact h.sound.write address byte
    · intro spares
      have control := spares.ne 0xFF40 (by decide)
      have line := spares.ne 0xFF44 (by decide)
      obtain ⟨on, turns, moved⟩ := h.moved (spares_append.mp spares).1
      obtain ⟨status, same⟩ := Board.pace_write control line byte w.bus
      refine ⟨(congrArg Pace.enabled same).trans on, turns, ?_⟩
      change (w.bus.write address byte).lcd.pace.position + _ = _ + (Access.total (w.seen ++ [_]) : Int)
      rw [same, Access.total_append, Access.total_write]
      exact moved
  note event w h := by
    constructor
    · exact h.sound.note event
    · intro spares
      obtain ⟨on, turns, moved⟩ := h.moved (spares_append.mp spares).1
      refine ⟨on, turns, ?_⟩
      change w.bus.lcd.pace.position + _ = _ + (Access.total (w.seen ++ [_]) : Int)
      rw [Access.total_append, Access.total_note]
      exact moved
  tick cycles short w h := by
    apply Watched.tick_keeps short h
    · constructor
      · exact h.sound
      · intro spares
        simpa using h.moved (spares_append.mp spares).1
    · intro after sound _ lcd
      constructor
      · exact sound h.sound
      · intro spares
        obtain ⟨on, before, first⟩ := h.moved (spares_append.mp spares).1
        obtain ⟨status, same, _⟩ := Lcd.pace_advance cycles on
        obtain ⟨within, second⟩ := Pace.position_countDown h.sound.lcd cycles
        have on' : (w.bus.lcd.pace.countDown cycles).enabled = true := by
          unfold Pace.countDown
          split <;> exact on
        rw [lcd]
        refine ⟨(congrArg Pace.enabled same).trans on', before + within, ?_⟩
        rw [same, Access.total_append, Access.total_batch]
        change (w.bus.lcd.pace.countDown cycles).position + _ = _
        rw [Int.natCast_add, Int.mul_add]
        omega

namespace Machine

variable {m next : Machine Board} {cycles : Nat}

/-- A step leaves behind what is kept of a watched board, with batches of all the cycles that it reports. -/
theorem watched_step {P : Watched Board → Prop} (inv : Bus.Invariant P) (start : P ⟨m.bus, []⟩)
    (stepped : m.step = (.ok cycles, next)) : P ⟨next.bus, m.traffic⟩ ∧ Access.total m.traffic = cycles := by
  have kept : P m.watch.step.2.bus := step_keeps inv start
  rw [watch_step, stepped] at kept
  exact ⟨kept, total_traffic (congrArg Prod.fst stepped)⟩

theorem divider_step (stepped : m.step = (.ok cycles, next)) (spares : Spares [0xFF04] m.traffic) :
    ∃ turns : Nat,
      next.bus.timer.dividerPosition + 65536 * turns = m.bus.timer.dividerPosition + cycles := by
  have start : DividerMoved m.bus.timer.dividerPosition ⟨m.bus, []⟩ := fun _ => ⟨0, by simp⟩
  obtain ⟨moved, counted⟩ := watched_step (dividerMoved_invariant _) start stepped
  rw [← counted]
  exact moved spares

theorem lcd_step (sound : m.bus.Sound) (on : m.bus.lcd.enabled = true)
    (stepped : m.step = (.ok cycles, next)) (spares : Spares [0xFF40, 0xFF44] m.traffic) :
    next.bus.lcd.enabled = true ∧ ∃ turns : Nat,
      next.bus.lcd.pace.position + frameCycles * turns = m.bus.lcd.pace.position + cycles := by
  have start : LcdMoved m.bus.lcd.pace.position ⟨m.bus, []⟩ := ⟨sound, fun _ => ⟨on, 0, by simp⟩⟩
  obtain ⟨moved, counted⟩ := watched_step (lcdMoved_invariant _) start stepped
  rw [← counted]
  exact moved.moved spares

/-- What moves by the cycles of each step moves by the sum over a run, up to whole periods. -/
theorem moved_by_run (Fit : Machine Board → Prop) (place : Machine Board → Int) (period : Nat)
    {addresses : List UInt16}
    (step : ∀ {m next : Machine Board} {cycles : Nat}, Fit m → m.step = (.ok cycles, next) →
      Spares addresses m.traffic →
        Fit next ∧ ∃ turns : Nat, place next + period * turns = place m + cycles)
    (n : Nat) {m last : Machine Board} {before counts : Array Nat} (fit : Fit m)
    (ran : repeatSteps Machine.step n before m = (.ok counts, last))
    (spares : Spares addresses (m.trafficOf n)) :
    ∃ turns : Nat, place last + period * turns + before.sum = place m + counts.sum := by
  induction n generalizing m before with
  | zero =>
    cases ran
    exact ⟨0, by simp⟩
  | succ n ih =>
    simp only [repeatSteps] at ran
    simp only [trafficOf] at spares
    obtain ⟨here, later⟩ := spares_append.mp spares
    generalize stepped : m.step = x at ran later
    obtain ⟨result, next⟩ := x
    cases result with
    | error fault => cases ran
    | ok cycles =>
      obtain ⟨fits, first, moved⟩ := step fit stepped here
      obtain ⟨others, rest⟩ := ih fits ran later
      refine ⟨first + others, ?_⟩
      rw [Array.sum_push] at rest
      rw [Int.natCast_add, Int.mul_add]
      omega

end Machine

namespace Console

def trafficOf (n : Nat) (c : Console) : List Access := c.machine.trafficOf n

/-- Any run of steps moves the divider, and the LCD while it is on, by the cycles that it reports: those
of instructions, taken branches, idling and entered routines alike. -/
theorem cycles_conserved {c later : Console} {n : Nat} {counts : Array Nat} (reachable : c.Reachable)
    (ran : c.stepMany n = (.ok counts, later)) :
    (Spares [0xFF04] (c.trafficOf n) →
      (256 * later.board.timer.divider.toNat + (256 - later.board.timer.dividerCountdown)) % 65536 =
        (256 * c.board.timer.divider.toNat + (256 - c.board.timer.dividerCountdown) + counts.sum) %
          65536) ∧
    (c.board.lcd.enabled = true → Spares [0xFF40, 0xFF44] (c.trafficOf n) →
      (456 * later.board.lcd.line.toNat + (456 - later.board.lcd.countdown)) % 70224 =
        (456 * c.board.lcd.line.toNat + (456 - c.board.lcd.countdown) + counts.sum) % 70224) := by
  obtain ⟨machine, keeper⟩ := c
  simp only [stepMany] at ran
  generalize steps : Machine.repeatSteps Machine.step n #[] machine = x at ran
  obtain ⟨result, last⟩ := x
  cases ran
  constructor
  · intro spares
    obtain ⟨turns, moved⟩ := Machine.moved_by_run (fun _ => True)
      (fun m => m.bus.timer.dividerPosition) 65536
      (fun _ stepped here => ⟨trivial, Machine.divider_step stepped here⟩) n trivial steps spares
    simp only [Timer.dividerPosition, Array.sum_empty] at moved
    simp only [board]
    omega
  · intro on spares
    obtain ⟨turns, moved⟩ := Machine.moved_by_run
      (fun m => m.bus.Sound ∧ m.bus.lcd.enabled = true)
      (fun m => m.bus.lcd.pace.position) frameCycles
      (fun fit stepped here => by
        obtain ⟨sound, on⟩ := fit
        have kept := Machine.step_keeps Board.sound_invariant sound
        rw [stepped] at kept
        obtain ⟨stays, moved⟩ := Machine.lcd_step sound on stepped here
        exact ⟨⟨kept, stays⟩, moved⟩) n ⟨reachable.sound, on⟩ steps spares
    simp only [Pace.position, Lcd.pace, frameCycles, Lcd.lineCycles, Array.sum_empty] at moved
    simp only [board]
    omega

/-- Three restarts of sixteen cycles each, the first instructions of a console without a cartridge. -/
theorem cycles_conserved_from_boot :
    let c := postBoot {}
    let later := (c.stepMany 3).2
    c.stepMany 3 = (.ok #[16, 16, 16], later) ∧
    (256 * later.board.timer.divider.toNat + (256 - later.board.timer.dividerCountdown)) % 65536 =
      (256 * c.board.timer.divider.toNat + (256 - c.board.timer.dividerCountdown) + 48) % 65536 ∧
    (456 * later.board.lcd.line.toNat + (456 - later.board.lcd.countdown)) % 70224 =
      (456 * c.board.lcd.line.toNat + (456 - c.board.lcd.countdown) + 48) % 70224 := by
  have ran : (postBoot {}).stepMany 3 = (.ok #[16, 16, 16], ((postBoot {}).stepMany 3).2) := rfl
  obtain ⟨divider, lcd⟩ := cycles_conserved ⟨{}, [], rfl⟩ ran
  exact ⟨ran, divider (by decide +kernel), lcd rfl (by decide +kernel)⟩

end Console
end DotMatrix
