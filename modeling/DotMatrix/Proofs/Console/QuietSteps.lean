import DotMatrix.Proofs.Console.Conservation
import DotMatrix.Proofs.Console.Faults

/-!
Steps of a program that leaves the LCD to itself and neither stops nor fails. Such a step brings the
next vertical blank nearer by its cycles, and it only fails if the timer is far behind.
-/

namespace DotMatrix

/-- The blank has come nearer by the batches of the list, and the flag tells whether it was reached. -/
structure BlankAwaited (start : Int) (w : Watched Board) : Prop where
  sound : w.bus.Sound
  moved : Spares [0xFF40, 0xFF44] w.seen → w.bus.lcd.pace.enabled = true ∧
    ∃ turns : Nat, w.bus.lcd.pace.untilBlank + Access.total w.seen = start + frameCycles * turns ∧
      (w.bus.lcd.pace.frameReady = true ↔ 0 < turns)

structure BlankFresh (w : Watched Board) : Prop where
  sound : w.bus.Sound
  recent : w.bus.lcd.pace.frameReady = true → w.bus.lcd.pace.enabled = true →
    w.bus.lcd.pace.line.toNat = screenHeight →
      (Lcd.lineCycles : Int) - w.bus.lcd.pace.countdown < Access.total w.seen

structure NearTop (w : Watched Board) : Prop where
  sound : w.bus.Sound
  near : w.bus.lcd.pace.position ≤ Access.total w.seen

def Dark (w : Watched Board) : Prop :=
  Spares [0xFF40] w.seen → w.bus.lcd.pace.enabled = false ∧ w.bus.lcd.pace.frameReady = false

theorem blankAwaited_invariant (start : Int) : Bus.Invariant (BlankAwaited start) where
  read _ _ h := h
  write address byte w h := by
    constructor
    · exact h.sound.write address byte
    · intro spares
      obtain ⟨on, turns, nearer, reached⟩ := h.moved (spares_append.mp spares).1
      obtain ⟨status, same⟩ :=
        Board.pace_write (spares.ne 0xFF40 (by decide)) (spares.ne 0xFF44 (by decide)) byte w.bus
      change (w.bus.write address byte).lcd.pace.enabled = true ∧ ∃ turns : Nat,
        (w.bus.write address byte).lcd.pace.untilBlank + (Access.total (w.seen ++ [_]) : Int) = _ ∧
          ((w.bus.write address byte).lcd.pace.frameReady = true ↔ _)
      rw [same, Access.total_append, Access.total_write]
      exact ⟨on, turns, nearer, reached⟩
  note event w h := by
    constructor
    · exact h.sound.note event
    · intro spares
      obtain ⟨on, turns, nearer, reached⟩ := h.moved (spares_append.mp spares).1
      refine ⟨on, turns, ?_, reached⟩
      change w.bus.lcd.pace.untilBlank + (Access.total (w.seen ++ [_]) : Int) = _
      rw [Access.total_append, Access.total_note]
      exact nearer
  tick cycles short w h := by
    apply Watched.tick_keeps short h
    · constructor
      · exact h.sound
      · intro spares
        simpa using h.moved (spares_append.mp spares).1
    · intro after sound _ lcd
      constructor
      · exact sound h.sound
      · intro spares
        obtain ⟨on, turns, nearer, reached⟩ := h.moved (spares_append.mp spares).1
        rw [lcd, Access.total_append, Access.total_batch]
        rcases Lcd.pace_batch cycles w.bus.lcd with ⟨off, _⟩ | ⟨_, status, same⟩
        · exact absurd (on.symm.trans off) (by decide)
        · rw [same]
          refine ⟨(Pace.enabled_countDown _ _).trans on, ?_⟩
          rcases Pace.untilBlank_countDown h.sound.lcd cycles with ⟨distance, flag⟩ | ⟨distance, flag, _⟩
          · refine ⟨turns, ?_, (Bool.eq_iff_iff.mp flag).trans reached⟩
            change (w.bus.lcd.pace.countDown cycles).untilBlank + _ = _
            omega
          · refine ⟨turns + 1, ?_, iff_of_true flag (Nat.succ_pos _)⟩
            change (w.bus.lcd.pace.countDown cycles).untilBlank + _ = _
            rw [Int.natCast_add turns 1, Int.mul_add]
            omega

theorem Lcd.enabled_writeControl (value : UInt8) (lcd : Lcd) :
    (lcd.writeControl value).1.pace.enabled = Byte.has value 0x80 := by
  unfold writeControl
  split <;> rfl

theorem BlankFresh.write {w : Watched Board} (h : BlankFresh w) (address : UInt16) (byte : UInt8) :
    BlankFresh ⟨w.bus.write address byte, w.seen ++ [.write address byte]⟩ := by
  refine ⟨h.sound.write address byte, ?_⟩
  rw [Access.total_append, Access.total_write]
  have outcome := w.bus.write_outcome address byte
  generalize w.bus.write address byte = after at outcome ⊢
  cases outcome with
  | lcdControl lcd =>
    rw [lcd]
    intro ready on blank
    cases before : w.bus.lcd.pace.enabled with
    | true =>
      have kept : (w.bus.lcd.writeControl byte).1 = { w.bus.lcd with control := byte } := by
        rw [Lcd.enabled_writeControl] at on
        simp only [Lcd.writeControl]
        rw [show w.bus.lcd.enabled = true from before, on]
      rw [kept] at ready blank ⊢
      exact h.recent ready before blank
    | false =>
      obtain ⟨top, _⟩ := h.sound.lcd.off before
      have line : (w.bus.lcd.writeControl byte).1.line = 0 := by
        unfold Lcd.writeControl
        split
        · rfl
        · exact top
        · exact top
      change (w.bus.lcd.writeControl byte).1.line.toNat = _ at blank
      rw [line] at blank
      cases blank
  | line =>
    intro _ _ blank
    cases blank
  | linkControl =>
    simp only [Board.writeLinkControl]
    split
    · exact h.recent
    · exact h.recent
  | other same =>
    rw [same.pace]
    exact h.recent
  | _ => exact h.recent

theorem BlankFresh.advance {w : Watched Board} (h : BlankFresh w) {cycles : Nat} {after : Board}
    (sound : after.Sound) (lcd : after.lcd = (w.bus.lcd.advance cycles).2) :
    BlankFresh ⟨after, w.seen ++ [.batch cycles]⟩ := by
  refine ⟨sound, ?_⟩
  rw [lcd, Access.total_append, Access.total_batch]
  rcases Lcd.pace_batch cycles w.bus.lcd with ⟨off, same⟩ | ⟨on, status, same⟩
  · rw [same]
    intro _ on
    exact absurd (off.symm.trans on) (by decide)
  · rw [same]
    have positive := h.sound.lcd.positive
    unfold Pace.countDown
    split
    next ends =>
      intro _ _ _
      simp only
      omega
    next =>
      intro ready _ blank
      have recent := h.recent ready on blank
      simp only
      omega

theorem blankFresh_invariant : Bus.Invariant BlankFresh where
  read _ _ h := h
  write address byte _ h := h.write address byte
  note event w h := by
    refine ⟨h.sound.note event, ?_⟩
    change _ → _ → _ → _ < (Access.total (w.seen ++ [_]) : Int)
    rw [Access.total_append, Access.total_note]
    exact h.recent
  tick cycles short w h := by
    apply Watched.tick_keeps short h
    · refine ⟨h.sound, ?_⟩
      simpa using h.recent
    · intro after sound _ lcd
      exact h.advance (sound h.sound) lcd

theorem dark_invariant : Bus.Invariant Dark where
  read _ _ h := h
  write address byte w h spares := by
    obtain ⟨off, waiting⟩ := h (spares_append.mp spares).1
    have elsewhere := spares.ne 0xFF40 (by decide)
    have outcome := w.bus.write_outcome address byte
    change (w.bus.write address byte).lcd.pace.enabled = _ ∧ (w.bus.write address byte).lcd.pace.frameReady = _
    generalize w.bus.write address byte = after at outcome ⊢
    cases outcome with
    | lcdControl => exact absurd rfl elsewhere
    | linkControl =>
      simp only [Board.writeLinkControl]
      split <;> exact ⟨off, waiting⟩
    | other same => rw [same.pace]; exact ⟨off, waiting⟩
    | _ => exact ⟨off, waiting⟩
  note event w h spares := h (spares_append.mp spares).1
  tick cycles short w h := by
    apply Watched.tick_keeps short h
    · intro spares
      exact h (spares_append.mp spares).1
    · intro after _ _ lcd spares
      obtain ⟨off, waiting⟩ := h (spares_append.mp spares).1
      rw [lcd]
      rcases Lcd.pace_batch cycles w.bus.lcd with ⟨_, same⟩ | ⟨on, _⟩
      · rw [same]
        exact ⟨off, waiting⟩
      · exact absurd (off.symm.trans on) (by decide)

theorem Lcd.position_writeControl_le {lcd : Lcd} (sound : lcd.pace.Sound) (value : UInt8) :
    (lcd.writeControl value).1.pace.position ≤ lcd.pace.position := by
  have whole := sound.le_line
  unfold writeControl
  split
  next =>
    change (lineCycles * (0 : Nat) + (lineCycles - lineCycles) : Int) ≤ lineCycles * lcd.line.toNat + _
    simp only [lineCycles] at *
    omega
  next off _ =>
    have rests := (sound.off off).2.1
    change (lineCycles * lcd.line.toNat + (lineCycles - lineCycles) : Int) ≤ lcd.pace.position
    rw [Pace.position, rests]
    exact Int.le_refl _
  next => exact Int.le_refl _

theorem Board.Sound.position_write_le {b : Board} (h : b.Sound) (address : UInt16) (value : UInt8) :
    (b.write address value).lcd.pace.position ≤ b.lcd.pace.position := by
  have outcome := b.write_outcome address value
  generalize b.write address value = after at outcome ⊢
  cases outcome with
  | lcdControl lcd =>
    rw [lcd]
    exact Lcd.position_writeControl_le h.lcd value
  | line =>
    change (Lcd.lineCycles * (0 : Nat) + (Lcd.lineCycles - b.lcd.countdown) : Int) ≤
      Lcd.lineCycles * b.lcd.line.toNat + (Lcd.lineCycles - b.lcd.countdown)
    simp only [Lcd.lineCycles]
    omega
  | linkControl =>
    simp only [Board.writeLinkControl]
    split <;> exact Int.le_refl _
  | other same => exact Int.le_of_eq (congrArg Pace.position same.pace)
  | _ => exact Int.le_refl _

theorem nearTop_invariant : Bus.Invariant NearTop where
  read _ _ h := h
  write address byte w h := by
    refine ⟨h.sound.write address byte, Int.le_trans (h.sound.position_write_le address byte) ?_⟩
    change _ ≤ (Access.total (w.seen ++ [_]) : Int)
    rw [Access.total_append, Access.total_write]
    exact h.near
  note event w h := by
    refine ⟨h.sound.note event, ?_⟩
    change _ ≤ (Access.total (w.seen ++ [_]) : Int)
    rw [Access.total_append, Access.total_note]
    exact h.near
  tick cycles short w h := by
    apply Watched.tick_keeps short h
    · refine ⟨h.sound, ?_⟩
      rw [Access.total_append, Access.total_batch]
      exact h.near
    · intro after sound _ lcd
      refine ⟨sound h.sound, ?_⟩
      have near := h.near
      rw [lcd, Access.total_append, Access.total_batch]
      rcases Lcd.pace_batch cycles w.bus.lcd with ⟨_, same⟩ | ⟨_, status, same⟩
      · rw [same]
        omega
      · obtain ⟨turns, moved⟩ := Pace.position_countDown h.sound.lcd cycles
        rw [same]
        change (w.bus.lcd.pace.countDown cycles).position ≤ _
        simp only [frameCycles, Lcd.lineCycles] at moved
        omega

namespace Machine

variable {m next : Machine Board} {cycles : Nat}

/-- A step that spares the LCD brings the blank nearer by its cycles, or reaches it. -/
theorem blank_step (sound : m.bus.Sound) (on : m.bus.lcd.pace.enabled = true)
    (waiting : m.bus.lcd.pace.frameReady = false) (stepped : m.step = (.ok cycles, next))
    (spares : Spares [0xFF40, 0xFF44] m.traffic) :
    next.bus.lcd.pace.enabled = true ∧
    ((next.bus.lcd.pace.frameReady = false ∧
        next.bus.lcd.pace.untilBlank = m.bus.lcd.pace.untilBlank - cycles) ∨
      (next.bus.lcd.pace.frameReady = true ∧
        next.bus.lcd.pace.untilBlank = m.bus.lcd.pace.untilBlank - cycles + frameCycles)) := by
  have start : BlankAwaited m.bus.lcd.pace.untilBlank ⟨m.bus, []⟩ :=
    ⟨sound, fun _ => ⟨on, 0, by simp, by simp [waiting]⟩⟩
  obtain ⟨moved, counted⟩ := watched_step (blankAwaited_invariant _) start stepped
  have short := step_le (congrArg Prod.fst stepped)
  obtain ⟨stays, turns, nearer, reached⟩ := moved.moved spares
  obtain ⟨soon, _⟩ := Pace.untilBlank_bounds sound.lcd
  obtain ⟨_, late⟩ := Pace.untilBlank_bounds moved.sound.lcd
  rw [counted] at nearer
  simp only [frameCycles, Lcd.lineCycles, longestBatch, Interrupt.dispatchCycles] at *
  refine ⟨stays, ?_⟩
  by_cases none : turns = 0
  · subst none
    exact .inl ⟨Bool.eq_false_iff.mpr fun ready => absurd (reached.mp ready) (by omega), by omega⟩
  · obtain rfl : turns = 1 := by omega
    exact .inr ⟨reached.mpr (by omega), by omega⟩

/-- A blank that a step reaches began within the step. -/
theorem fresh_step (sound : m.bus.Sound) (waiting : m.bus.lcd.pace.frameReady = false)
    (stepped : m.step = (.ok cycles, next)) (ready : next.bus.lcd.pace.frameReady = true)
    (on : next.bus.lcd.pace.enabled = true) (blank : next.bus.lcd.pace.line.toNat = screenHeight) :
    (Lcd.lineCycles : Int) - next.bus.lcd.pace.countdown < cycles := by
  have start : BlankFresh ⟨m.bus, []⟩ :=
    ⟨sound, fun ready => absurd (waiting.symm.trans ready) (by decide)⟩
  obtain ⟨fresh, counted⟩ := watched_step blankFresh_invariant start stepped
  rw [← counted]
  exact fresh.recent ready on blank

theorem dark_step (off : m.bus.lcd.pace.enabled = false) (waiting : m.bus.lcd.pace.frameReady = false)
    (spares : Spares [0xFF40] m.traffic) :
    m.step.2.bus.lcd.pace.enabled = false ∧ m.step.2.bus.lcd.pace.frameReady = false := by
  have start : Dark m.watch.bus := fun _ => ⟨off, waiting⟩
  have dark := step_keeps dark_invariant start
  rw [watch_step] at dark
  exact dark spares

/-- A step that begins with the LCD off ends in the first line, even if it switches the LCD on. -/
theorem line_of_dark_step (sound : m.bus.Sound) (off : m.bus.lcd.enabled = false)
    (stepped : m.step = (.ok cycles, next)) : next.bus.lcd.line = 0 := by
  have short := step_le (congrArg Prod.fst stepped)
  obtain ⟨line, countdown, _⟩ := sound.lcd.off off
  have top : m.bus.lcd.pace.position = 0 := by
    rw [Pace.position, line, countdown]
    rfl
  have start : NearTop ⟨m.bus, []⟩ := ⟨sound, Int.le_of_eq top⟩
  obtain ⟨after, counted⟩ := watched_step nearTop_invariant start stepped
  have near := after.near
  have whole : next.bus.lcd.countdown ≤ Lcd.lineCycles := after.sound.lcd.le_line
  rw [counted] at near
  change (Lcd.lineCycles * next.bus.lcd.line.toNat + (Lcd.lineCycles - next.bus.lcd.countdown) : Int) ≤ cycles at near
  simp only [Lcd.lineCycles, longestBatch, Interrupt.dispatchCycles] at near short whole
  apply UInt8.toNat.inj
  rw [UInt8.toNat_zero]
  omega

theorem behind_of_step {fault : Fault} {rest : Machine Board} (sound : m.bus.Sound)
    (failed : m.step = (.error fault, rest)) (goesOn : ∀ access ∈ m.traffic, access.halts = false) :
    fault = .countdownOverflow ∧ rest.bus.timer.Behind := by
  rcases fault_of_step sound failed with cpu | late
  · obtain ⟨cycles, done⟩ := stepCpu_of_goesOn goesOn
    rw [cpu] at done
    cases done
  · exact late

end Machine
end DotMatrix
