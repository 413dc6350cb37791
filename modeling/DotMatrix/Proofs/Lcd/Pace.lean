import DotMatrix.Console
import DotMatrix.Proofs.Byte

/-!
The pace of the LCD: what it counts by, apart from its memories and the picture. Writes and batches no
longer than a line keep the pace sound, and every batch moves its place in the picture on by exactly
its cycles.
-/

namespace DotMatrix

structure Pace where
  control : UInt8
  status : UInt8
  line : UInt8
  countdown : Int
  frameReady : Bool

namespace Pace

def enabled (p : Pace) : Bool := Byte.has p.control 0x80

/-- The pace as it can be met. While the LCD is off it rests at the top of the picture. -/
structure Sound (p : Pace) : Prop where
  line_le : p.line.toNat ≤ Lcd.lastLine
  positive : 0 < p.countdown
  le_line : p.countdown ≤ Lcd.lineCycles
  unused : p.status &&& 0x80 = 0x80
  off : p.enabled = false → p.line = 0 ∧ p.countdown = Lcd.lineCycles ∧ p.status &&& 0x03 = 0

def countDown (cycles : Int) (p : Pace) : Pace :=
  if p.countdown ≤ cycles then
    { p with
      line := Lcd.following p.line
      countdown := p.countdown - cycles + Lcd.lineCycles
      frameReady := p.frameReady || (Lcd.following p.line).toNat == screenHeight }
  else { p with countdown := p.countdown - cycles }

def position (p : Pace) : Int := Lcd.lineCycles * p.line.toNat + (Lcd.lineCycles - p.countdown)

def untilBlank (p : Pace) : Int :=
  if p.line.toNat < screenHeight then Lcd.lineCycles * screenHeight - p.position
  else Lcd.lineCycles * screenHeight + frameCycles - p.position

variable {p : Pace} {cycles : Int}

theorem toNat_following (h : p.Sound) :
    (p.line.toNat = Lcd.lastLine ∧ (Lcd.following p.line).toNat = 0) ∨
      (p.line.toNat < Lcd.lastLine ∧ (Lcd.following p.line).toNat = p.line.toNat + 1) := by
  have last := h.line_le
  unfold Lcd.following
  split
  next late => exact .inl ⟨Nat.le_antisymm last late, rfl⟩
  next early =>
    have one : (1 : UInt8).toNat = 1 := rfl
    simp only [Lcd.lastLine] at early ⊢
    rw [UInt8.toNat_add]
    omega

theorem Sound.countDown (h : p.Sound) (on : p.enabled = true) (forwards : 0 ≤ cycles)
    (short : cycles ≤ Lcd.lineCycles) {status : UInt8} (unused : status &&& 0x80 = p.status &&& 0x80) :
    { p.countDown cycles with status }.Sound := by
  have positive := h.positive
  have line := h.le_line
  have on' : { p.countDown cycles with status }.enabled = true := by
    unfold Pace.countDown
    split <;> exact on
  refine ⟨?_, ?_, ?_, unused.trans h.unused, fun off => absurd (on'.symm.trans off) (by decide)⟩
  · unfold Pace.countDown
    split
    next => exact Lcd.following_le p.line
    next => exact h.line_le
  · unfold Pace.countDown
    split <;> simp only <;> omega
  · unfold Pace.countDown
    split <;> simp only <;> omega

theorem enabled_countDown (cycles : Int) (p : Pace) : (p.countDown cycles).enabled = p.enabled := by
  unfold countDown
  split <;> rfl

/-- A batch moves the place in the picture on by its cycles, once around at most. -/
theorem position_countDown (h : p.Sound) (cycles : Int) :
    ∃ turns : Nat, (p.countDown cycles).position + frameCycles * turns = p.position + cycles := by
  unfold countDown
  split
  next =>
    rcases toNat_following h with ⟨last, first⟩ | ⟨_, next⟩
    · refine ⟨1, ?_⟩
      simp only [position, first, last, frameCycles, Lcd.lastLine, Lcd.lineCycles]
      omega
    · refine ⟨0, ?_⟩
      simp only [position, next, Lcd.lineCycles]
      omega
  next =>
    refine ⟨0, ?_⟩
    simp only [position]
    omega

/-- The blank comes nearer by the cycles of a batch, until a batch reaches it. -/
theorem untilBlank_countDown (h : p.Sound) (cycles : Int) :
    ((p.countDown cycles).untilBlank = p.untilBlank - cycles ∧
      (p.countDown cycles).frameReady = p.frameReady) ∨
    ((p.countDown cycles).untilBlank = p.untilBlank - cycles + frameCycles ∧
      (p.countDown cycles).frameReady = true ∧ p.untilBlank ≤ cycles) := by
  unfold countDown
  split
  next ends =>
    rcases toNat_following h with ⟨last, first⟩ | ⟨before, next⟩
    · refine .inl ⟨?_, ?_⟩
      · simp only [untilBlank, position, first, last, frameCycles, Lcd.lastLine, Lcd.lineCycles, screenHeight]
        omega
      · rw [first]
        exact Bool.or_false _
    · by_cases blank : p.line.toNat + 1 = screenHeight
      · refine .inr ⟨?_, ?_, ?_⟩
        · simp only [untilBlank, position, next, frameCycles, Lcd.lineCycles, screenHeight] at blank ⊢
          omega
        · rw [next, blank]
          exact Bool.or_true _
        · simp only [untilBlank, position, Lcd.lineCycles, screenHeight] at blank ⊢
          omega
      · refine .inl ⟨?_, ?_⟩
        · simp only [untilBlank, position, next, frameCycles, Lcd.lineCycles, screenHeight] at blank ⊢
          omega
        · rw [next, beq_eq_false_iff_ne.mpr blank]
          exact Bool.or_false _
  next =>
    refine .inl ⟨?_, rfl⟩
    simp only [untilBlank, position, frameCycles, Lcd.lineCycles, screenHeight]
    omega

theorem untilBlank_bounds (h : p.Sound) : 0 < p.untilBlank ∧ p.untilBlank ≤ frameCycles := by
  have last := h.line_le
  have positive := h.positive
  have line := h.le_line
  simp only [untilBlank, position, frameCycles, Lcd.lastLine, Lcd.lineCycles, screenHeight] at *
  omega

end Pace

namespace Lcd

def pace (lcd : Lcd) : Pace := ⟨lcd.control, lcd.status, lcd.line, lcd.countdown, lcd.frameReady⟩

theorem sound_postBoot : postBoot.pace.Sound where
  line_le := by decide
  positive := by decide
  le_line := by decide
  unused := by decide
  off := by
    intro off
    cases off

theorem sound_writeControl (value : UInt8) {lcd : Lcd} (h : lcd.pace.Sound) :
    (lcd.writeControl value).1.pace.Sound := by
  unfold writeControl
  split
  next off =>
    refine ⟨Nat.zero_le _, Int.natCast_pos.mpr (by decide), Int.le_refl _, ?_, fun _ => ⟨rfl, rfl, ?_⟩⟩
    · calc
        (lcd.status &&& 0xFC) &&& 0x80 = lcd.status &&& (0xFC &&& 0x80) := UInt8.and_assoc ..
        _ = 0x80 := h.unused
    · calc
        (lcd.status &&& 0xFC) &&& 0x03 = lcd.status &&& (0xFC &&& 0x03) := UInt8.and_assoc ..
        _ = 0 := UInt8.and_zero
  next _ on =>
    exact ⟨h.line_le, Int.natCast_pos.mpr (by decide), Int.le_refl _, h.unused,
      fun off => absurd (on.symm.trans off) (by decide)⟩
  next other _ =>
    refine ⟨h.line_le, h.positive, h.le_line, h.unused, fun off => h.off ?_⟩
    cases before : lcd.enabled with
    | false => exact before
    | true => exact (other before off).elim

theorem sound_writeStatus (value : UInt8) {lcd : Lcd} (h : lcd.pace.Sound) :
    (lcd.writeStatus value).pace.Sound := by
  refine ⟨h.line_le, h.positive, h.le_line, ?_, fun off => ?_⟩
  · calc
      (lcd.status &&& 0x87 ||| value &&& 0x78) &&& 0x80
      _ = (lcd.status &&& 0x87) &&& 0x80 ||| (value &&& 0x78) &&& 0x80 := Byte.or_and ..
      _ = lcd.status &&& (0x87 &&& 0x80) ||| value &&& (0x78 &&& 0x80) := by
        rw [UInt8.and_assoc, UInt8.and_assoc]
      _ = lcd.status &&& 0x80 ||| value &&& 0 := rfl
      _ = 0x80 := by rw [UInt8.and_zero, UInt8.or_zero]; exact h.unused
  · obtain ⟨line, countdown, mode⟩ := h.off off
    refine ⟨line, countdown, ?_⟩
    calc
      (lcd.status &&& 0x87 ||| value &&& 0x78) &&& 0x03
      _ = (lcd.status &&& 0x87) &&& 0x03 ||| (value &&& 0x78) &&& 0x03 := Byte.or_and ..
      _ = lcd.status &&& (0x87 &&& 0x03) ||| value &&& (0x78 &&& 0x03) := by
        rw [UInt8.and_assoc, UInt8.and_assoc]
      _ = lcd.status &&& 0x03 ||| value &&& 0 := rfl
      _ = 0 := by rw [UInt8.and_zero, UInt8.or_zero]; exact mode

theorem sound_restart {lcd : Lcd} (h : lcd.pace.Sound) : { lcd with line := 0 }.pace.Sound :=
  ⟨Nat.zero_le _, h.positive, h.le_line, h.unused, fun off => ⟨rfl, (h.off off).2⟩⟩

theorem sound_clearFrame {lcd : Lcd} (h : lcd.pace.Sound) : lcd.clearFrame.pace.Sound :=
  ⟨h.line_le, h.positive, h.le_line, h.unused, h.off⟩

theorem pace_nextLine (lcd : Lcd) :
    (nextLine lcd).pace =
      { lcd.pace with
        line := following lcd.line
        frameReady := lcd.frameReady || (following lcd.line).toNat == screenHeight } := by
  simp only [nextLine]
  split
  next visible =>
    have early : ((following lcd.line).toNat == screenHeight) = false :=
      beq_eq_false_iff_ne.mpr (Nat.ne_of_lt visible)
    rw [early, Bool.or_false]
    rfl
  next =>
    split
    next blank => rw [beq_iff_eq.mpr blank, Bool.or_true]; rfl
    next other => rw [beq_eq_false_iff_ne.mpr other, Bool.or_false]; rfl

theorem pace_countDown (cycles : Int) (lcd : Lcd) :
    (lcd.countDown cycles).pace = lcd.pace.countDown cycles := by
  unfold countDown Pace.countDown
  by_cases ends : lcd.countdown ≤ cycles
  · rw [if_pos (show lcd.endsLine cycles from decide_eq_true ends), if_pos (show lcd.pace.countdown ≤ cycles from ends),
      pace_nextLine]
    rfl
  · rw [if_neg (by simpa [endsLine] using ends), if_neg (show ¬lcd.pace.countdown ≤ cycles from ends)]
    rfl

/-- A batch counts down and stores a status of which only the lower three bits are new. -/
theorem pace_advance (cycles : Int) {lcd : Lcd} (on : lcd.enabled = true) :
    ∃ status, (lcd.advance cycles).2.pace = { lcd.pace.countDown cycles with status } ∧
      status &&& 0x80 = lcd.status &&& 0x80 := by
  have counted := pace_countDown cycles lcd
  refine ⟨(lcd.countDown cycles).refreshStatus.status, ?_, ?_⟩
  · rw [advance, if_pos on, ← counted]
    rfl
  · have same : (lcd.countDown cycles).status = lcd.status := by
      have := congrArg Pace.status counted
      simp only [Pace.countDown] at this
      split at this <;> exact this
    simp only [refreshStatus, same]
    generalize (lcd.countDown cycles).mode = mode
    generalize (lcd.countDown cycles).coincides = coincides
    have low : (mode.number ||| if coincides then 0x04 else 0) &&& 0x80 = 0 := by
      cases mode <;> cases coincides <;> rfl
    calc
      (lcd.status &&& 0xF8 ||| mode.number ||| if coincides then 0x04 else 0) &&& 0x80
      _ = (lcd.status &&& 0xF8) &&& 0x80 ||| (mode.number ||| if coincides then 0x04 else 0) &&& 0x80 := by
        rw [UInt8.or_assoc, Byte.or_and]
      _ = lcd.status &&& (0xF8 &&& 0x80) := by rw [low, UInt8.or_zero, UInt8.and_assoc]

theorem pace_batch (cycles : Int) (lcd : Lcd) :
    (lcd.pace.enabled = false ∧ (lcd.advance cycles).2.pace = lcd.pace) ∨
    (lcd.pace.enabled = true ∧
      ∃ status, (lcd.advance cycles).2.pace = { lcd.pace.countDown cycles with status }) := by
  cases on : lcd.enabled with
  | false =>
    refine .inl ⟨on, ?_⟩
    rw [advance, on]
    rfl
  | true =>
    obtain ⟨status, same, _⟩ := pace_advance cycles on
    exact .inr ⟨on, status, same⟩

theorem vblank_iff {lcd : Lcd} (h : lcd.pace.Sound) (on : lcd.pace.enabled = true) {cycles : Int}
    (short : cycles ≤ lineCycles) : (lcd.advance cycles).1.vblank = true ↔ lcd.pace.untilBlank ≤ cycles := by
  have counted := congrArg Pace.line (pace_countDown cycles lcd)
  have positive := h.positive
  have asked : (lcd.advance cycles).1.vblank =
      (lcd.endsLine cycles && (lcd.countDown cycles).line.toNat == screenHeight) := by
    rw [advance, if_pos (show lcd.enabled = true from on)]
  rw [asked, show (lcd.countDown cycles).line = (lcd.pace.countDown cycles).line from counted, Bool.and_eq_true,
    beq_iff_eq]
  change lcd.endsLine cycles = true ∧ _ ↔ _
  rw [endsLine, decide_eq_true_iff]
  change lcd.pace.countdown ≤ cycles ∧ _ ↔ _
  by_cases ends : lcd.pace.countdown ≤ cycles
  · rw [Pace.countDown, if_pos ends]
    simp only [ends, true_and, Pace.untilBlank, Pace.position, frameCycles, lineCycles, screenHeight] at short ⊢
    rcases Pace.toNat_following h with ⟨last, first⟩ | ⟨before, next⟩
    · rw [first, last, lastLine]
      omega
    · rw [next]
      rw [lastLine] at before
      omega
  · simp only [ends, false_and, false_iff, Pace.untilBlank, Pace.position, frameCycles, lineCycles, screenHeight]
    have last := h.line_le
    rw [lastLine] at last
    omega

theorem enabled_advance (cycles : Int) (lcd : Lcd) : (lcd.advance cycles).2.pace.enabled = lcd.pace.enabled := by
  rcases pace_batch cycles lcd with ⟨_, same⟩ | ⟨_, status, same⟩
  · rw [same]
  · rw [same]
    exact Pace.enabled_countDown cycles lcd.pace

end Lcd
end DotMatrix
