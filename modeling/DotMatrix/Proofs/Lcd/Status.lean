import DotMatrix.Proofs.Lcd.Pace

/-!
The status of the LCD over time. A batch stores the mode of the place that it leads to, and as long as no batch is
longer than a scan, the stored mode goes through a line without leaving a mode out.
-/

namespace DotMatrix.Lcd

def shown (lcd : Lcd) : UInt8 := lcd.status &&& 0x03

def Selected (status mode : UInt8) : Prop :=
  mode = 0 ∧ Byte.has status 0x08 = true ∨ mode = 1 ∧ Byte.has status 0x10 = true ∨
    mode = 2 ∧ Byte.has status 0x20 = true

theorem selected_rest (status : UInt8) : Selected status 0 ↔ Byte.has status 0x08 = true := by simp [Selected]

theorem selected_blank (status : UInt8) : Selected status 1 ↔ Byte.has status 0x10 = true := by simp [Selected]

theorem selected_scan (status : UInt8) : Selected status 2 ↔ Byte.has status 0x20 = true := by simp [Selected]

theorem not_selected_transfer (status : UInt8) : ¬Selected status 3 := by simp [Selected]

variable {lcd : Lcd} {cycles : Int}

theorem number_modeAt (line : UInt8) (countdown : Int) :
    (modeAt line countdown).number =
      if 144 ≤ line.toNat then 1 else if 376 < countdown then 2 else if 204 < countdown then 3 else 0 := by
  have scan : (lineCycles : Int) - 80 = 376 := rfl
  have transfer : (lineCycles : Int) - 80 - 172 = 204 := rfl
  rw [modeAt, transfer, scan]
  split
  next => rfl
  next =>
    split
    next => rfl
    next => split <;> rfl

theorem refreshStatus_and (mask : UInt8) (lcd : Lcd) :
    lcd.refreshStatus.status &&& mask =
      lcd.status &&& (0xF8 &&& mask) ||| (lcd.mode.number ||| if lcd.coincides then 0x04 else 0) &&& mask := by
  rw [refreshStatus, UInt8.or_assoc, Byte.or_and, UInt8.and_assoc]

theorem shown_refreshStatus (lcd : Lcd) : lcd.refreshStatus.shown = lcd.mode.number := by
  rw [shown, refreshStatus_and]
  generalize lcd.mode = mode, lcd.coincides = coincides
  rw [show (0xF8 : UInt8) &&& 0x03 = 0 from rfl, UInt8.and_zero, UInt8.zero_or]
  cases mode <;> cases coincides <;> rfl

theorem coincidence_refreshStatus (lcd : Lcd) : Byte.has lcd.refreshStatus.status 0x04 = lcd.coincides := by
  rw [Byte.has, refreshStatus_and]
  generalize lcd.mode = mode, lcd.coincides = coincides
  rw [show (0xF8 : UInt8) &&& 0x04 = 0 from rfl, UInt8.and_zero, UInt8.zero_or]
  cases mode <;> cases coincides <;> rfl

theorem selects_refreshStatus (lcd : Lcd) : lcd.refreshStatus.status &&& 0x78 = lcd.status &&& 0x78 := by
  rw [refreshStatus_and]
  generalize lcd.mode = mode, lcd.coincides = coincides
  have low : (mode.number ||| if coincides then 0x04 else 0) &&& 0x78 = 0 := by
    cases mode <;> cases coincides <;> rfl
  rw [low, UInt8.or_zero]
  rfl

theorem status_countDown (cycles : Int) (lcd : Lcd) : (lcd.countDown cycles).status = lcd.status := by
  have same := congrArg Pace.status (pace_countDown cycles lcd)
  simp only [Pace.countDown] at same
  split at same <;> exact same

theorem advance_of_on (on : lcd.enabled = true) : (lcd.advance cycles).2 = (lcd.countDown cycles).refreshStatus := by
  rw [advance, if_pos on]

theorem selects_advance (cycles : Int) (lcd : Lcd) :
    (lcd.advance cycles).2.status &&& 0x78 = lcd.status &&& 0x78 := by
  cases on : lcd.enabled with
  | true => rw [advance_of_on on, selects_refreshStatus, status_countDown]
  | false => rw [advance, if_neg (by rw [on]; decide)]

theorem has_of_selects {first second : UInt8} (same : first &&& 0x78 = second &&& 0x78) {mask : UInt8}
    (select : 0x78 &&& mask = mask) : Byte.has first mask = Byte.has second mask := by
  rw [Byte.has, Byte.has, ← select, ← UInt8.and_assoc, ← UInt8.and_assoc, same]

/-- While the LCD is on, its status tells the mode of its place and whether its line is the one compared with. -/
def Coherent (lcd : Lcd) : Prop :=
  lcd.enabled = true → lcd.shown = lcd.mode.number ∧ Byte.has lcd.status 0x04 = lcd.coincides

/-- Every batch makes the status coherent, whatever it was before. -/
theorem coherent_advance (cycles : Int) (lcd : Lcd) : (lcd.advance cycles).2.Coherent := by
  cases on : lcd.enabled with
  | true =>
    rw [advance_of_on on]
    intro _
    exact ⟨shown_refreshStatus _, coincidence_refreshStatus _⟩
  | false =>
    rw [advance, if_neg (by rw [on]; decide)]
    intro off
    exact absurd (on.symm.trans off) (by decide)

/-- The LCD is on, its counts are in their ranges, and the stored mode is that of its place. -/
structure Tracks (lcd : Lcd) : Prop where
  on : lcd.enabled = true
  line_le : lcd.line.toNat ≤ 153
  positive : 1 ≤ lcd.countdown
  le_line : lcd.countdown ≤ 456
  current : lcd.shown = lcd.mode.number

namespace Tracks

theorem shown_of_blank (h : lcd.Tracks) (late : 144 ≤ lcd.line.toNat) : lcd.shown = 1 := by
  rw [h.current, mode, number_modeAt, if_pos late]

theorem shown_of_scan (h : lcd.Tracks) (early : ¬144 ≤ lcd.line.toNat) (far : 376 < lcd.countdown) :
    lcd.shown = 2 := by
  rw [h.current, mode, number_modeAt, if_neg early, if_pos far]

theorem shown_of_transfer (h : lcd.Tracks) (early : ¬144 ≤ lcd.line.toNat) (near : lcd.countdown ≤ 376)
    (far : 204 < lcd.countdown) : lcd.shown = 3 := by
  rw [h.current, mode, number_modeAt, if_neg early, if_neg (Int.not_lt.mpr near), if_pos far]

theorem shown_of_rest (h : lcd.Tracks) (early : ¬144 ≤ lcd.line.toNat) (near : lcd.countdown ≤ 204) :
    lcd.shown = 0 := by
  rw [h.current, mode, number_modeAt, if_neg early, if_neg (by omega), if_neg (by omega)]

theorem shown_of_visible (h : lcd.Tracks) (early : ¬144 ≤ lcd.line.toNat) :
    lcd.shown = 2 ∨ lcd.shown = 3 ∨ lcd.shown = 0 := by
  by_cases scan : 376 < lcd.countdown
  · exact .inl (h.shown_of_scan early scan)
  by_cases transfer : 204 < lcd.countdown
  · exact .inr (.inl (h.shown_of_transfer early (by omega) transfer))
  · exact .inr (.inr (h.shown_of_rest early (by omega)))

theorem shown_eq_one (h : lcd.Tracks) : lcd.shown = 1 ↔ 144 ≤ lcd.line.toNat := by
  by_cases late : 144 ≤ lcd.line.toNat
  · exact iff_of_true (h.shown_of_blank late) late
  · refine iff_of_false ?_ late
    rcases h.shown_of_visible late with two | three | zero
    · rw [two]; decide
    · rw [three]; decide
    · rw [zero]; decide

end Tracks

/-- Where a batch leads that is not longer than the scan at the start of a line. -/
inductive Advanced (cycles : Int) (before after : Lcd) : Prop where
  | within (line : after.line = before.line) (countdown : after.countdown = before.countdown - cycles)
      (left : 0 < after.countdown)
  | lineEnds (ended : before.countdown ≤ cycles) (line : after.line = following before.line)
      (countdown : after.countdown = before.countdown - cycles + 456)

theorem advanced (on : lcd.enabled = true) (cycles : Int) : Advanced cycles lcd (lcd.advance cycles).2 := by
  have counted := pace_countDown cycles lcd
  rw [advance_of_on on]
  unfold Pace.countDown at counted
  split at counted
  next ended => exact .lineEnds ended (congrArg Pace.line counted) (congrArg Pace.countdown counted)
  next short =>
    have countdown : (lcd.countDown cycles).countdown = lcd.countdown - cycles := congrArg Pace.countdown counted
    refine .within (congrArg Pace.line counted) countdown ?_
    change 0 < (lcd.countDown cycles).countdown
    change ¬lcd.countdown ≤ cycles at short
    omega

theorem Tracks.advance (h : lcd.Tracks) (some : 1 ≤ cycles) (short : cycles ≤ 80) :
    (lcd.advance cycles).2.Tracks := by
  have positive := h.positive
  have le_line := h.le_line
  have current : (lcd.advance cycles).2.shown = (lcd.advance cycles).2.mode.number := by
    rw [advance_of_on h.on, shown_refreshStatus]
    rfl
  have on := (enabled_advance cycles lcd).trans h.on
  have moved := advanced h.on cycles
  generalize (lcd.advance cycles).2 = after at current on moved ⊢
  cases moved with
  | within line countdown left => exact ⟨on, line ▸ h.line_le, left, by omega, current⟩
  | lineEnds ended line countdown => exact ⟨on, line ▸ following_le lcd.line, by omega, by omega, current⟩

inductive Turn (before after : Lcd) : Prop where
  | stays (mode : after.shown = before.shown) (line : after.line = before.line)
  | blankLine (mode : before.shown = 1) (next : after.shown = 1) (late : 144 ≤ before.line.toNat)
      (line : after.line.toNat = before.line.toNat + 1)
  | transfer (mode : before.shown = 2) (next : after.shown = 3) (line : after.line = before.line)
  | rest (mode : before.shown = 3) (next : after.shown = 0) (line : after.line = before.line)
  | nextLine (mode : before.shown = 0) (next : after.shown = 2) (visible : after.line.toNat ≤ 143)
      (line : after.line.toNat = before.line.toNat + 1)
  | blank (mode : before.shown = 0) (next : after.shown = 1) (last : before.line.toNat = 143)
      (line : after.line.toNat = 144)
  | top (mode : before.shown = 1) (next : after.shown = 2) (last : before.line.toNat = 153)
      (line : after.line.toNat = 0)

/-- Within a line the mode stays or is followed by the next. -/
theorem Tracks.turn_within {after : Lcd} (h : lcd.Tracks) (h' : after.Tracks) (short : cycles ≤ 80)
    (line : after.line = lcd.line) (countdown : after.countdown = lcd.countdown - cycles) (some : 1 ≤ cycles) :
    lcd.Turn after := by
  by_cases late : 144 ≤ lcd.line.toNat
  · exact .stays ((h'.shown_of_blank (line ▸ late)).trans (h.shown_of_blank late).symm) line
  have early : ¬144 ≤ after.line.toNat := line ▸ late
  -- Each threshold is passed by at most one batch, and none passes two of them: they are more than 80 apart.
  by_cases scan : 376 < after.countdown
  · exact .stays ((h'.shown_of_scan early scan).trans (h.shown_of_scan late (by omega)).symm) line
  by_cases transfer : 204 < after.countdown
  · have three := h'.shown_of_transfer early (by omega) transfer
    by_cases before : 376 < lcd.countdown
    · exact .transfer (h.shown_of_scan late before) three line
    · exact .stays (three.trans (h.shown_of_transfer late (by omega) (by omega)).symm) line
  · have zero := h'.shown_of_rest early (by omega)
    by_cases before : 204 < lcd.countdown
    · exact .rest (h.shown_of_transfer late (by omega) before) zero line
    · exact .stays (zero.trans (h.shown_of_rest late (by omega)).symm) line

/-- A line ends in its rest or in the blank, and the next begins with its scan or in the blank. -/
theorem Tracks.turn_over {after : Lcd} (h : lcd.Tracks) (h' : after.Tracks) (short : cycles ≤ 80)
    (ended : lcd.countdown ≤ cycles) (line : after.line = following lcd.line)
    (countdown : after.countdown = lcd.countdown - cycles + 456) : lcd.Turn after := by
  have positive := h.positive
  have last := h.line_le
  by_cases bottom : lcd.line.toNat = 153
  · have first : after.line.toNat = 0 := by
      rw [line, following, if_pos (show lastLine ≤ lcd.line.toNat from Nat.le_of_eq bottom.symm)]
      rfl
    exact .top (h.shown_of_blank (by omega)) (h'.shown_of_scan (by omega) (by omega)) bottom first
  · have next : after.line.toNat = lcd.line.toNat + 1 := by
      have one : (1 : UInt8).toNat = 1 := rfl
      rw [line, following, if_neg (by simp only [lastLine]; omega), UInt8.toNat_add, one]
      omega
    by_cases late : 144 ≤ lcd.line.toNat
    · exact .blankLine (h.shown_of_blank late) (h'.shown_of_blank (by omega)) late next
    · -- The line that follows begins with more than 376 cycles left, since a batch has at most 80.
      have zero := h.shown_of_rest late (by omega)
      by_cases end' : lcd.line.toNat = 143
      · exact .blank zero (h'.shown_of_blank (by omega)) end' (by omega)
      · exact .nextLine zero (h'.shown_of_scan (by omega) (by omega)) (by omega) next

theorem Tracks.turn (h : lcd.Tracks) (some : 1 ≤ cycles) (short : cycles ≤ 80) :
    lcd.Turn (lcd.advance cycles).2 := by
  have h' := h.advance some short
  cases advanced h.on cycles with
  | within line countdown => exact h.turn_within h' short line countdown some
  | lineEnds ended line countdown => exact h.turn_over h' short ended line countdown

def asks (cycles : Int) (lcd : Lcd) : Bool := (lcd.advance cycles).1.stat.isSome

/-- Without the interrupt of the line, an update asks exactly when it begins a mode that is selected. -/
theorem Tracks.asks_iff (h : lcd.Tracks) (unlinked : Byte.has lcd.status 0x40 = false) (cycles : Int) :
    lcd.asks cycles = true ↔
      (lcd.advance cycles).2.shown ≠ lcd.shown ∧ Selected lcd.status (lcd.advance cycles).2.shown := by
  have asked : lcd.asks cycles = (lcd.countDown cycles).asksInterrupt := by
    rw [asks, Lcd.advance, if_pos h.on]
    simp only
    split
    next yes => rw [yes]; rfl
    next no => rw [Bool.eq_false_iff.mpr no]; rfl
  rw [asked, asksInterrupt, status_countDown, unlinked, Bool.and_false, Bool.or_false, advance_of_on h.on,
    shown_refreshStatus, ← shown, Bool.and_eq_true, bne_iff_ne]
  apply and_congr_right
  intro _
  cases (lcd.countDown cycles).mode <;> simp [Selected, Mode.number, Mode.selectMask, Byte.has]

end DotMatrix.Lcd
