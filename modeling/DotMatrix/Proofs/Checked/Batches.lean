import DotMatrix.Proofs.Board.Soundness
import DotMatrix.Proofs.Checked.Board
import DotMatrix.Proofs.Checked.Scanline

/-!
Batches of cycles with checks. The divider and the line are counted in words of 32 bits with a sign, a
line that begins is drawn, and only the counter of the timer may refuse a batch.
-/

namespace DotMatrix.Checked

structure Bench where
  board : Board
  left : Block screenWidth

def advanceDivider (cycles : Int) (t : Timer) : Option Timer := do
  let countdown ← fitsSigned 32 (t.dividerCountdown - cycles)
  let due := Timer.periodsDue countdown Timer.dividerPeriod
  let rewound ← fitsSigned 32 (countdown + due * Timer.dividerPeriod)
  return { t with dividerCountdown := rewound, divider := t.divider + UInt8.ofNat due }

def following (line : UInt8) : Option UInt8 :=
  if Lcd.lastLine ≤ line.toNat then some 0
  else do
    let next ← fits 8 (line.toNat + 1)
    return UInt8.ofNat next

def nextLine (lcd : Lcd) (left : Block screenWidth) : Option (Lcd × Block screenWidth) := do
  let line ← following lcd.line
  let lcd := { lcd with line }
  if line.toNat < screenHeight then
    let canvas ← drawLine lcd line left
    return ({ lcd with picture := canvas.picture }, canvas.lower)
  else if line.toNat = screenHeight then return ({ lcd with frameReady := true }, left)
  else return (lcd, left)

def countDown (cycles : Int) (lcd : Lcd) (left : Block screenWidth) :
    Option (Lcd × Block screenWidth) := do
  let countdown ← fitsSigned 32 (lcd.countdown - cycles)
  if countdown ≤ 0 then
    let countdown ← fitsSigned 32 (countdown + Lcd.lineCycles)
    nextLine { lcd with countdown } left
  else return ({ lcd with countdown }, left)

def selectsMode (lcd : Lcd) : Option Bool :=
  if lcd.mode.number ≠ lcd.status &&& 0x03 ∧ lcd.mode ≠ .transfer then do
    let place ← fits 8 (lcd.mode.number.toNat + 3)
    let mask ← shiftLeft 1 place
    return Byte.has lcd.status mask
  else some false

def advanceLcd (cycles : Int) (lcd : Lcd) (left : Block screenWidth) :
    Option ((Lcd.Requests × Lcd) × Block screenWidth) :=
  if lcd.enabled then do
    let (moved, left) ← countDown cycles lcd left
    let selected ← selectsMode moved
    let asks := selected || moved.coincides && Byte.has moved.status 0x40
    let stat := if asks then some (.statRequest moved.status moved.line moved.mode) else none
    let vblank := lcd.endsLine cycles && moved.line.toNat == screenHeight
    return ((⟨vblank, stat⟩, moved.refreshStatus), left)
  else some ((⟨false, none⟩, lcd), left)

def settle (requests : Lcd.Requests) (lcd : Lcd) (b : Board) : Board :=
  let b := { b with lcd }
  let b :=
    if requests.vblank then
      let b := b.request .vblank
      b.note (LcdEvent.vblank b.requests)
    else b
  match requests.stat with
  | some event => (b.request .stat).note event
  | none => b

def tick (cycles : Nat) (bench : Bench) : Option (Except Fault Unit × Bench) :=
  if cycles = 0 then some (.ok (), bench)
  else do
    let batch := Countdown.batch cycles
    let timer ← advanceDivider batch bench.board.timer.reload
    if timer.enabled && !Countdown.admits timer.counterCountdown batch then
      return (.error .countdownOverflow, bench)
    else
      let b := { bench.board with timer := timer.advanceCounter batch }
      let b := if bench.board.timer.requestsInterrupt then b.request .timer else b
      let ((requests, lcd), left) ← advanceLcd batch b.lcd bench.left
      return (.ok (), ⟨settle requests lcd b, left⟩)

theorem advanceDivider_eq {t : Timer} (sound : t.Sound) {cycles : Int} (forwards : 0 ≤ cycles)
    (short : cycles ≤ longestBatch) : advanceDivider cycles t = some (t.advanceDivider cycles) := by
  have positive := sound.divider_pos
  have small := sound.divider_le
  have after := sound.advanceDivider forwards
  have positive' := after.divider_pos
  have small' := after.divider_le
  simp only [Timer.dividerPeriod, longestBatch] at small small' short
  simp only [advanceDivider, Option.bind_eq_bind]
  rw [fitsSigned_eq (by omega) (by omega), Option.bind_some]
  simp only [Timer.advanceDivider, Timer.dividerPeriod] at positive' small' ⊢
  rw [fitsSigned_eq (by omega) (by omega)]
  rfl

theorem following_eq (line : UInt8) : following line = some (Lcd.following line) := by
  unfold following Lcd.following
  split
  next => rfl
  next early =>
    simp only [Lcd.lastLine] at early
    rw [fits_eq (by omega), Option.bind_eq_bind, Option.bind_some, UInt8.ofNat_add, UInt8.ofNat_toNat]
    rfl

theorem nextLine_eq (lcd : Lcd) (left : Block screenWidth) :
    ∃ colors, nextLine lcd left = some (lcd.nextLine, colors) := by
  simp only [nextLine, Lcd.nextLine, following_eq, Option.bind_eq_bind, Option.bind_some]
  by_cases visible : (Lcd.following lcd.line).toNat < screenHeight
  · have drawn := drawLine_eq { lcd with line := Lcd.following lcd.line } ⟨_, visible⟩ left
    simp only [UInt8.ofNat_toNat] at drawn
    rw [if_pos visible, dif_pos visible, drawn]
    exact ⟨_, rfl⟩
  · rw [if_neg visible, dif_neg visible]
    split <;> exact ⟨_, rfl⟩

theorem countDown_eq {lcd : Lcd} (positive : 0 < lcd.countdown) (line : lcd.countdown ≤ Lcd.lineCycles)
    {cycles : Int} (forwards : 0 ≤ cycles) (short : cycles ≤ longestBatch) (left : Block screenWidth) :
    ∃ colors, countDown cycles lcd left = some (lcd.countDown cycles, colors) := by
  simp only [Lcd.lineCycles, longestBatch] at line short
  simp only [countDown, Lcd.countDown, Lcd.endsLine, Option.bind_eq_bind, decide_eq_true_eq]
  rw [fitsSigned_eq (by omega) (by omega), Option.bind_some]
  by_cases ends : lcd.countdown ≤ cycles
  · rw [if_pos (by omega), if_pos ends, Lcd.lineCycles, fitsSigned_eq (by omega) (by omega),
      Option.bind_some]
    exact nextLine_eq ..
  · rw [if_neg (by omega), if_neg ends]
    exact ⟨_, rfl⟩

theorem selectsMode_eq (lcd : Lcd) :
    selectsMode lcd =
      some (lcd.mode.number != lcd.status &&& 0x03 && Byte.has lcd.status lcd.mode.selectMask) := by
  unfold selectsMode
  generalize lcd.mode = mode
  by_cases same : mode.number = lcd.status &&& 0x03
  · rw [if_neg fun both => both.1 same, bne_eq_false_iff_eq.mpr same, Bool.false_and]
  · rw [bne_iff_ne.mpr same, Bool.true_and]
    cases mode with
    | transfer =>
      have none : Byte.has lcd.status 0 = false := by simp [Byte.has]
      rw [if_neg fun both => both.2 rfl, Mode.selectMask, none]
    | hblank | vblank | oamScan =>
      rw [if_pos ⟨same, nofun⟩]
      rfl

theorem advanceLcd_eq {lcd : Lcd} (sound : lcd.pace.Sound) {cycles : Int} (forwards : 0 ≤ cycles)
    (short : cycles ≤ longestBatch) (left : Block screenWidth) :
    ∃ colors, advanceLcd cycles lcd left = some (lcd.advance cycles, colors) := by
  unfold advanceLcd Lcd.advance
  split
  next =>
    obtain ⟨colors, counted⟩ := countDown_eq sound.positive sound.le_line forwards short left
    simp only [counted, selectsMode_eq, Option.bind_eq_bind, Option.bind_some]
    exact ⟨colors, rfl⟩
  next => exact ⟨left, rfl⟩

/-- A batch is refused only for the counter, and otherwise every check is passed. -/
theorem tick_eq {bench : Bench} (sound : bench.board.Sound) {cycles : Nat} (short : cycles ≤ longestBatch) :
    ∃ colors, tick cycles bench =
      some ((bench.board.tick cycles).1, ⟨(bench.board.tick cycles).2, colors⟩) := by
  obtain ⟨b, left⟩ := bench
  unfold tick Board.tick
  by_cases none : cycles = 0
  · rw [if_pos none, if_pos none]
    exact ⟨left, rfl⟩
  · rw [if_neg none, if_neg none]
    have kept : (b.timer.reload.advanceDivider cycles).enabled = b.timer.enabled ∧
        (b.timer.reload.advanceDivider cycles).counterCountdown = b.timer.counterCountdown := by
      unfold Timer.reload
      split <;> exact ⟨rfl, rfl⟩
    simp only [Countdown.batch_eq short, advanceDivider_eq sound.timer.reload (Int.natCast_nonneg _)
      (Int.ofNat_le.mpr short), kept, Option.bind_eq_bind, Option.bind_some]
    have divider := sound.timer.divider_admits (show cycles < 2 ^ 30 by unfold longestBatch at short; omega)
    have counter : (!b.timer.enabled || Countdown.admits b.timer.counterCountdown cycles) =
        !(b.timer.enabled && !Countdown.admits b.timer.counterCountdown cycles) := by
      rw [Bool.not_and, Bool.not_not]
    rw [Timer.admits, divider, sound.lcd_admits short, Bool.true_and, Bool.and_true, counter]
    cases b.timer.enabled && !Countdown.admits b.timer.counterCountdown cycles with
    | true => exact ⟨left, rfl⟩
    | false =>
      have line := (sound.advanceTimer (Int.natCast_nonneg cycles)).lcd
      obtain ⟨colors, moved⟩ :=
        advanceLcd_eq line (Int.natCast_nonneg cycles) (Int.ofNat_le.mpr short) left
      refine ⟨colors, ?_⟩
      change (advanceLcd cycles (b.advanceTimer cycles).lcd left).bind _ = _
      rw [moved]
      rfl

end DotMatrix.Checked
