import DotMatrix.Countdown
import DotMatrix.Lcd.Scanline

/-!
The LCD in time. It goes through the lines in turn and draws each visible one when the line begins;
the lines after those are the vertical blank.
-/

namespace DotMatrix.Lcd

def lastLine : Nat := 153

/-- The mode at a place in the picture: a visible line starts with a scan of 80 cycles, followed by a
transfer of 172. -/
def modeAt (line : UInt8) (countdown : Int) : Mode :=
  if screenHeight ≤ line.toNat then .vblank
  else if lineCycles - 80 < countdown then .oamScan
  else if lineCycles - 80 - 172 < countdown then .transfer
  else .hblank

def mode (lcd : Lcd) : Mode := modeAt lcd.line lcd.countdown

def following (line : UInt8) : UInt8 := if lastLine ≤ line.toNat then 0 else line + 1

theorem following_le (line : UInt8) : (following line).toNat ≤ lastLine := by
  unfold following
  split
  next => decide
  next early =>
    have one : (1 : UInt8).toNat = 1 := rfl
    rw [UInt8.toNat_add]
    omega

def nextLine (lcd : Lcd) : Lcd :=
  let line := following lcd.line
  let lcd := { lcd with line }
  if h : line.toNat < screenHeight then lcd.drawLine ⟨line.toNat, h⟩
  else if line.toNat = screenHeight then { lcd with frameReady := true }
  else lcd

def coincides (lcd : Lcd) : Bool := lcd.line == lcd.lineCompare

/-- The status asks for an interrupt: a selected mode has begun, or a selected line is reached. -/
def asksInterrupt (lcd : Lcd) : Bool :=
  lcd.mode.number != lcd.status &&& 0x03 && Byte.has lcd.status lcd.mode.selectMask
    || lcd.coincides && Byte.has lcd.status 0x40

def refreshStatus (lcd : Lcd) : Lcd :=
  { lcd with
    status := lcd.status &&& 0xF8 ||| lcd.mode.number ||| if lcd.coincides then 0x04 else 0 }

structure Requests where
  /-- The vertical blank has begun. -/
  vblank : Bool
  /-- The status interrupt is requested, with what it is requested for. -/
  stat : Option LcdEvent

def endsLine (cycles : Int) (lcd : Lcd) : Bool := lcd.countdown ≤ cycles

/-- Counts down, and starts at most one new line. -/
def countDown (cycles : Int) (lcd : Lcd) : Lcd :=
  if lcd.endsLine cycles then nextLine { lcd with countdown := lcd.countdown - cycles + lineCycles }
  else { lcd with countdown := lcd.countdown - cycles }

def admits (cycles : Int) (lcd : Lcd) : Bool :=
  !lcd.enabled || Countdown.admits lcd.countdown cycles

/-- A batch of cycles. While the LCD is off nothing happens. -/
def advance (cycles : Int) (lcd : Lcd) : Requests × Lcd :=
  if lcd.enabled then
    let ended := lcd.endsLine cycles
    let lcd := lcd.countDown cycles
    let stat :=
      if lcd.asksInterrupt then some (.statRequest lcd.status lcd.line lcd.mode) else none
    (⟨ended && lcd.line.toNat == screenHeight, stat⟩, lcd.refreshStatus)
  else (⟨false, none⟩, lcd)

end DotMatrix.Lcd
