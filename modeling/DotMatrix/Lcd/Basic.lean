import DotMatrix.Journal
import DotMatrix.Memory
import DotMatrix.Text.Hexadecimal
import DotMatrix.Word

/-!
The LCD: its memories, its registers, its place within the current line, and the picture it draws.
-/

namespace DotMatrix

abbrev screenWidth : Nat := 160

abbrev screenHeight : Nat := 144

/-- The gray of each pixel, row after row. -/
abbrev Picture : Type := Block (screenWidth * screenHeight)

theorem Picture.row_fits (y : Fin screenHeight) : y.val * screenWidth + screenWidth ≤ screenWidth * screenHeight := by
  have inside := y.isLt
  simp only [screenWidth, screenHeight] at *
  omega

structure Lcd where
  /-- Tiles and tile maps. -/
  vram : Block 0x2000
  /-- Forty sprites of four bytes. -/
  oam : Block 0xA0
  control : UInt8
  status : UInt8
  scrollY : UInt8
  scrollX : UInt8
  line : UInt8
  lineCompare : UInt8
  backgroundPalette : UInt8
  spritePalette0 : UInt8
  spritePalette1 : UInt8
  windowY : UInt8
  /-- Seven more than the left edge of the window. -/
  windowX : UInt8
  /-- Cycles left in the current line. -/
  countdown : Int
  picture : Picture
  /-- A vertical blank has begun since the flag was last cleared. -/
  frameReady : Bool

inductive Mode where
  | hblank | vblank | oamScan | transfer
  deriving DecidableEq, Repr

namespace Mode

def number : Mode → UInt8
  | hblank => 0
  | vblank => 1
  | oamScan => 2
  | transfer => 3

def name : Mode → String
  | hblank => "HBlank"
  | vblank => "VBlank"
  | oamScan => "OamScan"
  | transfer => "Transfer"

/-- The status bit that asks for an interrupt when the mode begins; a transfer has none. -/
def selectMask : Mode → UInt8
  | hblank => 0x08
  | vblank => 0x10
  | oamScan => 0x20
  | transfer => 0x00

end Mode

inductive LcdEvent where
  | switchedOff
  | switchedOn
  | vblank (requests : UInt8)
  | statRequest (status line : UInt8) (mode : Mode)

instance : Event LcdEvent where
  level
    | .statRequest .. => .trace
    | _ => .debug
  text
    | .switchedOff => "GB PPU: LCD off"
    | .switchedOn => "GB PPU: LCD on"
    | .vblank requests => s!"GB PPU: VBlank, IF=0x{Text.hexByte requests}"
    | .statRequest status line mode =>
      s!"GB PPU: STAT interrupt (STAT=0x{Text.hexByte status} LY={line.toNat} mode={mode.name})"

namespace Lcd

def lineCycles : Nat := 456

def white : UInt8 := 0xFF

def postBoot : Lcd where
  vram := Block.filled _ 0
  oam := Block.filled _ 0
  control := 0x91
  status := 0x85
  scrollY := 0
  scrollX := 0
  line := 0
  lineCompare := 0
  backgroundPalette := 0xFC
  spritePalette0 := 0xFF
  spritePalette1 := 0xFF
  windowY := 0
  windowX := 0
  countdown := lineCycles
  picture := Block.filled _ white
  frameReady := false

def enabled (lcd : Lcd) : Bool := Byte.has lcd.control 0x80

/-- Switching off goes back to the top of the picture; switching on starts a full line. -/
def writeControl (value : UInt8) (lcd : Lcd) : Lcd × Option LcdEvent :=
  match lcd.enabled, Byte.has value 0x80 with
  | true, false =>
    ({ lcd with control := value, line := 0, countdown := lineCycles, status := lcd.status &&& 0xFC },
      some .switchedOff)
  | false, true => ({ lcd with control := value, countdown := lineCycles }, some .switchedOn)
  | _, _ => ({ lcd with control := value }, none)

/-- Only the interrupt selects, bits 3 to 6, can be written. -/
def writeStatus (value : UInt8) (lcd : Lcd) : Lcd :=
  { lcd with status := lcd.status &&& 0x87 ||| value &&& 0x78 }

def clearFrame (lcd : Lcd) : Lcd := { lcd with frameReady := false }

end Lcd

end DotMatrix
