import DotMatrix.Board.Basic
import DotMatrix.Cpu.Bus

/-!
Reading and writing the board, and its devices in time.
-/

namespace DotMatrix.Board

/-- The interrupt requests read with the unused bits set. -/
def readRegister (b : Board) : IoRegister → UInt8
  | .joypad => b.joypad.shown
  | .linkData => b.link.data
  | .linkControl => b.link.control
  | .divider => b.timer.divider
  | .counter => b.timer.counter
  | .modulo => b.timer.modulo
  | .timerControl => b.timer.readControl
  | .requests => b.requests ||| 0xE0
  | .audio register => b.audio.read register
  | .lcdControl => b.lcd.control
  | .lcdStatus => b.lcd.status
  | .scrollY => b.lcd.scrollY
  | .scrollX => b.lcd.scrollX
  | .line => b.lcd.line
  | .lineCompare => b.lcd.lineCompare
  | .dma => b.dmaPage
  | .backgroundPalette => b.lcd.backgroundPalette
  | .spritePalette0 => b.lcd.spritePalette0
  | .spritePalette1 => b.lcd.spritePalette1
  | .windowY => b.lcd.windowY
  | .windowX => b.lcd.windowX
  | .wramBank => b.wramBank
  | .spare offset => b.spare.get offset

/-- Without a cartridge its areas read as ones. -/
def readRegion (b : Board) : Region → UInt8
  | .rom address =>
    match b.cartridge with
    | some cartridge => cartridge.readRom address
    | none => 0xFF
  | .vram offset => b.lcd.vram.get offset
  | .cartridgeRam offset =>
    match b.cartridge with
    | some cartridge => cartridge.readRam offset
    | none => 0xFF
  | .wram offset => b.wram.get (b.wramIndex offset)
  | .oam offset => b.lcd.oam.get offset
  | .gap => 0x00
  | .register register => b.readRegister register
  | .hram offset => b.hram.get offset
  | .enables => b.enables

def read (b : Board) (address : UInt16) : UInt8 := b.readRegion (Region.ofAddress address)

def setSpriteByte (offset : Fin 0xA0) (byte : UInt8) (b : Board) : Board :=
  { b with lcd := { b.lcd with oam := b.lcd.oam.set offset byte } }

/-- Fills the sprite memory from a page, byte by byte, as a program reading the page would. -/
def copySprites (page : UInt8) (b : Board) : Board :=
  let base := Word.ofBytes page 0
  let b := b.note (BoardEvent.copiesSprites base)
  let b := Fin.foldl 0xA0
    (fun b offset => b.setSpriteByte offset (b.read (base + UInt16.ofNat offset.val))) b
  { b with dmaPage := page }

def writeLinkControl (value : UInt8) (b : Board) : Board :=
  let b := { b with link := b.link.writeControl value }
  if SerialLink.startsTransfer value then b.request .serial else b

def writeLcdControl (value : UInt8) (b : Board) : Board :=
  let (lcd, event) := b.lcd.writeControl value
  { b with lcd }.noteAny event

/-- Any write to the current line resets it. -/
def writeRegister (register : IoRegister) (value : UInt8) (b : Board) : Board :=
  match register with
  | .joypad => { b with joypad := b.joypad.writeSelection value }
  | .linkData => { b with link := b.link.writeData value }
  | .linkControl => b.writeLinkControl value
  | .divider => { b with timer := b.timer.clearDivider }
  | .counter => { b with timer := { b.timer with counter := value } }
  | .modulo => { b with timer := { b.timer with modulo := value } }
  | .timerControl => { b with timer := b.timer.writeControl value }
  | .requests => { b with requests := value &&& 0x1F }
  | .audio register => { b with audio := b.audio.write register value }
  | .lcdControl => b.writeLcdControl value
  | .lcdStatus => { b with lcd := b.lcd.writeStatus value }
  | .scrollY => { b with lcd := { b.lcd with scrollY := value } }
  | .scrollX => { b with lcd := { b.lcd with scrollX := value } }
  | .line => { b with lcd := { b.lcd with line := 0 } }
  | .lineCompare => { b with lcd := { b.lcd with lineCompare := value } }
  | .dma => b.copySprites value
  | .backgroundPalette => { b with lcd := { b.lcd with backgroundPalette := value } }
  | .spritePalette0 => { b with lcd := { b.lcd with spritePalette0 := value } }
  | .spritePalette1 => { b with lcd := { b.lcd with spritePalette1 := value } }
  | .windowY => { b with lcd := { b.lcd with windowY := value } }
  | .windowX => { b with lcd := { b.lcd with windowX := value } }
  | .wramBank => { b with wramBank := value }
  | .spare offset => { b with spare := b.spare.set offset value }

def writeRom (address : Fin 0x8000) (value : UInt8) (b : Board) : Board :=
  match b.cartridge with
  | none => b
  | some cartridge =>
    let (cartridge, event) := cartridge.writeRom address value
    { b with cartridge := some cartridge }.noteAny event

def writeCartridgeRam (offset : Fin 0x2000) (value : UInt8) (b : Board) : Board :=
  { b with cartridge := b.cartridge.map fun cartridge => cartridge.writeRam offset value }

def writeWram (offset : Fin 0x2000) (value : UInt8) (b : Board) : Board :=
  let index := b.wramIndex offset
  { b with wram := b.wram.set index value }

def writeRegion (region : Region) (value : UInt8) (b : Board) : Board :=
  match region with
  | .rom address => b.writeRom address value
  | .vram offset => { b with lcd := { b.lcd with vram := b.lcd.vram.set offset value } }
  | .cartridgeRam offset => b.writeCartridgeRam offset value
  | .wram offset => b.writeWram offset value
  | .oam offset => b.setSpriteByte offset value
  | .gap => b
  | .register register => b.writeRegister register value
  | .hram offset => { b with hram := b.hram.set offset value }
  | .enables => { b with enables := value }

def write (address : UInt16) (value : UInt8) (b : Board) : Board :=
  b.writeRegion (Region.ofAddress address) value

def advanceTimer (cycles : Int) (b : Board) : Board :=
  let requested := b.timer.requestsInterrupt
  let b := { b with timer := b.timer.advance cycles }
  if requested then b.request .timer else b

/-- The blank is requested before the status interrupt. -/
def advanceLcd (cycles : Int) (b : Board) : Board :=
  let (requests, lcd) := b.lcd.advance cycles
  let b := { b with lcd }
  let b :=
    if requests.vblank then
      let b := b.request .vblank
      b.note (LcdEvent.vblank b.requests)
    else b
  match requests.stat with
  | some event => (b.request .stat).note event
  | none => b

/-- The timer goes first. Nothing moves if one of the devices cannot count the cycles. -/
def tick (cycles : Nat) (b : Board) : Except Fault Unit × Board :=
  if cycles = 0 then (.ok (), b)
  else
    let batch := Countdown.batch cycles
    if b.timer.admits batch && b.lcd.admits batch then
      (.ok (), (b.advanceTimer batch).advanceLcd batch)
    else (.error .countdownOverflow, b)

instance : Bus Board where
  read address b := (b.read address, b)
  write := write
  tick := tick
  note event b := b.note event

end DotMatrix.Board
