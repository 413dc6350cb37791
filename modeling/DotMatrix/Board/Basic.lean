import DotMatrix.Board.Address
import DotMatrix.Cartridge.Basic
import DotMatrix.Cpu.Interrupt
import DotMatrix.Joypad
import DotMatrix.Lcd.Timing
import DotMatrix.SerialLink
import DotMatrix.Timer

/-!
The board: everything of the machine but the processor.
-/

namespace DotMatrix

structure Board where
  lcd : Lcd
  timer : Timer
  link : SerialLink
  audio : Audio
  joypad : Joypad
  cartridge : Option Cartridge
  model : Model
  /-- Eight banks of 4 KiB. -/
  wram : Block 0x8000
  hram : Block 0x7F
  spare : Block 0x80
  /-- Chooses the upper bank of the work RAM on the color machine. -/
  wramBank : UInt8
  /-- The page of the last copy to the sprites. -/
  dmaPage : UInt8
  /-- The requested interrupts. -/
  requests : UInt8
  /-- The enabled interrupts. -/
  enables : UInt8
  journal : Journal

inductive BoardEvent where
  | copiesSprites (base : UInt16)
  | runsAs (model : Model)

instance : Event BoardEvent where
  level
    | .copiesSprites _ => .debug
    | .runsAs _ => .info
  text
    | .copiesSprites base => s!"GB DMA: OAM <- 0x{Text.hexWord base}"
    | .runsAs model => s!"GB: running as {model.name}"

namespace Board

def postBoot (journal : Journal) : Board where
  lcd := Lcd.postBoot
  timer := Timer.postBoot
  link := {}
  audio := Audio.postBoot
  joypad := {}
  cartridge := none
  model := .dmg
  wram := Block.filled _ 0
  hram := Block.filled _ 0
  spare := Block.filled _ 0
  wramBank := 0
  dmaPage := 0xFF
  requests := 0x01
  enables := 0x00
  journal

@[specialize] def note {ε : Type} [Event ε] (event : ε) (b : Board) : Board :=
  { b with journal := b.journal.record event }

@[specialize] def noteAny {ε : Type} [Event ε] (event : Option ε) (b : Board) : Board :=
  match event with
  | none => b
  | some event => b.note event

def request (source : Interrupt) (b : Board) : Board :=
  { b with requests := b.requests ||| source.mask }

theorem one_lt_wramBanks : 1 < 8 := by decide

def upperWramBank (b : Board) : Fin 8 :=
  match b.model with
  | .dmg => ⟨1, one_lt_wramBanks⟩
  | .cgb =>
    let bank := b.wramBank.toNat % 8
    if bank = 0 then ⟨1, one_lt_wramBanks⟩ else ⟨bank, Nat.mod_lt _ (by decide)⟩

/-- The place of an offset into the work RAM area; the lower half always shows bank zero. -/
def wramIndex (b : Board) (offset : Fin 0x2000) : Fin 0x8000 :=
  if offset.val < 0x1000 then ⟨offset.val, by omega⟩
  else ⟨b.upperWramBank.val * 0x1000 + (offset.val - 0x1000), by
    have := b.upperWramBank.isLt
    omega⟩

def press (button : Button) (b : Board) : Board :=
  { b with joypad := b.joypad.press button }.request .joypad

def release (button : Button) (b : Board) : Board :=
  { b with joypad := b.joypad.release button }

/-- Puts a cartridge in; an image with a bad header changes nothing. -/
def load (image : ByteArray) (saved : Option ByteArray) (b : Board) :
    Except HeaderError Header × Board :=
  match Header.parse image with
  | .error error => (.error error, b)
  | .ok header =>
    let b := { b with cartridge := some (Cartridge.build header image saved), model := header.model }
    let b := (Cartridge.remarks header image saved).foldl (fun b event => b.note event) b
    (.ok header, b.note (BoardEvent.runsAs header.model))

def cartridgeRam (b : Board) : Option ByteArray := b.cartridge.map fun c => c.ram.bytes

end Board

end DotMatrix
