import DotMatrix.Cartridge.Mapper

/-!
A cartridge: a ROM of whole banks, a RAM that may be empty, and the controller that maps both into
the address space. Bank numbers beyond a memory wrap around.
-/

namespace DotMatrix

structure Rom where
  size : RomSize
  bytes : ByteArray
  size_eq : bytes.size = size.bytes

namespace Rom

/-- An image cut off at the size, or followed by zeros up to it. -/
def ofImage (size : RomSize) (image : ByteArray) : Rom :=
  let block := Block.ofBytes size.bytes image
  ⟨size, block.bytes, block.size_eq⟩

/-- Where a byte of a bank lies; a bank beyond the last starts over from the first. -/
def index (rom : Rom) (bank : Nat) (offset : Fin 0x4000) : Nat :=
  bank % rom.size.banks * 0x4000 + offset.val

theorem index_lt (rom : Rom) (bank : Nat) (offset : Fin 0x4000) :
    rom.index bank offset < rom.bytes.size := by
  have bound : bank % rom.size.banks < rom.size.banks := Nat.mod_lt _ rom.size.banks_pos
  have := rom.size_eq
  simp only [RomSize.bytes] at this
  simp only [index]
  omega

def get (rom : Rom) (bank : Nat) (offset : Fin 0x4000) : UInt8 :=
  have := rom.index_lt bank offset
  rom.bytes[rom.index bank offset]

end Rom

structure Cartridge where
  rom : Rom
  ramSize : Nat
  ram : Block ramSize
  mapper : Mapper

inductive CartridgeEvent where
  | resizes (size declared : Nat)
  | unequalSave (size declared : Nat)
  | inserted (header : Header)

instance : Event CartridgeEvent where
  level
    | .inserted _ => .info
    | _ => .warn
  text
    | .resizes size declared =>
      s!"GB cartridge: ROM image is {size} bytes but header declares {declared}; resizing"
    | .unequalSave size declared => s!"GB cartridge: save is {size} bytes, expected {declared}"
    | .inserted header =>
      s!"GB cartridge: '{header.title}' {header.controller.name}, ROM {header.romSize.bytes / 1024} KiB, RAM {header.ramSize / 1024} KiB, CGB flag {header.color}"

namespace Cartridge

def build (header : Header) (image : ByteArray) (saved : Option ByteArray) : Cartridge where
  rom := Rom.ofImage header.romSize image
  ramSize := header.ramSize
  ram := Block.ofBytes _ (saved.getD ByteArray.empty)
  mapper := Mapper.initial header.controller

def remarks (header : Header) (image : ByteArray) (saved : Option ByteArray) : List CartridgeEvent :=
  let declared := header.romSize.bytes
  (if image.size = declared then [] else [.resizes image.size declared])
    ++ (match saved with
      | some ram => if ram.size = header.ramSize then [] else [.unequalSave ram.size header.ramSize]
      | none => [])
    ++ [.inserted header]

/-- The lower half of the ROM area shows bank zero, the upper half the bank that is chosen. -/
def readRom (c : Cartridge) (address : Fin 0x8000) : UInt8 :=
  c.rom.get (if address.val < 0x4000 then 0 else c.mapper.romBank)
    ⟨address.val % 0x4000, Nat.mod_lt _ (by decide)⟩

def writeRom (c : Cartridge) (address : Fin 0x8000) (value : UInt8) :
    Cartridge × Option MapperEvent :=
  let (mapper, event) := c.mapper.write ⟨address.val / 0x2000, by omega⟩ value
  ({ c with mapper }, event)

/-- The place of an address of the RAM area in a bank; a small RAM repeats over the area. -/
def ramIndex (c : Cartridge) (h : 0 < c.ramSize) (bank : Nat) (address : Fin 0x2000) :
    Fin c.ramSize :=
  ⟨(bank * 0x2000 + address.val) % c.ramSize, Nat.mod_lt _ h⟩

def readRam (c : Cartridge) (address : Fin 0x2000) : UInt8 :=
  match c.mapper.ramTarget with
  | .nothing => 0
  | .bank number => if h : 0 < c.ramSize then c.ram.get (c.ramIndex h number address) else 0
  | .clock register => c.mapper.clockByte register

def writeRam (c : Cartridge) (address : Fin 0x2000) (value : UInt8) : Cartridge :=
  match c.mapper.ramTarget with
  | .nothing => c
  | .bank number =>
    if h : 0 < c.ramSize then { c with ram := c.ram.set (c.ramIndex h number address) value } else c
  | .clock register => { c with mapper := c.mapper.setClockByte register value }

end Cartridge

end DotMatrix
