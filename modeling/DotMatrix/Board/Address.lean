import DotMatrix.Audio

/-!
The address map: which device an address belongs to, and which of its bytes it names.
-/

namespace DotMatrix

inductive IoRegister where
  | joypad
  | linkData | linkControl
  | divider | counter | modulo | timerControl
  | requests
  | audio (register : AudioRegister)
  | lcdControl | lcdStatus | scrollY | scrollX | line | lineCompare
  | dma
  | backgroundPalette | spritePalette0 | spritePalette1 | windowY | windowX
  | wramBank
  /-- A register without a device, which holds what is written to it. -/
  | spare (offset : Fin 0x80)
  deriving DecidableEq, Repr

def IoRegister.ofOffset (offset : Fin 0x80) : IoRegister :=
  if h : 0x10 ≤ offset.val ∧ offset.val < 0x40 then
    .audio (AudioRegister.ofOffset ⟨offset.val - 0x10, by omega⟩)
  else
    match offset.val with
    | 0x00 => .joypad
    | 0x01 => .linkData
    | 0x02 => .linkControl
    | 0x04 => .divider
    | 0x05 => .counter
    | 0x06 => .modulo
    | 0x07 => .timerControl
    | 0x0F => .requests
    | 0x40 => .lcdControl
    | 0x41 => .lcdStatus
    | 0x42 => .scrollY
    | 0x43 => .scrollX
    | 0x44 => .line
    | 0x45 => .lineCompare
    | 0x46 => .dma
    | 0x47 => .backgroundPalette
    | 0x48 => .spritePalette0
    | 0x49 => .spritePalette1
    | 0x4A => .windowY
    | 0x4B => .windowX
    | 0x70 => .wramBank
    | _ => .spare offset

inductive Region where
  | rom (address : Fin 0x8000)
  | vram (offset : Fin 0x2000)
  | cartridgeRam (offset : Fin 0x2000)
  | wram (offset : Fin 0x2000)
  | oam (offset : Fin 0xA0)
  /-- The gap behind the sprites, which holds nothing. -/
  | gap
  | register (register : IoRegister)
  | hram (offset : Fin 0x7F)
  | enables
  deriving DecidableEq, Repr

/-- Every address has one region; E000 to FDFF repeat the work RAM. -/
def Region.ofAddress (address : UInt16) : Region :=
  let a := address.toNat
  if h₀ : a < 0x8000 then .rom ⟨a, h₀⟩
  else if h₁ : a < 0xA000 then .vram ⟨a - 0x8000, by omega⟩
  else if h₂ : a < 0xC000 then .cartridgeRam ⟨a - 0xA000, by omega⟩
  else if h₃ : a < 0xE000 then .wram ⟨a - 0xC000, by omega⟩
  else if h₄ : a < 0xFE00 then .wram ⟨a - 0xE000, by omega⟩
  else if h₅ : a < 0xFEA0 then .oam ⟨a - 0xFE00, by omega⟩
  else if a < 0xFF00 then .gap
  else if h₆ : a < 0xFF80 then .register (IoRegister.ofOffset ⟨a - 0xFF00, by omega⟩)
  else if h₇ : a < 0xFFFF then .hram ⟨a - 0xFF80, by omega⟩
  else .enables

end DotMatrix
