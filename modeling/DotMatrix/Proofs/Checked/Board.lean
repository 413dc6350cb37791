import DotMatrix.Board.Access
import DotMatrix.Proofs.Checked.Cartridge

/-!
Reading and writing the board with checks. An address is counted from the start of its area, and what
comes out has to be a place in the memory behind it.
-/

namespace DotMatrix.Checked

def register (address : Nat) : Option IoRegister :=
  if 0xFF10 ≤ address ∧ address < 0xFF40 then do
    let offset ← minus address 0xFF10
    let place ← slot 0x30 offset
    return .audio (AudioRegister.ofOffset place)
  else do
    let offset ← minus address 0xFF00
    let place ← slot 0x80 offset
    return IoRegister.ofOffset place

def placeIn (size start address : Nat) : Option (Fin size) := do
  let offset ← minus address start
  slot size offset

def region (address : UInt16) : Option Region :=
  let a := address.toNat
  if a < 0x8000 then (slot 0x8000 a).map .rom
  else if a < 0xA000 then (placeIn 0x2000 0x8000 a).map .vram
  else if a < 0xC000 then (placeIn 0x2000 0xA000 a).map .cartridgeRam
  else if a < 0xE000 then (placeIn 0x2000 0xC000 a).map .wram
  else if a < 0xFE00 then do
    let mirrored ← minus a 0x2000
    (placeIn 0x2000 0xC000 mirrored).map .wram
  else if a < 0xFEA0 then (placeIn 0xA0 0xFE00 a).map .oam
  else if a < 0xFF00 then some .gap
  else if a < 0xFF80 then (register a).map .register
  else if a < 0xFFFF then (placeIn 0x7F 0xFF80 a).map .hram
  else some .enables

def wramPlace (b : Board) (offset : Nat) : Option (Fin 0x8000) :=
  if offset < 0x1000 then slot 0x8000 offset
  else do
    let start ← fits 32 (b.upperWramBank.val * 0x1000)
    let inner ← minus offset 0x1000
    let index ← fits 32 (start + inner)
    slot 0x8000 index

def read (b : Board) (address : UInt16) : Option UInt8 := do
  match ← region address, b.cartridge with
  | .rom address, some cartridge => readRom cartridge address.val
  | .cartridgeRam offset, some cartridge => readRam cartridge (0xA000 + offset.val)
  | .wram offset, _ =>
    let place ← wramPlace b offset.val
    return b.wram.get place
  | region, _ => return b.readRegion region

def copyByte (base : UInt16) (i : Nat) (b : Board) : Option Board := do
  let byte ← read b (base + UInt16.ofNat i)
  let place ← slot 0xA0 i
  return b.setSpriteByte place byte

def copySprites (page : UInt8) (b : Board) : Option Board := do
  let base := Word.ofBytes page 0
  let b ← ascending (copyByte base) 0 0xA0 (b.note (BoardEvent.copiesSprites base))
  return { b with dmaPage := page }

def clearChannel (i : Nat) (channels : Block 0x16) : Option (Block 0x16) := do
  let address ← fits 16 (0xFF10 + i)
  let place ← placeIn 0x16 0xFF10 address
  return channels.set place 0

/-- Switching the power off clears the registers of the channels one by one. -/
def writeAudioStatus (value : UInt8) (audio : Audio) : Option Audio :=
  if Byte.has value 0x80 then some { audio with status := audio.status ||| 0x80 }
  else if audio.powered then do
    let channels ← ascending clearChannel 0 0x16 audio.channels
    return { audio with status := 0, channels }
  else some audio

def write (address : UInt16) (value : UInt8) (b : Board) : Option Board := do
  match ← region address, b.cartridge with
  | .rom address, some cartridge =>
    let (cartridge, event) ← writeRom cartridge address.val value
    return { b with cartridge := some cartridge }.noteAny event
  | .cartridgeRam offset, some cartridge =>
    let cartridge ← writeRam cartridge (0xA000 + offset.val) value
    return { b with cartridge := some cartridge }
  | .wram offset, _ =>
    let place ← wramPlace b offset.val
    return { b with wram := b.wram.set place value }
  | .register .dma, _ => copySprites value b
  | .register (.audio .status), _ =>
    let audio ← writeAudioStatus value b.audio
    return { b with audio }
  | region, _ => return b.writeRegion region value

theorem placeIn_eq {size start address : Nat} (low : start ≤ address) (high : address - start < size) :
    placeIn size start address = some ⟨address - start, high⟩ := by
  rw [placeIn, minus_eq low, Option.bind_eq_bind, Option.bind_some, slot_eq high]

theorem register_eq (place : Fin 0x80) :
    register (0xFF00 + place.val) = some (IoRegister.ofOffset place) := by
  unfold register
  split
  next audio =>
    have inside : 0x10 ≤ place.val ∧ place.val < 0x40 := by omega
    have offset : 0xFF00 + place.val - 0xFF10 = place.val - 0x10 := by omega
    rw [minus_eq audio.1, offset, Option.bind_eq_bind, Option.bind_some, slot_eq (by omega),
      IoRegister.ofOffset, dif_pos inside]
    rfl
  next other =>
    rw [minus_eq (Nat.le_add_right _ _), Nat.add_sub_cancel_left, Option.bind_eq_bind, Option.bind_some,
      slot_eq place.isLt]
    rfl

theorem placeIn_map {size start address : Nat} (area : Fin size → Region) (low : ¬address < start)
    (high : address - start < size) : (placeIn size start address).map area = some (area ⟨address - start, high⟩) := by
  rw [placeIn_eq (Nat.le_of_not_lt low) high, Option.map_some]

theorem some_dite {α : Type} {p : Prop} [Decidable p] {first rest : Option α} {here : p → α} {beyond : ¬p → α}
    (inside : ∀ h, first = some (here h)) (outside : ∀ h, rest = some (beyond h)) :
    (if p then first else rest) = some (dite p here beyond) := by
  by_cases h : p
  · rw [if_pos h, dif_pos h, inside h]
  · rw [if_neg h, dif_neg h, outside h]

theorem some_ite {α : Type} {p : Prop} [Decidable p] {first rest : Option α} {here beyond : α}
    (inside : p → first = some here) (outside : ¬p → rest = some beyond) :
    (if p then first else rest) = some (if p then here else beyond) := some_dite inside outside

/-- Every address lies in an area, and its place there is in the memory behind the area. -/
theorem region_eq (address : UInt16) : region address = some (Region.ofAddress address) := by
  refine some_dite (fun low => by rw [slot_eq low, Option.map_some]) fun rom => ?_
  refine some_dite (fun low => placeIn_map _ rom (by omega)) fun vram => ?_
  refine some_dite (fun low => placeIn_map _ vram (by omega)) fun cartridge => ?_
  refine some_dite (fun low => placeIn_map _ cartridge (by omega)) fun wram => ?_
  refine some_dite (fun low => ?_) fun mirror => ?_
  · rw [minus_eq (by omega), Option.bind_eq_bind, Option.bind_some, placeIn_map _ (by omega) (by omega)]
    simp only [Nat.sub_sub]
  refine some_dite (fun low => placeIn_map _ mirror (by omega)) fun oam => ?_
  refine some_ite (fun low => rfl) fun gap => ?_
  refine some_dite (fun low => ?_) fun registers => ?_
  · have found := register_eq ⟨address.toNat - 0xFF00, by omega⟩
    rw [Nat.add_sub_cancel' (Nat.le_of_not_lt gap)] at found
    rw [found, Option.map_some]
  exact some_dite (fun low => placeIn_map _ registers (by omega)) fun _ => rfl

theorem wramPlace_eq (b : Board) (offset : Fin 0x2000) :
    wramPlace b offset.val = some (b.wramIndex offset) := by
  have bank := b.upperWramBank.isLt
  simp only [wramPlace, Board.wramIndex, Option.bind_eq_bind]
  split
  next low => exact slot_eq (by omega)
  next high =>
    rw [fits_eq (by omega), Option.bind_some, minus_eq (by omega), Option.bind_some, fits_eq (by omega),
      Option.bind_some, slot_eq (by omega)]

theorem read_eq (b : Board) (address : UInt16) : read b address = some (b.read address) := by
  simp only [read, Board.read, region_eq, Option.bind_eq_bind, Option.bind_some]
  cases Region.ofAddress address with
  | rom address =>
    cases held : b.cartridge with
    | none => simp only [Board.readRegion, held, Option.pure_def]
    | some cartridge => simp only [readRom_eq, Board.readRegion, held]
  | cartridgeRam offset =>
    cases held : b.cartridge with
    | none => simp only [Board.readRegion, held, Option.pure_def]
    | some cartridge => simp only [readRam_eq, Board.readRegion, held]
  | wram offset =>
    simp only [wramPlace_eq, Option.bind_some]
    rfl
  | _ => rfl

theorem copySprites_eq (page : UInt8) (b : Board) : copySprites page b = some (b.copySprites page) := by
  have step (base : UInt16) (i : Fin 0xA0) (b : Board) :
      copyByte base (0 + i.val) b = some (b.setSpriteByte i (b.read (base + UInt16.ofNat i.val))) := by
    simp only [copyByte, Nat.zero_add, read_eq, slot_eq i.isLt, Option.bind_eq_bind, Option.bind_some]
    rfl
  have copied := ascending_foldl id
    (fun b i => b.setSpriteByte i (b.read (Word.ofBytes page 0 + UInt16.ofNat i.val))) 0
    (step (Word.ofBytes page 0)) (b.note (BoardEvent.copiesSprites (Word.ofBytes page 0)))
  simp only [id] at copied
  rw [copySprites, copied, Option.bind_eq_bind, Option.bind_some]
  rfl

theorem writeAudioStatus_eq (value : UInt8) (audio : Audio) :
    writeAudioStatus value audio = some (audio.writeStatus value) := by
  unfold writeAudioStatus Audio.writeStatus
  split
  next => rfl
  next =>
    split
    next =>
      have step (i : Nat) (channels : Block 0x16) (_ : 0 ≤ i) (low : i < 0 + 0x16) :
          clearChannel i channels = some (channels.set ⟨i, low⟩ 0) := by
        rw [clearChannel, fits_eq (by omega), Option.bind_eq_bind, Option.bind_some,
          placeIn_eq (by omega) (by omega)]
        simp only [Nat.add_sub_cancel_left]
        rfl
      have cleared : ascending clearChannel 0 0x16 audio.channels =
          some (audio.channels.patch 0 0x16 fun _ => 0) :=
        ascending_set (fun _ => 0) 0 0x16 (Nat.le_refl _) step audio.channels
      have zeros : (audio.channels.patch 0 0x16 fun _ => 0) = Block.filled _ 0 := by
        apply Block.ext_get
        intro i
        rw [Block.get_patch, if_pos (by omega), Block.get_filled]
      rw [cleared, zeros]
      rfl
    next => rfl

theorem write_eq (address : UInt16) (value : UInt8) (b : Board) :
    write address value b = some (b.write address value) := by
  rw [write, Board.write, region_eq, Option.bind_eq_bind, Option.bind_some]
  cases Region.ofAddress address with
  | rom address =>
    cases held : b.cartridge with
    | none => simp only [Board.writeRegion, Board.writeRom, held, Option.pure_def]
    | some cartridge =>
      simp only [writeRom_eq, Board.writeRegion, Board.writeRom, held]
      rfl
  | cartridgeRam offset =>
    cases held : b.cartridge with
    | none =>
      simp only [Board.writeRegion, Board.writeCartridgeRam, held, Option.map_none, Option.pure_def]
    | some cartridge =>
      simp only [writeRam_eq, Board.writeRegion, Board.writeCartridgeRam, held]
      rfl
  | wram offset =>
    simp only [wramPlace_eq]
    rfl
  | register register =>
    cases register with
    | dma => exact copySprites_eq value b
    | audio register =>
      cases register with
      | status =>
        simp only [writeAudioStatus_eq]
        rfl
      | _ => rfl
    | _ => rfl
  | _ => rfl

end DotMatrix.Checked
