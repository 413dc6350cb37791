import DotMatrix.Proofs.Cartridge.Registers

/-!
The memories on the board as one store. Each address of them stands for a cell, for the work RAM in the bank that
FF70 has chosen; a cell holds the last byte that has been written to it, and a write to a cell reaches nothing else.
-/

namespace DotMatrix

inductive MemoryCell where
  | vram (offset : Fin 0x2000)
  | wram (bank : Fin 8) (offset : Fin 0x1000)
  | oam (offset : Fin 0xA0)
  | hram (offset : Fin 0x7F)
  | enables
  deriving DecidableEq

namespace MemoryCell

theorem bank_lt (selected : UInt8) : selected.toNat % 8 < 8 := Nat.mod_lt _ (by decide)

/-- The bank in the upper half of the work RAM area: the first, but for the color machine, where the low three bits
of the selecting byte name it and zero means the first. -/
def upperBank (model : Model) (selected : UInt8) : Fin 8 :=
  match model with
  | .dmg => ⟨1, by decide⟩
  | .cgb => if selected.toNat % 8 = 0 then ⟨1, by decide⟩ else ⟨selected.toNat % 8, bank_lt selected⟩

def work (model : Model) (selected : UInt8) (offset : Fin 0x2000) : MemoryCell :=
  if low : offset.val < 0x1000 then .wram ⟨0, by decide⟩ ⟨offset.val, low⟩
  else .wram (upperBank model selected) ⟨offset.val - 0x1000, by omega⟩

/-- The cell of an address; E000 to FDFF stand for the addresses 2000 below them. -/
def at? (model : Model) (selected : UInt8) (address : UInt16) : Option MemoryCell :=
  let a := address.toNat
  if vram : 0x8000 ≤ a ∧ a < 0xA000 then some (.vram ⟨a - 0x8000, by omega⟩)
  else if wram : 0xC000 ≤ a ∧ a < 0xE000 then some (work model selected ⟨a - 0xC000, by omega⟩)
  else if mirror : 0xE000 ≤ a ∧ a < 0xFE00 then some (work model selected ⟨a - 0x2000 - 0xC000, by omega⟩)
  else if oam : 0xFE00 ≤ a ∧ a < 0xFEA0 then some (.oam ⟨a - 0xFE00, by omega⟩)
  else if hram : 0xFF80 ≤ a ∧ a < 0xFFFF then some (.hram ⟨a - 0xFF80, by omega⟩)
  else if a = 0xFFFF then some .enables
  else none

end MemoryCell

def Region.memoryCell? (model : Model) (selected : UInt8) : Region → Option MemoryCell
  | .vram offset => some (.vram offset)
  | .wram offset => some (.work model selected offset)
  | .oam offset => some (.oam offset)
  | .hram offset => some (.hram offset)
  | .enables => some .enables
  | .rom _ | .cartridgeRam _ | .gap | .register _ => none

theorem Region.lt_of_wram {address : UInt16} {offset : Fin 0x2000} (found : ofAddress address = .wram offset) :
    address.toNat < 0xFE00 := by
  by_contra high
  simp only [ofAddress] at found
  rw [dif_neg (by omega), dif_neg (by omega), dif_neg (by omega), dif_neg (by omega), dif_neg (by omega)] at found
  repeat' split at found
  all_goals cases found

/-- The cells are the places of the address map. -/
theorem MemoryCell.at?_eq (model : Model) (selected : UInt8) (address : UInt16) :
    at? model selected address = (Region.ofAddress address).memoryCell? model selected := by
  have reached := Region.at_ofAddress address
  generalize found : Region.ofAddress address = region at reached ⊢
  cases reached with
  | vram same =>
    rw [at?, dif_pos (by omega)]
    simp only [same, Nat.add_sub_cancel_left]
    rfl
  | wram same =>
    rw [at?, dif_neg (by omega), dif_pos (by omega)]
    simp only [same, Nat.add_sub_cancel_left]
    rfl
  | @mirror offset same =>
    have place : (⟨address.toNat - 0x2000 - 0xC000, by omega⟩ : Fin 0x2000) = offset := by
      apply Fin.ext
      simp only
      omega
    have low := Region.lt_of_wram found
    rw [at?, dif_neg (by omega), dif_neg (by omega), dif_pos (by omega), place]
    rfl
  | oam same =>
    rw [at?, dif_neg (by omega), dif_neg (by omega), dif_neg (by omega), dif_pos (by omega)]
    simp only [same, Nat.add_sub_cancel_left]
    rfl
  | hram same =>
    rw [at?, dif_neg (by omega), dif_neg (by omega), dif_neg (by omega), dif_neg (by omega), dif_pos (by omega)]
    simp only [same, Nat.add_sub_cancel_left]
    rfl
  | enables same =>
    rw [at?, dif_neg (by omega), dif_neg (by omega), dif_neg (by omega), dif_neg (by omega), dif_neg (by omega),
      if_pos same]
    rfl
  | rom | cartridgeRam | gap | register =>
    rw [at?, dif_neg (by omega), dif_neg (by omega), dif_neg (by omega), dif_neg (by omega), dif_neg (by omega),
      if_neg (by omega)]
    rfl

namespace Board

variable {b : Board}

def contents (b : Board) : MemoryCell → UInt8
  | .vram offset => b.lcd.vram.get offset
  | .wram bank offset => b.wram.get ⟨bank.val * 0x1000 + offset.val, by omega⟩
  | .oam offset => b.lcd.oam.get offset
  | .hram offset => b.hram.get offset
  | .enables => b.enables

/-- The board with all memories cleared, so that what is left of it is no cell. -/
def withoutMemory (b : Board) : Board :=
  { b with
    lcd := { b.lcd with vram := Block.filled _ 0, oam := Block.filled _ 0 }
    wram := Block.filled _ 0
    hram := Block.filled _ 0
    enables := 0 }

def cell? (b : Board) (address : UInt16) : Option MemoryCell :=
  MemoryCell.at? b.model b.wramBank address

theorem cell?_eq (b : Board) (address : UInt16) :
    b.cell? address = (Region.ofAddress address).memoryCell? b.model b.wramBank :=
  MemoryCell.at?_eq b.model b.wramBank address

theorem upperBank_eq (b : Board) : MemoryCell.upperBank b.model b.wramBank = b.upperWramBank := by
  unfold MemoryCell.upperBank
  cases same : b.model with
  | dmg => rw [upperWramBank, same]
  | cgb => rw [upperWramBank, same]

theorem contents_work (b : Board) (offset : Fin 0x2000) :
    b.contents (MemoryCell.work b.model b.wramBank offset) = b.wram.get (b.wramIndex offset) := by
  rw [MemoryCell.work, wramIndex, upperBank_eq]
  by_cases low : offset.val < 0x1000
  · rw [dif_pos low, if_pos low]
    simp only [contents, Nat.zero_mul, Nat.zero_add]
  · rw [dif_neg low, if_neg low]
    rfl

theorem read_cell {address : UInt16} {cell : MemoryCell} (found : b.cell? address = some cell) :
    b.read address = b.contents cell := by
  rw [cell?_eq] at found
  rw [read]
  generalize Region.ofAddress address = region at found ⊢
  cases region with
  | rom | cartridgeRam | gap | register => cases found
  | wram offset =>
    cases found
    exact (b.contents_work offset).symm
  | vram | oam | hram | enables =>
    cases found
    rfl

theorem contents_writeWram (offset : Fin 0x2000) (value : UInt8) (b : Board) (other : MemoryCell) :
    (b.writeWram offset value).contents other =
      if other = MemoryCell.work b.model b.wramBank offset then value else b.contents other := by
  cases other with
  | wram bank place =>
    have same : b.wramIndex offset = ⟨bank.val * 0x1000 + place.val, by omega⟩ ↔
        MemoryCell.wram bank place = MemoryCell.work b.model b.wramBank offset := by
      rw [MemoryCell.work, wramIndex, upperBank_eq, Fin.ext_iff]
      by_cases low : offset.val < 0x1000
      · rw [dif_pos low, if_pos low]
        simp only [MemoryCell.wram.injEq, Fin.ext_iff]
        omega
      · rw [dif_neg low, if_neg low]
        simp only [MemoryCell.wram.injEq, Fin.ext_iff]
        omega
    simp only [writeWram, contents, Block.get_set, same]
  | _ =>
    rw [if_neg]
    · rfl
    · rw [MemoryCell.work]
      split <;> exact MemoryCell.noConfusion

/-- A write to a cell leaves everything else on the board alone. -/
theorem write_cell {address : UInt16} {cell : MemoryCell} (found : b.cell? address = some cell) (value : UInt8) :
    (b.write address value).withoutMemory = b.withoutMemory ∧
      ∀ other, (b.write address value).contents other = if other = cell then value else b.contents other := by
  rw [cell?_eq] at found
  rw [write]
  generalize Region.ofAddress address = region at found ⊢
  cases region with
  | rom | cartridgeRam | gap | register => cases found
  | wram offset =>
    cases found
    exact ⟨rfl, contents_writeWram offset value b⟩
  | vram offset | oam offset | hram offset =>
    cases found
    refine ⟨rfl, ?_⟩
    intro other
    cases other <;> simp only [writeRegion, setSpriteByte, contents, Block.get_set, MemoryCell.vram.injEq,
      MemoryCell.oam.injEq, MemoryCell.hram.injEq, eq_comm, reduceCtorEq, if_false]
  | enables =>
    cases found
    refine ⟨rfl, ?_⟩
    intro other
    cases other <;> simp only [writeRegion, contents, reduceCtorEq, if_false, if_true]

structure SameMemory (b after : Board) : Prop where
  model : after.model = b.model
  contents : after.contents = b.contents

/-- Only a copy to the sprites reaches a memory through a register. -/
theorem sameMemory_writeRegister {register : IoRegister} (noCopy : register ≠ .dma) (value : UInt8) (b : Board) :
    b.SameMemory (b.writeRegister register value) := by
  cases register with
  | dma => exact absurd rfl noCopy
  | lcdControl =>
    have switched : (b.lcd.writeControl value).1.vram = b.lcd.vram ∧ (b.lcd.writeControl value).1.oam = b.lcd.oam := by
      unfold Lcd.writeControl
      split <;> exact ⟨rfl, rfl⟩
    obtain ⟨journal, same⟩ := b.writeLcdControl_frame value
    rw [writeRegister, same]
    refine ⟨rfl, ?_⟩
    funext cell
    cases cell <;> simp only [contents, switched]
  | linkControl =>
    obtain ⟨requests, same⟩ := b.writeLinkControl_frame value
    rw [writeRegister, same]
    exact ⟨rfl, rfl⟩
  | lcdStatus =>
    refine ⟨rfl, ?_⟩
    funext cell
    cases cell <;> rfl
  | _ => exact ⟨rfl, rfl⟩

theorem wramBank_writeRegister {register : IoRegister} (other : register ≠ .wramBank) (value : UInt8) (b : Board) :
    (b.writeRegister register value).wramBank = b.wramBank := by
  cases register with
  | wramBank => exact absurd rfl other
  | lcdControl =>
    obtain ⟨journal, same⟩ := b.writeLcdControl_frame value
    rw [writeRegister, same]
  | linkControl =>
    obtain ⟨requests, same⟩ := b.writeLinkControl_frame value
    rw [writeRegister, same]
  | dma =>
    obtain ⟨oam, journal, same⟩ := b.copySprites_eq value
    rw [writeRegister, same]
  | _ => rfl

/-- A write outside the memories changes no cell, unless it copies to the sprites. -/
theorem write_elsewhere {address : UInt16} (outside : b.cell? address = none) (noCopy : address ≠ 0xFF46)
    (value : UInt8) : b.SameMemory (b.write address value) := by
  rw [cell?_eq] at outside
  rw [write]
  generalize found : Region.ofAddress address = region at outside ⊢
  cases region with
  | vram | wram | oam | hram | enables => cases outside
  | gap | cartridgeRam => exact ⟨rfl, rfl⟩
  | register register =>
    apply sameMemory_writeRegister
    rintro rfl
    exact noCopy (Region.address_eq found)
  | rom place =>
    obtain ⟨cartridge, journal, same⟩ := b.writeRom_frame place value
    rw [writeRegion, same]
    exact ⟨rfl, rfl⟩

theorem wramBank_write (address : UInt16) (value : UInt8) (b : Board) :
    (b.write address value).wramBank = if address = 0xFF70 then value else b.wramBank := by
  by_cases selects : address = 0xFF70
  · subst selects
    rfl
  · rw [if_neg selects, write]
    generalize found : Region.ofAddress address = region
    cases region with
    | rom place =>
      obtain ⟨cartridge, journal, same⟩ := b.writeRom_frame place value
      rw [writeRegion, same]
    | register register =>
      apply wramBank_writeRegister
      rintro rfl
      exact selects (Region.address_eq found)
    | _ => rfl

/-- A write that is no copy to the sprites changes at most the cell of its address. -/
theorem contents_write {address : UInt16} (noCopy : address ≠ 0xFF46) (value : UInt8) (b : Board) (cell : MemoryCell) :
    (b.write address value).model = b.model ∧
      (b.write address value).contents cell = if b.cell? address = some cell then value else b.contents cell := by
  cases found : b.cell? address with
  | none =>
    have same := write_elsewhere found noCopy value
    exact ⟨same.model, (congrFun same.contents cell).trans (if_neg nofun).symm⟩
  | some chosen =>
    obtain ⟨rest, changed⟩ := write_cell found value
    refine ⟨show (b.write address value).withoutMemory.model = b.withoutMemory.model from congrArg model rest, ?_⟩
    simp only [changed, Option.some.injEq, eq_comm]

end Board

namespace History

def wramBank (initial : UInt8) : History → UInt8 := last (fun write _ => write.address == 0xFF70) id initial

def memoryCell? (b : Board) (address : UInt16) (history : History) : Option MemoryCell :=
  MemoryCell.at? b.model (history.wramBank b.wramBank) address

/-- What a cell of a board holds after some writes: the last byte written to it while an address stood for it. -/
def stored (b : Board) (cell : MemoryCell) : History → UInt8 :=
  last (fun write earlier => earlier.memoryCell? b write.address == some cell) id (b.contents cell)

end History

namespace Board

def writeAll (writes : List Write) (b : Board) : Board :=
  writes.foldl (fun b write => b.write write.address write.byte) b

structure Stores (initial : Board) (history : History) (b : Board) : Prop where
  model : b.model = initial.model
  wramBank : b.wramBank = history.wramBank initial.wramBank
  contents : ∀ cell, b.contents cell = history.stored initial cell

theorem Stores.cell? {initial : Board} {history : History} (h : initial.Stores history b) (address : UInt16) :
    b.cell? address = history.memoryCell? initial address := by
  rw [Board.cell?, h.model, h.wramBank]
  rfl

theorem Stores.write {initial : Board} {history : History} (h : initial.Stores history b) {address : UInt16}
    (noCopy : address ≠ 0xFF46) (value : UInt8) :
    initial.Stores (⟨address, value⟩ :: history) (b.write address value) where
  model := (contents_write noCopy value b .enables).1.trans h.model
  wramBank := by
    rw [wramBank_write, h.wramBank]
    simp only [History.wramBank, History.last, beq_iff_eq, id]
  contents := by
    intro cell
    rw [(contents_write noCopy value b cell).2, h.contents, h.cell?]
    simp only [History.stored, History.last, beq_iff_eq, id]

theorem Stores.writeAll {initial : Board} {history : History} (h : initial.Stores history b) {writes : List Write}
    (noCopy : ∀ write ∈ writes, write.address ≠ 0xFF46) :
    initial.Stores (writes.reverse ++ history) (b.writeAll writes) := by
  induction writes generalizing b history with
  | nil => exact h
  | cons first rest ih =>
    obtain ⟨here, later⟩ := List.forall_mem_cons.mp noCopy
    rw [List.reverse_cons, List.append_assoc]
    exact ih (h.write here first.byte) later

/-- However the bank is switched between the writes, every cell holds what has last been written to it, and reads so
at each address that stands for it. A write to a cell changes that cell and nothing else on the board, a write
elsewhere changes no cell, and the gap behind the sprites reads as zero and takes no write. -/
theorem memory_keeps_last_bytes (b : Board) (writes : List Write)
    (noCopy : ∀ write ∈ writes, write.address ≠ 0xFF46) :
    let after := b.writeAll writes
    let history : History := writes.reverse
    (∀ cell, after.contents cell = history.stored b cell) ∧
    (∀ address cell, history.memoryCell? b address = some cell →
      after.read address = history.stored b cell ∧
      ∀ byte, (after.write address byte).withoutMemory = after.withoutMemory ∧
        ∀ other, (after.write address byte).contents other = if other = cell then byte else after.contents other) ∧
    (∀ address, history.memoryCell? b address = none → address ≠ 0xFF46 →
      ∀ byte, (after.write address byte).contents = after.contents) ∧
    ∀ address : UInt16, 0xFEA0 ≤ address.toNat → address.toNat ≤ 0xFEFF →
      after.read address = 0 ∧ ∀ byte, after.write address byte = after := by
  intro after history
  have untouched : b.Stores [] b := ⟨rfl, rfl, fun _ => rfl⟩
  have stores : b.Stores history after := by
    have written := untouched.writeAll noCopy
    rwa [List.append_nil] at written
  refine ⟨stores.contents, ?_, ?_, ?_⟩
  · intro address cell found
    rw [← stores.cell?] at found
    exact ⟨(read_cell found).trans (stores.contents cell), write_cell found⟩
  · intro address found noCopy byte
    rw [← stores.cell?] at found
    exact (write_elsewhere found noCopy byte).contents
  · intro address first last
    have gap : Region.ofAddress address = .gap := by
      simp only [Region.ofAddress]
      rw [dif_neg (by omega), dif_neg (by omega), dif_neg (by omega), dif_neg (by omega), dif_neg (by omega),
        dif_neg (by omega), if_pos (by omega)]
    refine ⟨?_, ?_⟩
    · rw [read, gap]
      rfl
    · intro byte
      rw [write, gap]
      rfl

/-- On the color machine with bank two in force the mirror writes to that bank; bank zero stands for bank one. -/
theorem memory_keeps_last_bytes_banked :
    let b : Board := { postBoot {} with model := .cgb }
    let switched : List Write := [⟨0xD000, 0x11⟩, ⟨0xFF70, 0x02⟩, ⟨0xF000, 0x22⟩]
    let back : List Write := switched ++ [⟨0xFEA0, 0x33⟩, ⟨0xFF70, 0xF8⟩]
    (b.writeAll switched).read 0xD000 = 0x22 ∧ (b.writeAll back).read 0xF000 = 0x11 ∧
      (b.writeAll back).contents (.wram 2 0) = 0x22 ∧ (b.writeAll back).read 0xFEA0 = 0 := by
  intro b switched back
  obtain ⟨_, shown, _, _⟩ := memory_keeps_last_bytes b switched (by decide)
  obtain ⟨kept, again, _, gap⟩ := memory_keeps_last_bytes b back (by decide)
  refine ⟨?_, ?_, ?_, ?_⟩
  · exact (shown 0xD000 (.wram 2 0) (by decide)).1
  · exact (again 0xF000 (.wram 1 0) (by decide)).1
  · exact kept (.wram 2 0)
  · exact (gap 0xFEA0 (by decide) (by decide)).1

end Board
end DotMatrix
