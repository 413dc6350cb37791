import DotMatrix.Proofs.Cartridge.Cells
import DotMatrix.Proofs.Console.Operations
import DotMatrix.Proofs.Console.Programs

/-!
Where the ROM area of a console reads from. The lower half shows the first bank of the image, the upper half the
bank that the writes to the controller have chosen, and nothing but another cartridge changes a byte of the image.
-/

namespace DotMatrix

def Header.paddedImage (header : Header) (image : ByteArray) : ByteArray :=
  ⟨Array.ofFn fun i : Fin header.romSize.bytes => image[i.val]?.getD 0⟩

theorem Header.size_paddedImage (header : Header) (image : ByteArray) :
    (header.paddedImage image).size = header.romSize.bytes := Array.size_ofFn

namespace Cartridge

variable {c : Cartridge} {header : Header} {image : ByteArray} {saved : Option ByteArray} {history : History}

theorem bytes_ofImage (header : Header) (image : ByteArray) :
    (Rom.ofImage header.romSize image).bytes = header.paddedImage image := by
  have padded : Block.ofBytes header.romSize.bytes image =
      Block.ofFn fun i : Fin header.romSize.bytes => image[i.val]?.getD 0 := by
    apply Block.ext_get
    intro i
    rw [Block.get_ofBytes_getD, Block.get_ofFn]
  exact congrArg Block.bytes padded

theorem Reflects.get_rom (h : c.Reflects header image saved history) (bank : Nat) (offset : Fin 0x4000) :
    some (c.rom.get bank offset) =
      (header.paddedImage image)[bank % ((header.paddedImage image).size / 0x4000) * 0x4000 + offset.val]? := by
  have inside := c.rom.index_lt bank offset
  have bytes : c.rom.bytes = header.paddedImage image := by rw [h.rom, bytes_ofImage]
  have banks : (header.paddedImage image).size / 0x4000 = c.rom.size.banks := by
    rw [Header.size_paddedImage, RomSize.bytes, Nat.mul_div_cancel _ (by decide), h.rom]
    rfl
  rw [banks, ← bytes]
  exact (getElem?_pos c.rom.bytes (c.rom.index bank offset) inside).symm

end Cartridge

namespace Program

/-- An image of whole banks with three codes in its header; every other byte is the number of its bank. -/
def numbered (banks : Nat) (kind rom ram : UInt8) : Block (banks * 0x4000) :=
  Block.ofFn fun i =>
    if i.val = 0x147 then kind else if i.val = 0x148 then rom else if i.val = 0x149 then ram
    else UInt8.ofNat (i.val / 0x4000)

variable {banks : Nat} {kind rom ram : UInt8}

theorem getElem?_numbered {i : Nat} (inside : i < banks * 0x4000) (behind : 0x14A ≤ i) :
    (numbered banks kind rom ram).bytes[i]? = some (UInt8.ofNat (i / 0x4000)) := by
  rw [Block.getElem?_bytes, dif_pos inside, numbered, Block.get_ofFn, if_neg (by simp only; omega),
    if_neg (by simp only; omega), if_neg (by simp only; omega)]

theorem parse_numbered (filled : 0 < banks) {controller : Controller} {romSize : RomSize} {ramSize : Nat}
    (controls : Controller.ofCode? kind = some controller) (sizes : RomSize.ofCode? rom = some romSize)
    (keeps : ramSizeOfCode? ram = some ramSize) :
    Header.parse (numbered banks kind rom ram).bytes = .ok ⟨"", controller, romSize, ramSize, false⟩ := by
  have long : Header.reach < banks * 0x4000 := by
    simp only [Header.reach]
    omega
  have code {i : Nat} (inside : i < Header.reach) :
      (Block.ofBytes Header.reach (numbered banks kind rom ram).bytes).get ⟨i, inside⟩ =
        if i = 0x147 then kind else if i = 0x148 then rom else if i = 0x149 then ram
        else UInt8.ofNat (i / 0x4000) := by
    rw [Block.get_ofBytes_getD, Block.getElem?_bytes, dif_pos (Nat.lt_trans inside long), numbered, Block.get_ofFn,
      Option.getD_some]
  -- The title lies in bank zero, whose bytes are zero, so that nothing of it is left.
  have title : Header.titleBytes (Block.ofBytes Header.reach (numbered banks kind rom ram).bytes) =
      List.replicate 15 0 := by
    apply List.eq_replicate_iff.mpr
    refine ⟨by rw [Header.titleBytes, List.length_map, List.length_finRange], ?_⟩
    intro byte listed
    obtain ⟨i, _, rfl⟩ := List.mem_map.mp listed
    have last := i.isLt
    have place : (0x134 + i.val) / 0x4000 = 0 := by omega
    rw [code, if_neg (by omega), if_neg (by omega), if_neg (by omega), place]
    rfl
  have size : ¬(numbered banks kind rom ram).bytes.size < Header.reach := by
    rw [Block.size_eq]
    omega
  rw [Header.parse, if_neg size, Header.ofPage, code (by decide), code (by decide), code (by decide),
    code (by decide), title]
  simp only [Nat.reduceEqDiff, if_true, if_false, controls, sizes, keeps]
  rfl

end Program

namespace Board

variable {b : Board} {header : Header} {image : ByteArray} {saved : Option ByteArray} {history : History}

theorem Holds.read_first (holds : b.Holds header image saved history) {address : UInt16}
    (low : address.toNat ≤ 0x3FFF) : some (b.read address) = (header.paddedImage image)[address.toNat]? := by
  obtain ⟨cartridge, inserted, reflects⟩ := holds
  have place : Region.ofAddress address = .rom ⟨address.toNat, by omega⟩ := Region.ofAddress_eq_rom.mpr rfl
  rw [read, place]
  simp only [readRegion, inserted]
  rw [Cartridge.readRom, if_pos (by simp only; omega), reflects.get_rom]
  simp only [Nat.zero_mod, Nat.zero_mul, Nat.zero_add, Nat.mod_eq_of_lt (show address.toNat < 0x4000 by omega)]

/-- The upper half shows the bank that the writes have chosen. -/
theorem Holds.read_chosen (holds : b.Holds header image saved history) {address : UInt16}
    (high : 0x4000 ≤ address.toNat) (low : address.toNat ≤ 0x7FFF) :
    some (b.read address) = (header.paddedImage image)[history.romBank header.controller %
      ((header.paddedImage image).size / 0x4000) * 0x4000 + (address.toNat - 0x4000)]? := by
  obtain ⟨cartridge, inserted, reflects⟩ := holds
  have place : Region.ofAddress address = .rom ⟨address.toNat, by omega⟩ := Region.ofAddress_eq_rom.mpr rfl
  have offset : address.toNat % 0x4000 = address.toNat - 0x4000 := by omega
  rw [read, place]
  simp only [readRegion, inserted]
  rw [Cartridge.readRom, if_neg (by simp only; omega), reflects.get_rom, reflects.registers.romBank]
  simp only [offset]

end Board

namespace Console

variable {c loaded : Console} {image : ByteArray} {saved : Option ByteArray} {header : Header}

theorem holds_loaded (inserted : c.load image saved = (.ok header, loaded)) :
    Board.Holds header image saved [] loaded.board := by
  obtain ⟨journal, same⟩ := @Board.load_of_parse image saved header (parse_of_load inserted) c.board
  have after : loaded.board = (c.board.load image saved).2 := congrArg (·.2.board) inserted.symm
  exact ⟨Cartridge.build header image saved, congrArg Board.cartridge (after.trans same), Cartridge.reflects_build ..⟩

/-- From the load on the cartridge is what its image, its save and the writes make of it. -/
theorem holds_operateAll (inserted : c.load image saved = (.ok header, loaded)) {operations : List Operation}
    (stay : ∀ operation ∈ operations, operation.keepsCartridge = true) :
    Board.Holds header image saved (loaded.writesOf operations) (loaded.operateAll operations).board :=
  (Board.holds_law header image saved).operateAll stay (holds_loaded inserted)

/-- Whatever is done to a console after an image has been loaded, its ROM area shows the padded image: the first
bank below, and above it the bank that the writes have chosen, counted modulo the banks of the declared size. -/
theorem rom_is_mapped (inserted : c.load image saved = (.ok header, loaded)) (operations : List Operation)
    (stay : ∀ operation ∈ operations, operation.keepsCartridge = true) :
    let board := (loaded.operateAll operations).board
    let bank := (loaded.writesOf operations).romBank header.controller
    let rom := header.paddedImage image
    (∀ address : UInt16, address.toNat ≤ 0x3FFF → some (board.read address) = rom[address.toNat]?) ∧
    (∀ address : UInt16, 0x4000 ≤ address.toNat → address.toNat ≤ 0x7FFF →
      some (board.read address) = rom[bank % (rom.size / 0x4000) * 0x4000 + (address.toNat - 0x4000)]?) ∧
    board.cartridge.map (·.rom.bytes) = some rom := by
  intro board bank rom
  have holds : board.Holds header image saved _ := holds_operateAll inserted stay
  refine ⟨fun _ => holds.read_first, fun _ => holds.read_chosen, ?_⟩
  obtain ⟨cartridge, shown, reflects⟩ := holds
  rw [shown, Option.map_some, reflects.rom, Cartridge.bytes_ofImage]

theorem load_of_parse (parsed : Header.parse image = .ok header) (journal : Journal) :
    (postBoot journal).load image none = (.ok header, Program.loaded image journal) :=
  load_eq_of_parse parsed none (postBoot journal)

theorem getElem?_paddedImage (header : Header) (image : ByteArray) {i : Nat} (inside : i < header.romSize.bytes) :
    (header.paddedImage image)[i]? = some (image[i]?.getD 0) := by
  rw [← Cartridge.bytes_ofImage, Rom.ofImage, Block.getElem?_bytes, dif_pos inside, Block.get_ofBytes_getD]

/-- Five banks of an image declared as eight: bank 107 comes to bank three, and bank 110 to zeros behind the image. -/
theorem rom_is_mapped_beyond_image :
    let loaded := Program.loaded (Program.numbered 5 0x01 0x02 0x00).bytes {}
    let third := [.write 0x4000 0x03, .write 0x2000 0x0B, .write 0x6000 0x01, .write 0x4000 0x00]
    let sixth := third ++ [.call (.press .start), .write 0x3FFF 0xEE, .tick 80]
    (loaded.operateAll third).board.read 0x4567 = 3 ∧ (loaded.operateAll third).board.read 0x0567 = 0 ∧
      (loaded.operateAll sixth).board.read 0x4567 = 0 := by
  intro loaded third sixth
  have parsed := @Program.parse_numbered 5 0x01 0x02 0x00 (by decide) .mbc1 ⟨8, by decide⟩ 0 rfl rfl rfl
  have inserted := load_of_parse parsed {}
  obtain ⟨below, above, _⟩ := rom_is_mapped inserted third (by decide)
  obtain ⟨_, later, _⟩ := rom_is_mapped inserted sixth (by decide)
  rw [Header.size_paddedImage] at above later
  refine ⟨?_, ?_, ?_⟩
  · have shown := above 0x4567 (by decide) (by decide)
    have bank : (loaded.writesOf third).romBank .mbc1 = 107 := rfl
    rw [bank, getElem?_paddedImage _ _ (by decide), Program.getElem?_numbered (by decide) (by decide)] at shown
    exact Option.some.inj shown
  · have shown := below 0x0567 (by decide)
    rw [getElem?_paddedImage _ _ (by decide), Program.getElem?_numbered (by decide) (by decide)] at shown
    exact Option.some.inj shown
  · have shown := later 0x4567 (by decide) (by decide)
    have bank : (loaded.writesOf sixth).romBank .mbc1 = 110 := rfl
    rw [bank, getElem?_paddedImage _ _ (by decide), Block.getElem?_bytes, dif_neg (by decide)] at shown
    exact Option.some.inj shown

end Console
end DotMatrix
