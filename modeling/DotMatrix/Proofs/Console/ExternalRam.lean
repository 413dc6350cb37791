import DotMatrix.Proofs.Console.RomMapping

/-!
The RAM area of a console. What an address shows is the byte that has last been written to the cell for which it
stands, as the writes to the controller have arranged it, whatever else has been done in between.
-/

namespace DotMatrix.Console

variable {c loaded : Console} {image : ByteArray} {saved : Option ByteArray} {header : Header}

/-- An address of the RAM area reads as the byte last written to its cell while the cell was shown, or as the saved
byte. While no cell is shown it reads as zero, and a write changes nothing at all. -/
theorem ram_keeps_last_bytes (inserted : c.load image saved = (.ok header, loaded)) (operations : List Operation)
    (stay : ∀ operation ∈ operations, operation.keepsCartridge = true) (address : UInt16)
    (inside : 0xA000 ≤ address.toNat ∧ address.toNat ≤ 0xBFFF) :
    let board := (loaded.operateAll operations).board
    let history := loaded.writesOf operations
    match history.cell? header address with
    | some cell => board.read address = history.byteOf header saved cell
    | none => board.read address = 0 ∧ ∀ byte, board.write address byte = board := by
  intro board history
  obtain ⟨cartridge, holds, reflects⟩ := holds_operateAll inserted stay
  have place : address.toNat = 0xA000 + (address.toNat - 0xA000) := by omega
  let offset : Fin 0x2000 := ⟨address.toNat - 0xA000, by omega⟩
  have region : Region.ofAddress address = .cartridgeRam offset := Region.ofAddress_eq_cartridgeRam.mpr place
  have shown : cartridge.cell? offset = history.cell? header address := reflects.cell? place
  have read : board.read address = cartridge.readRam offset := by
    rw [Board.read, region]
    simp only [Board.readRegion, board, holds]
  rw [read, Cartridge.readRam_eq, shown]
  cases found : history.cell? header address with
  | some cell => exact reflects.contents cell
  | none =>
    refine ⟨rfl, ?_⟩
    intro byte
    have same : cartridge.writeRam offset byte = cartridge := Cartridge.writeRam_of_none (shown.trans found) byte
    rw [Board.write, region, Board.writeRegion, Board.writeCartridgeRam, show board.cartridge = _ from holds,
      Option.map_some, same, ← show board.cartridge = _ from holds]

/-- A RAM of 2 KiB: the byte written in bank zero shows again in the mirrors of bank two, the clock is apart from it,
and a value that is no selector is passed over. When the RAM is closed its area reads as zero. -/
theorem ram_keeps_last_bytes_mirrored :
    let loaded := Program.loaded (Program.numbered 2 0x13 0x00 0x01).bytes {}
    let clock := [.write 0x0000 0x1A, .write 0xA001 0x55, .write 0x4000 0x08, .write 0xB801 0x21, .write 0x5FFF 0x07]
    let mirror := clock ++ [.write 0x4000 0x02, .call (.press .start), .tick 80]
    let closed := mirror ++ [.write 0x1FFF 0x00]
    (loaded.operateAll clock).board.read 0xA000 = 0x21 ∧ (loaded.operateAll mirror).board.read 0xB001 = 0x55 ∧
      (loaded.operateAll closed).board.read 0xB001 = 0 ∧
      (loaded.operateAll closed).board.write 0xB001 0x77 = (loaded.operateAll closed).board := by
  intro loaded clock mirror closed
  let header : Header := ⟨"", .mbc3, ⟨2, by decide⟩, 0x800, false⟩
  have inserted : (postBoot {}).load (Program.numbered 2 0x13 0x00 0x01).bytes none = (.ok header, loaded) :=
    load_of_parse (Program.parse_numbered (by decide) (by decide) rfl rfl) {}
  refine ⟨?_, ?_, ?_⟩
  · have read := ram_keeps_last_bytes inserted clock (by decide) 0xA000 (by decide)
    have cell : (loaded.writesOf clock).cell? header 0xA000 = some (.clock 0) := by decide +kernel
    have byte : (loaded.writesOf clock).byteOf header none (.clock 0) = 0x21 := by decide +kernel
    simp only [cell, byte] at read
    exact read
  · have read := ram_keeps_last_bytes inserted mirror (by decide) 0xB001 (by decide)
    have cell : (loaded.writesOf mirror).cell? header 0xB001 = some (.ram 1) := by decide +kernel
    have byte : (loaded.writesOf mirror).byteOf header none (.ram 1) = 0x55 := by decide +kernel
    simp only [cell, byte] at read
    exact read
  · have read := ram_keeps_last_bytes inserted closed (by decide) 0xB001 (by decide)
    have cell : (loaded.writesOf closed).cell? header 0xB001 = none := by decide +kernel
    simp only [cell] at read
    exact ⟨read.1, read.2 0x77⟩

end DotMatrix.Console
