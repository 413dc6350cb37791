import DotMatrix.Board.Access
import DotMatrix.Proofs.Board.Regions
import DotMatrix.Proofs.Memory

/-!
The copy to the sprites as a snapshot. The loop reads the board that it fills, but no byte it reads is one that it
has filled before: only the page of the sprites shows them, and there each byte is copied to its own place.
-/

namespace DotMatrix

theorem foldl_reaches {σ : Type} {n : Nat} (P : Nat → σ → Prop) (f : σ → Fin n → σ)
    (step : ∀ s i, P i.val s → P (i.val + 1) (f s i)) {s : σ} (start : P 0 s) : P n (Fin.foldl n f s) := by
  induction n with
  | zero => exact start
  | succ n ih =>
    rw [Fin.foldl_succ_last]
    exact step _ (Fin.last n) (ih _ fun s i => step s i.castSucc)

namespace Region

theorem ofAddress_oam : ∀ i : Fin 0xA0, ofAddress (0xFE00 + UInt16.ofNat i.val) = .oam i := by
  decide +kernel

theorem ofAddress_register : ∀ i : Fin 0x80,
    ofAddress (0xFF00 + UInt16.ofNat i.val) = .register (IoRegister.ofOffset i) := by
  decide +kernel

theorem ofAddress_hram : ∀ i : Fin 0x7F, ofAddress (0xFF00 + UInt16.ofNat (0x80 + i.val)) = .hram i := by
  decide +kernel

end Region

namespace Board

theorem toNat_inPage (page : UInt8) {i : Nat} (inside : i < 0xA0) :
    (Word.ofBytes page 0 + UInt16.ofNat i).toNat = page.toNat * 256 + i := by
  have last := page.toNat_lt
  rw [UInt16.toNat_add, Word.toNat_ofBytes, UInt16.toNat_ofNat']
  change (page.toNat * 256 + 0 + i % 65536) % 65536 = _
  omega

def withSprites (oam : Block 0xA0) (page : UInt8) (journal : Journal) (b : Board) : Board :=
  { b with lcd := { b.lcd with oam }, dmaPage := page, journal }

theorem readRegion_withSprites (oam : Block 0xA0) (page : UInt8) (journal : Journal) (b : Board) (region : Region) :
    (b.withSprites oam page journal).readRegion region =
      match region with
      | .oam offset => oam.get offset
      | .register .dma => page
      | region => b.readRegion region := by
  cases region with
  | register register => cases register <;> rfl
  | _ => rfl

/-- The board in the middle of a copy: the sprites up to a place have their new bytes. -/
def copying (page : UInt8) (b : Board) (place : Nat) : Board :=
  b.withSprites (b.lcd.oam.patch 0 place fun i => b.read (Word.ofBytes page 0 + UInt16.ofNat i)) b.dmaPage
    (b.journal.record (BoardEvent.copiesSprites (Word.ofBytes page 0)))

/-- The loop reads what could be read before the copy. -/
theorem read_copying (page : UInt8) (b : Board) {place : Nat} (inside : place < 0xA0) :
    (b.copying page place).read (Word.ofBytes page 0 + UInt16.ofNat place) =
      b.read (Word.ofBytes page 0 + UInt16.ofNat place) := by
  rw [read, read, copying, readRegion_withSprites]
  generalize found : Region.ofAddress (Word.ofBytes page 0 + UInt16.ofNat place) = region
  cases region with
  | oam offset =>
    -- The byte is read from the place that is filled next.
    have same := Region.ofAddress_eq_oam.mp found
    rw [toNat_inPage page inside] at same
    have next : offset.val = place := by omega
    simp only [readRegion]
    rw [Block.get_patch, if_neg (by omega)]
  | register register => cases register <;> rfl
  | _ => rfl

theorem setSpriteByte_copying (page : UInt8) (b : Board) (place : Fin 0xA0) :
    (b.copying page place.val).setSpriteByte place
        ((b.copying page place.val).read (Word.ofBytes page 0 + UInt16.ofNat place.val)) =
      b.copying page (place.val + 1) := by
  rw [read_copying page b place.isLt]
  simp only [setSpriteByte, copying, withSprites]
  rw [← Block.set_patch b.lcd.oam _ (Nat.zero_le place.val) place.isLt]

/-- The copy as one assignment. -/
theorem copySprites_snapshot (page : UInt8) (b : Board) :
    b.copySprites page =
      b.withSprites (Block.ofFn fun i => b.read (Word.ofBytes page 0 + UInt16.ofNat i.val)) page
        (b.journal.record (BoardEvent.copiesSprites (Word.ofBytes page 0))) := by
  have filled := foldl_reaches (fun place c => c = b.copying page place)
    (fun c (offset : Fin 0xA0) =>
      c.setSpriteByte offset (c.read (Word.ofBytes page 0 + UInt16.ofNat offset.val)))
    (by
      rintro c offset rfl
      exact setSpriteByte_copying page b offset)
    (s := b.note (BoardEvent.copiesSprites (Word.ofBytes page 0)))
    (by simp only [copying, Block.patch_self, withSprites, note])
  simp only [copySprites, filled, copying, Block.patch_all, withSprites]

theorem write_dma (page : UInt8) (b : Board) : b.write 0xFF46 page = b.copySprites page := by
  have register : Region.ofAddress 0xFF46 = .register .dma := Region.ofAddress_register 0x46
  rw [write, register]
  rfl

theorem oam_write_dma (page : UInt8) (b : Board) (i : Fin 0xA0) :
    (b.write 0xFF46 page).lcd.oam.get i = b.read (Word.ofBytes page 0 + UInt16.ofNat i.val) := by
  rw [write_dma, copySprites_snapshot]
  exact Block.get_ofFn _ i

theorem read_withSprites_dma (oam : Block 0xA0) (page : UInt8) (journal : Journal) (b : Board) :
    (b.withSprites oam page journal).read 0xFF46 = page :=
  congrArg (b.withSprites oam page journal).readRegion (Region.ofAddress_register 0x46)

theorem read_withSprites_oam (oam : Block 0xA0) (page : UInt8) (journal : Journal) (b : Board) {address : UInt16}
    {offset : Fin 0xA0} (inside : address.toNat = 0xFE00 + offset.val) :
    (b.withSprites oam page journal).read address = oam.get offset := by
  rw [read, readRegion_withSprites, Region.ofAddress_eq_oam.mpr inside]

theorem read_withSprites_of_ne (oam : Block 0xA0) (page : UInt8) (journal : Journal) (b : Board) {address : UInt16}
    (outside : ¬(0xFE00 ≤ address.toNat ∧ address.toNat < 0xFEA0)) (other : address ≠ 0xFF46) :
    (b.withSprites oam page journal).read address = b.read address := by
  rw [read, read, readRegion_withSprites]
  generalize found : Region.ofAddress address = region
  cases region with
  | oam offset =>
    have same := Region.ofAddress_eq_oam.mp found
    omega
  | register reached =>
    cases reached with
    | dma => exact absurd (Region.address_eq found) other
    | _ => rfl
  | _ => rfl

/-- A write to FF46 copies a page as a snapshot: the sprites have the bytes that the page showed before, FF46 the
page, and nothing else is changed but that the copy is noted. So copying the page of the sprites changes none of
them, and copying the page of the registers takes the page of the copy before from FF46. -/
theorem write_copies_page (page : UInt8) (b : Board) :
    let base := page.toUInt16 <<< 8
    let after := b.write 0xFF46 page
    after = { b with
      lcd := { b.lcd with oam := Block.ofFn fun i => b.read (base + UInt16.ofNat i.val) }
      dmaPage := page
      journal := b.journal.record (BoardEvent.copiesSprites base) } ∧
    (∀ address, after.read address =
      if address = 0xFF46 then page
      else if 0xFE00 ≤ address.toNat ∧ address.toNat < 0xFEA0 then b.read (base + (address - 0xFE00))
      else b.read address) ∧
    (b.write 0xFF46 0xFE).lcd.oam = b.lcd.oam ∧
    (∀ i : Fin 0x80, (b.write 0xFF46 0xFF).lcd.oam.get (i.castLE (by decide)) = b.readRegister (IoRegister.ofOffset i)) ∧
    (b.write 0xFF46 0xFF).lcd.oam.get 0x46 = b.dmaPage ∧
    (∀ i : Fin 0x20, (b.write 0xFF46 0xFF).lcd.oam.get (i.natAdd 0x80) = b.hram.get (i.castLE (by decide))) := by
  have base : Word.ofBytes page 0 = page.toUInt16 <<< 8 := by simp [Word.ofBytes]
  refine ⟨?_, ?_, ?_, ?_, ?_, ?_⟩
  · rw [write_dma, copySprites_snapshot, base]
    rfl
  · intro address
    rw [write_dma, copySprites_snapshot, base]
    by_cases register : address = 0xFF46
    · rw [if_pos register, register]
      exact read_withSprites_dma _ page _ b
    · rw [if_neg register]
      by_cases inside : 0xFE00 ≤ address.toNat ∧ address.toNat < 0xFEA0
      · obtain ⟨offset, place⟩ : ∃ offset : Fin 0xA0, address.toNat = 0xFE00 + offset.val :=
          ⟨⟨address.toNat - 0xFE00, by omega⟩, by simp only; omega⟩
        have distance : UInt16.ofNat offset.val = address - 0xFE00 := by
          have above : (0xFE00 : UInt16) ≤ address := UInt16.le_iff_toNat_le.mpr inside.1
          apply UInt16.toNat.inj
          rw [UInt16.toNat_ofNat', UInt16.toNat_sub_of_le address 0xFE00 above]
          change _ = address.toNat - 0xFE00
          omega
        rw [if_pos inside, read_withSprites_oam _ page _ b place, Block.get_ofFn, distance]
      · rw [if_neg inside, read_withSprites_of_ne _ page _ b inside register]
  · -- Each byte of this page is its own source.
    apply Block.ext_get
    intro i
    rw [oam_write_dma]
    exact congrArg b.readRegion (Region.ofAddress_oam i)
  · intro i
    rw [oam_write_dma]
    exact congrArg b.readRegion (Region.ofAddress_register i)
  · rw [oam_write_dma]
    exact congrArg b.readRegion (Region.ofAddress_register 0x46)
  · intro i
    rw [oam_write_dma]
    exact congrArg b.readRegion (Region.ofAddress_hram (i.castLE (by decide)))

end Board
end DotMatrix
