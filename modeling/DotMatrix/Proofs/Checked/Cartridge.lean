import DotMatrix.Board.Basic
import DotMatrix.Proofs.Checked.Word
import DotMatrix.Proofs.Memory

/-!
The cartridge with checks. Its memories are looked up by number, with banks counted from the length of
the memory, and the header and the saved RAM are read byte by byte.
-/

namespace DotMatrix.Checked

def byteAt (bytes : ByteArray) (i : Nat) : Option UInt8 := bytes[i]?

theorem byteAt_eq {bytes : ByteArray} {i : Nat} (inside : i < bytes.size) :
    byteAt bytes i = some bytes[i] := getElem?_pos bytes i inside

def romByte (bytes : ByteArray) (bank address : Nat) : Option UInt8 := do
  let bank ← remainder bank (max (bytes.size / 0x4000) 1)
  let start ← fits 32 (bank * 0x4000)
  let index ← fits 32 (start + address % 0x4000)
  byteAt bytes index

def shownBank (mapper : Mapper) (address : Nat) : Nat :=
  match mapper with
  | .plain => address / 0x4000
  | _ => if address < 0x4000 then 0 else mapper.romBank

def readRom (c : Cartridge) (address : Nat) : Option UInt8 :=
  romByte c.rom.bytes (shownBank c.mapper address) address

def ramPlace (size bank address : Nat) : Option (Fin size) := do
  let start ← fits 32 (bank * 0x2000)
  let offset ← fits 32 (start + address % 0x2000)
  let index ← remainder offset size
  slot size index

def readRam (c : Cartridge) (address : Nat) : Option UInt8 :=
  match c.mapper.ramTarget with
  | .nothing => some 0
  | .bank number =>
    if c.ramSize = 0 then some 0
    else do
      let place ← ramPlace c.ramSize number address
      return c.ram.get place
  | .clock register => do
    let place ← slot 5 register.val
    return c.mapper.clockByte place

def writeRam (c : Cartridge) (address : Nat) (value : UInt8) : Option Cartridge :=
  match c.mapper.ramTarget with
  | .nothing => some c
  | .bank number =>
    if c.ramSize = 0 then some c
    else do
      let place ← ramPlace c.ramSize number address
      return { c with ram := c.ram.set place value }
  | .clock register => do
    let place ← slot 5 register.val
    return { c with mapper := c.mapper.setClockByte place value }

def windowOf (selector : UInt8) : Option (Option Window) :=
  if selector.toNat ≤ 3 then some (some (.bank selector))
  else if 8 ≤ selector.toNat ∧ selector.toNat ≤ 12 then do
    let number ← minus selector.toNat 8
    let register ← slot 5 number
    return some (.clock register)
  else some none

def writeMapper (mapper : Mapper) (register : Fin 4) (value : UInt8) :
    Option (Mapper × Option MapperEvent) :=
  match mapper, register with
  | .mbc3 state, 2 => do
    let window ← windowOf value
    return (.mbc3 { state with window := window.getD state.window }, none)
  | mapper, register => some (mapper.write register value)

def writeRom (c : Cartridge) (address : Nat) (value : UInt8) :
    Option (Cartridge × Option MapperEvent) := do
  let register ← slot 4 (address / 0x2000)
  let (mapper, event) ← writeMapper c.mapper register value
  return ({ c with mapper }, event)

def titleBytes (image : ByteArray) : Option (List UInt8) :=
  (List.finRange 15).mapM fun i => byteAt image (0x134 + i.val)

def header (image : ByteArray) : Option (Except HeaderError Header) :=
  if image.size < Header.reach then some (.error (.tooShort image.size))
  else do
    let typeCode ← byteAt image 0x147
    match Controller.ofCode? typeCode with
    | none => return .error (.cartridgeType typeCode)
    | some controller =>
      let romCode ← byteAt image 0x148
      match RomSize.ofCode? romCode with
      | none => return .error (.romSize romCode)
      | some romSize =>
        let _ ← fits 32 romSize.bytes
        let ramCode ← byteAt image 0x149
        match ramSizeOfCode? ramCode with
        | none => return .error (.ramSize ramCode)
        | some ramSize =>
          let title ← titleBytes image
          let flag ← byteAt image 0x143
          return .ok { title := Header.titleOf title, controller, romSize, ramSize, color := flag &&& 0x80 != 0 }

def restoredRam (size : Nat) (saved : Option ByteArray) : Option (Block size) :=
  match saved with
  | none => some (Block.filled size 0)
  | some saved =>
    ascending (fun i ram => do
      let byte ← byteAt saved i
      let place ← slot size i
      return ram.set place byte) 0 (min saved.size size) (Block.filled size 0)

def load (image : ByteArray) (saved : Option ByteArray) (b : Board) :
    Option (Except HeaderError Header × Board) := do
  match ← header image with
  | .error error => return (.error error, b)
  | .ok header =>
    let ram ← restoredRam header.ramSize saved
    let cartridge := { Cartridge.build header image saved with ramSize := header.ramSize, ram }
    let b := { b with cartridge := some cartridge, model := header.model }
    let b := (Cartridge.remarks header image saved).foldl (fun b event => b.note event) b
    return (.ok header, b.note (BoardEvent.runsAs header.model))

theorem romBank_lt (mapper : Mapper) : mapper.romBank < 256 := by
  cases mapper with
  | plain => decide
  | mbc1 state => exact state.romBank.toNat_lt
  | mbc3 state => exact state.romBank.toNat_lt

theorem romByte_eq (rom : Rom) {bank : Nat} (small : bank < 256) {address : Nat} (offset : Fin 0x4000)
    (place : address % 0x4000 = offset.val) :
    romByte rom.bytes bank address = some (rom.get bank offset) := by
  have size := rom.size_eq
  have positive := rom.size.banks_pos
  simp only [RomSize.bytes] at size
  have banks : max (rom.bytes.size / 0x4000) 1 = rom.size.banks := by omega
  have wrapped : bank % rom.size.banks < 256 := Nat.lt_of_le_of_lt (Nat.mod_le _ _) small
  have inside : rom.index bank offset < rom.bytes.size := rom.index_lt bank offset
  have low := offset.isLt
  simp only [romByte, banks, remainder_eq positive, place, Option.bind_eq_bind, Option.bind_some]
  rw [fits_eq (Nat.lt_of_lt_of_le (Nat.mul_lt_mul_of_pos_right wrapped (by decide)) (by decide)),
    Option.bind_some, fits_eq (by omega), Option.bind_some]
  exact byteAt_eq inside

theorem readRom_eq (c : Cartridge) (address : Fin 0x8000) :
    readRom c address.val = some (c.readRom address) := by
  have bank : shownBank c.mapper address.val = if address.val < 0x4000 then 0 else c.mapper.romBank := by
    cases same : c.mapper with
    | plain =>
      simp only [shownBank, Mapper.romBank]
      split <;> omega
    | mbc1 | mbc3 => rfl
  have small : shownBank c.mapper address.val < 256 := by
    have known := romBank_lt c.mapper
    rw [bank]
    split <;> omega
  rw [readRom, romByte_eq c.rom small ⟨address.val % 0x4000, Nat.mod_lt _ (by decide)⟩ rfl, bank]
  rfl

theorem bank_lt {mapper : Mapper} {number : Nat} (selected : mapper.ramTarget = .bank number) :
    number < 256 := by
  cases mapper with
  | plain =>
    cases selected
    decide
  | mbc1 state =>
    simp only [Mapper.ramTarget] at selected
    split at selected
    · cases selected
      exact state.ramBank.toNat_lt
    · cases selected
  | mbc3 state =>
    simp only [Mapper.ramTarget] at selected
    split at selected
    · split at selected
      next byte _ =>
        cases selected
        exact byte.toNat_lt
      next => cases selected
    · cases selected

theorem ramPlace_eq (c : Cartridge) (h : 0 < c.ramSize) {bank : Nat} (small : bank < 256)
    {address : Nat} (offset : Fin 0x2000) (place : address % 0x2000 = offset.val) :
    ramPlace c.ramSize bank address = some (c.ramIndex h bank offset) := by
  have := offset.isLt
  simp only [ramPlace, place, Option.bind_eq_bind]
  rw [fits_eq (by omega), Option.bind_some, fits_eq (by omega), Option.bind_some, remainder_eq h,
    Option.bind_some, slot_eq (Nat.mod_lt _ h)]
  rfl

theorem readRam_eq (c : Cartridge) (offset : Fin 0x2000) :
    readRam c (0xA000 + offset.val) = some (c.readRam offset) := by
  have place : (0xA000 + offset.val) % 0x2000 = offset.val := by omega
  unfold readRam Cartridge.readRam
  cases target : c.mapper.ramTarget with
  | nothing => rfl
  | bank number =>
    dsimp only
    by_cases empty : c.ramSize = 0
    · rw [if_pos empty, dif_neg (by omega)]
    · have positive : 0 < c.ramSize := Nat.pos_of_ne_zero empty
      rw [if_neg empty, dif_pos positive, ramPlace_eq c positive (bank_lt target) offset place]
      rfl
  | clock register =>
    dsimp only
    rw [slot_eq register.isLt]
    rfl

theorem writeRam_eq (c : Cartridge) (offset : Fin 0x2000) (value : UInt8) :
    writeRam c (0xA000 + offset.val) value = some (c.writeRam offset value) := by
  have place : (0xA000 + offset.val) % 0x2000 = offset.val := by omega
  unfold writeRam Cartridge.writeRam
  cases target : c.mapper.ramTarget with
  | nothing => rfl
  | bank number =>
    dsimp only
    by_cases empty : c.ramSize = 0
    · rw [if_pos empty, dif_neg (by omega)]
    · have positive : 0 < c.ramSize := Nat.pos_of_ne_zero empty
      rw [if_neg empty, dif_pos positive, ramPlace_eq c positive (bank_lt target) offset place]
      rfl
  | clock register =>
    dsimp only
    rw [slot_eq register.isLt]
    rfl

theorem windowOf_eq (selector : UInt8) : windowOf selector = some (Mbc3.windowOf? selector) := by
  unfold windowOf Mbc3.windowOf?
  by_cases bank : selector.toNat ≤ 3
  · rw [if_pos bank, if_pos (UInt8.le_iff_toNat_le.mpr bank)]
  · rw [if_neg bank, if_neg fun low => bank (UInt8.le_iff_toNat_le.mp low)]
    by_cases clock : 8 ≤ selector.toNat ∧ selector.toNat ≤ 12
    · rw [if_pos clock, dif_pos (by omega), minus_eq clock.1, Option.bind_eq_bind, Option.bind_some,
        slot_eq (by omega)]
      rfl
    · rw [if_neg clock, dif_neg (by omega)]

theorem writeMapper_eq (mapper : Mapper) (register : Fin 4) (value : UInt8) :
    writeMapper mapper register value = some (mapper.write register value) := by
  unfold writeMapper
  split
  next state =>
    simp only [windowOf_eq, Option.bind_eq_bind, Option.bind_some]
    rfl
  next => rfl

theorem writeRom_eq (c : Cartridge) (address : Fin 0x8000) (value : UInt8) :
    writeRom c address.val value = some (c.writeRom address value) := by
  have register : address.val / 0x2000 < 4 := by omega
  simp only [writeRom, slot_eq register, writeMapper_eq, Option.bind_eq_bind, Option.bind_some]
  rfl

theorem titleBytes_eq {image : ByteArray} (long : Header.reach ≤ image.size) :
    titleBytes image = some (Header.titleBytes (Block.ofBytes Header.reach image)) := by
  apply mapM_eq
  intro i
  have inside : 0x134 + i.val < image.size := by
    simp only [Header.reach] at long
    omega
  rw [byteAt_eq inside, Block.get_ofBytes, dif_pos inside]

theorem bytes_lt {code : UInt8} {size : RomSize} (declared : RomSize.ofCode? code = some size) :
    size.bytes < 2 ^ 32 := by
  unfold RomSize.ofCode? at declared
  split at declared
  next small =>
    cases declared
    have doubled : 2 ^ code.toNat ≤ 2 ^ 8 :=
      Nat.pow_le_pow_right (by decide) (UInt8.le_iff_toNat_le.mp small)
    simp only [RomSize.bytes, Nat.shiftLeft_eq]
    omega
  next =>
    split at declared
    next => cases declared; decide
    next =>
      split at declared
      next => cases declared; decide
      next =>
        split at declared
        next => cases declared; decide
        next => cases declared

theorem header_eq (image : ByteArray) : header image = some (Header.parse image) := by
  have page {i : Nat} (inside : i < Header.reach) (long : Header.reach ≤ image.size) :
      byteAt image i = some ((Block.ofBytes Header.reach image).get ⟨i, inside⟩) := by
    rw [byteAt_eq (Nat.lt_of_lt_of_le inside long), Block.get_ofBytes,
      dif_pos (Nat.lt_of_lt_of_le inside long)]
  unfold header Header.parse
  split
  next => rfl
  next enough =>
    have long : Header.reach ≤ image.size := Nat.le_of_not_lt enough
    simp only [Header.ofPage, page (show 0x147 < Header.reach by decide) long,
      page (show 0x148 < Header.reach by decide) long, page (show 0x149 < Header.reach by decide) long,
      page (show 0x143 < Header.reach by decide) long, titleBytes_eq long, Option.bind_eq_bind,
      Option.bind_some]
    cases Controller.ofCode? _ with
    | none => rfl
    | some controller =>
      simp only
      cases declared : RomSize.ofCode? _ with
      | none => rfl
      | some romSize =>
        simp only [fits_eq (bytes_lt declared), Option.bind_some]
        cases ramSizeOfCode? _ <;> rfl

theorem restoredRam_eq (size : Nat) (saved : Option ByteArray) :
    restoredRam size saved = some (Block.ofBytes size (saved.getD ByteArray.empty)) := by
  cases saved with
  | none =>
    rw [restoredRam]
    congr 1
    apply Block.ext_get
    intro i
    rw [Block.get_filled, Block.get_ofBytes]
    symm
    exact dif_neg (Nat.not_lt_zero i.val)
  | some saved =>
    have inside : 0 + min saved.size size ≤ size := by omega
    rw [restoredRam, ascending_set (fun i => (byteAt saved i).getD 0) 0 _ inside]
    · congr 1
      apply Block.ext_get
      intro i
      rw [Block.get_patch, Block.get_ofBytes, Block.get_filled, Option.getD_some]
      by_cases kept : i.val < saved.size
      · rw [if_pos (by omega), dif_pos kept, byteAt_eq kept]
        rfl
      · rw [if_neg (by omega), dif_neg kept]
    · intro i m _ low
      rw [byteAt_eq (show i < saved.size by omega), slot_eq (show i < size by omega)]
      rfl

theorem load_eq (image : ByteArray) (saved : Option ByteArray) (b : Board) :
    load image saved b = some (b.load image saved) := by
  simp only [load, Board.load, header_eq, Option.bind_eq_bind, Option.bind_some]
  cases Header.parse image with
  | error error => rfl
  | ok header =>
    simp only [restoredRam_eq, Option.bind_some]
    rfl

end DotMatrix.Checked
