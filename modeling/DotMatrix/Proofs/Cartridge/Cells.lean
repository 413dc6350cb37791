import DotMatrix.Proofs.Cartridge.Registers
import DotMatrix.Proofs.Memory

/-!
What the RAM area of a cartridge shows. Each address stands for a cell, or for none, and which one follows from
the writes to the controller; a cell holds the last byte that has been written to it through the area.
-/

namespace DotMatrix

inductive Cell where
  | ram (place : Nat)
  | clock (register : Nat)
  deriving DecidableEq

/-- What a cell holds at first: a byte of the saved RAM as far as it goes. -/
def Cell.initial (header : Header) (saved : Option ByteArray) : Cell → UInt8
  | .ram place => if place < header.ramSize then (saved.getD ByteArray.empty)[place]?.getD 0 else 0
  | .clock _ => 0

namespace History

/-- The cell of an address in a bank of the RAM; banks beyond the RAM start over from its first byte. -/
def ramCell? (ramSize bank : Nat) (address : UInt16) : Option Cell :=
  if ramSize = 0 then none else some (.ram ((bank * 0x2000 + address.toNat % 0x2000) % ramSize))

def cell? (header : Header) (address : UInt16) (history : History) : Option Cell :=
  match header.controller with
  | .plain => ramCell? header.ramSize 0 address
  | .mbc1 => if history.ramEnabled then ramCell? header.ramSize (history.upperBits true) address else none
  | .mbc3 =>
    if history.ramEnabled then
      if history.selector ≤ 3 then ramCell? header.ramSize history.selector address
      else some (.clock (history.selector - 8))
    else none

def byteOf (header : Header) (saved : Option ByteArray) (cell : Cell) : History → UInt8 :=
  last (fun write earlier => write.into 0xA000 0xBFFF && earlier.cell? header write.address == some cell) id
    (cell.initial header saved)

end History

namespace Mapper

theorem clockByte_write (mapper : Mapper) (register : Fin 4) (value : UInt8) (place : Fin 5) :
    (mapper.write register value).1.clockByte place = mapper.clockByte place := by
  cases mapper with
  | plain | mbc1 => rfl
  | mbc3 state => match register with | 0 | 1 | 2 | 3 => rfl

theorem clockByte_setClockByte {mapper : Mapper} {register : Fin 5} (shown : mapper.ramTarget = .clock register)
    (value : UInt8) (place : Fin 5) :
    (mapper.setClockByte register value).clockByte place =
      if register = place then value else mapper.clockByte place := by
  cases mapper with
  | plain => cases shown
  | mbc1 state =>
    simp only [ramTarget] at shown
    split at shown <;> cases shown
  | mbc3 state => exact Block.get_set state.clock register place value

end Mapper

namespace Cartridge

def cell? (c : Cartridge) (offset : Fin 0x2000) : Option Cell :=
  match c.mapper.ramTarget with
  | .nothing => none
  | .bank number => if c.ramSize = 0 then none else some (.ram ((number * 0x2000 + offset.val) % c.ramSize))
  | .clock register => some (.clock register.val)

def contents (c : Cartridge) : Cell → UInt8
  | .ram place => if h : place < c.ramSize then c.ram.get ⟨place, h⟩ else 0
  | .clock register => if h : register < 5 then c.mapper.clockByte ⟨register, h⟩ else 0

variable {c : Cartridge} {offset : Fin 0x2000} {cell : Cell}

theorem readRam_eq (c : Cartridge) (offset : Fin 0x2000) :
    c.readRam offset = match c.cell? offset with
      | some cell => c.contents cell
      | none => 0 := by
  simp only [readRam, cell?]
  cases c.mapper.ramTarget with
  | nothing => rfl
  | bank number =>
    by_cases empty : c.ramSize = 0
    · simp only [empty, Nat.lt_irrefl, dif_neg, if_true, not_false_eq_true]
    · have positive : 0 < c.ramSize := Nat.pos_of_ne_zero empty
      simp only [positive, dif_pos, empty, if_false, contents, ramIndex, Nat.mod_lt]
  | clock register => simp only [contents, dif_pos register.isLt]

theorem writeRam_of_none (found : c.cell? offset = none) (value : UInt8) : c.writeRam offset value = c := by
  simp only [cell?] at found
  simp only [writeRam]
  cases target : c.mapper.ramTarget with
  | nothing => rfl
  | bank number =>
    simp only [target, ite_eq_left_iff, reduceCtorEq, imp_false, not_not] at found
    exact dif_neg (by omega)
  | clock register => simp only [target, reduceCtorEq] at found

/-- A write reaches the cell that is shown, and no other. -/
theorem contents_writeRam (found : c.cell? offset = some cell) (value : UInt8) (other : Cell) :
    (c.writeRam offset value).contents other = if cell = other then value else c.contents other := by
  simp only [cell?] at found
  simp only [writeRam]
  cases target : c.mapper.ramTarget with
  | nothing => simp only [target, reduceCtorEq] at found
  | bank number =>
    simp only [target] at found
    split at found
    next => cases found
    next filled =>
      cases found
      have positive : 0 < c.ramSize := Nat.pos_of_ne_zero filled
      simp only [positive, dif_pos]
      cases other with
      | clock => simp only [contents, reduceCtorEq, if_false]
      | ram place =>
        simp only [contents, Cell.ram.injEq]
        by_cases inside : place < c.ramSize
        · simp only [dif_pos inside, Block.get_set, ramIndex, Fin.mk.injEq]
        · have apart : (number * 0x2000 + offset.val) % c.ramSize ≠ place := by
            have := Nat.mod_lt (number * 0x2000 + offset.val) positive
            omega
          rw [dif_neg inside, if_neg apart, dif_neg inside]
  | clock register =>
    simp only [target, Option.some.injEq] at found
    subst found
    cases other with
    | ram => simp only [contents, reduceCtorEq, if_false]
    | clock place =>
      simp only [contents, Cell.clock.injEq]
      by_cases inside : place < 5
      · simp only [dif_pos inside, Mapper.clockByte_setClockByte target, Fin.ext_iff]
      · have apart : register.val ≠ place := by omega
        rw [dif_neg inside, if_neg apart, dif_neg inside]

/-- A cartridge is what its image, its save and its history make of it. -/
structure Reflects (header : Header) (image : ByteArray) (saved : Option ByteArray) (history : History)
    (c : Cartridge) : Prop where
  rom : c.rom = Rom.ofImage header.romSize image
  ramSize : c.ramSize = header.ramSize
  registers : c.mapper.Follows history header.controller
  contents : ∀ cell, c.contents cell = history.byteOf header saved cell

variable {header : Header} {image : ByteArray} {saved : Option ByteArray} {history : History} {address : UInt16}

theorem contents_build (header : Header) (image : ByteArray) (saved : Option ByteArray) (cell : Cell) :
    (build header image saved).contents cell = cell.initial header saved := by
  cases cell with
  | ram place =>
    simp only [contents, Cell.initial]
    by_cases inside : place < header.ramSize
    · rw [if_pos inside]
      exact (dif_pos inside).trans (Block.get_ofBytes_getD _ _)
    · rw [if_neg inside]
      exact dif_neg inside
  | clock register =>
    simp only [contents, Cell.initial]
    split
    next inside =>
      change (Mapper.initial header.controller).clockByte ⟨register, inside⟩ = 0
      cases header.controller with
      | plain | mbc1 => rfl
      | mbc3 => exact Block.get_filled 0 _
    next => rfl

theorem reflects_build (header : Header) (image : ByteArray) (saved : Option ByteArray) :
    (build header image saved).Reflects header image saved [] :=
  ⟨rfl, rfl, Mapper.follows_initial _, contents_build header image saved⟩

/-- The controller chooses the cell that the history says. -/
theorem Reflects.cell? (h : c.Reflects header image saved history) (same : address.toNat = 0xA000 + offset.val) :
    c.cell? offset = history.cell? header address := by
  have place : address.toNat % 0x2000 = offset.val := by omega
  have registers := h.registers
  simp only [Cartridge.cell?, History.cell?, History.ramCell?, place, h.ramSize]
  generalize header.controller = controller, c.mapper = mapper at registers
  cases registers with
  | plain => rfl
  | mbc1 registers =>
    simp only [Mapper.ramTarget, registers.ramEnabled, ← registers.ramBank]
    cases history.ramEnabled <;> rfl
  | @mbc3 state registers =>
    simp only [Mapper.ramTarget, registers.ramEnabled]
    have shown := registers.window
    cases history.ramEnabled with
    | false => rfl
    | true =>
      generalize state.window = window, history.selector = selector at shown
      cases shown with
      | bank small => simp only [if_true, if_pos small]
      | clock register =>
        have large : ¬8 + register.val ≤ 3 := by omega
        simp only [if_true, if_neg large, Nat.add_sub_cancel_left]

theorem Reflects.writeRom (h : c.Reflects header image saved history) {place : Fin 0x8000}
    (same : address.toNat = place.val) (value : UInt8) :
    (c.writeRom place value).1.Reflects header image saved (⟨address, value⟩ :: history) := by
  have inside := place.isLt
  have outside : (⟨address, value⟩ : Write).into 0xA000 0xBFFF = false := by
    simp only [Write.into, Bool.and_eq_false_iff, decide_eq_false_iff_not]
    omega
  refine ⟨h.rom, h.ramSize, h.registers.write (congrArg (· / 0x2000) same), ?_⟩
  intro cell
  rw [History.byteOf, History.last_miss_part outside, ← History.byteOf, ← h.contents]
  cases cell with
  | ram => rfl
  | clock register =>
    simp only [Cartridge.contents]
    split
    next => exact Mapper.clockByte_write c.mapper _ value _
    next => rfl

theorem Reflects.pass (h : c.Reflects header image saved history) (high : 0x8000 ≤ address.toNat)
    {value : UInt8} (outside : (⟨address, value⟩ : Write).into 0xA000 0xBFFF = false) :
    c.Reflects header image saved (⟨address, value⟩ :: history) := by
  refine ⟨h.rom, h.ramSize, h.registers.pass high, ?_⟩
  intro cell
  rw [History.byteOf, History.last_miss_part outside, ← History.byteOf, ← h.contents]

theorem Reflects.writeRam (h : c.Reflects header image saved history)
    (same : address.toNat = 0xA000 + offset.val) (value : UInt8) :
    (c.writeRam offset value).Reflects header image saved (⟨address, value⟩ :: history) := by
  have inside := offset.isLt
  have into : (⟨address, value⟩ : Write).into 0xA000 0xBFFF = true := by
    simp only [Write.into, Bool.and_eq_true, decide_eq_true_eq]
    omega
  have shown := h.cell? same
  have kept : (c.writeRam offset value).rom = c.rom ∧ (c.writeRam offset value).ramSize = c.ramSize ∧
      (c.writeRam offset value).mapper.Follows history header.controller := by
    simp only [Cartridge.writeRam]
    split
    next => exact ⟨rfl, rfl, h.registers⟩
    next => split <;> exact ⟨rfl, rfl, h.registers⟩
    next register _ => exact ⟨rfl, rfl, h.registers.setClockByte register value⟩
  obtain ⟨rom, ramSize, registers⟩ := kept
  refine ⟨rom.trans h.rom, ramSize.trans h.ramSize, registers.pass ?_, ?_⟩
  · change 0x8000 ≤ address.toNat
    omega
  intro cell
  -- The history asks which cell was shown before the write, and that is what the controller still shows.
  simp only [History.byteOf, History.last, into, Bool.true_and, ← shown]
  rw [← History.byteOf, ← h.contents]
  cases found : c.cell? offset with
  | none => simp only [writeRam_of_none found, reduceCtorEq, beq_iff_eq, if_false]
  | some chosen => simp only [contents_writeRam found, beq_iff_eq, Option.some.injEq, id]

end Cartridge

namespace Board

def Holds (header : Header) (image : ByteArray) (saved : Option ByteArray) (history : History) (b : Board) : Prop :=
  ∃ c, b.cartridge = some c ∧ c.Reflects header image saved history

theorem holds_law (header : Header) (image : ByteArray) (saved : Option ByteArray) :
    Law (Holds header image saved) where
  note := by
    rintro history b ⟨c, inserted, reflects⟩ ε _ event
    exact ⟨c, inserted, reflects⟩
  tick := by
    rintro history b ⟨c, inserted, reflects⟩ cycles
    exact ⟨c, (b.cartridge_tick cycles).trans inserted, reflects⟩
  press h _ := h
  release h _ := h
  clearFrame h := h
  write := by
    rintro history b ⟨c, inserted, reflects⟩ address value
    have outcome := b.cartridge_write address value
    unfold Holds
    generalize (b.write address value).cartridge = written at outcome ⊢
    cases outcome with
    | controller place same =>
      rw [inserted]
      exact ⟨_, rfl, reflects.writeRom same value⟩
    | ram offset same =>
      rw [inserted]
      exact ⟨_, rfl, reflects.writeRam same value⟩
    | other high outside => exact ⟨c, inserted, reflects.pass high outside⟩

end Board

end DotMatrix
