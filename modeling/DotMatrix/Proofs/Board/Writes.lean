import DotMatrix.Proofs.Board.SpriteCopy
import DotMatrix.Proofs.Lcd.Pace

/-!
What a write can change. Each device has few addresses that reach what it counts by, and a write to
any other address leaves that alone.
-/

namespace DotMatrix.Board

variable {b : Board}

theorem copySprites_eq (page : UInt8) (b : Board) :
    ∃ oam journal, b.copySprites page =
      { b with lcd := { b.lcd with oam }, dmaPage := page, journal } :=
  ⟨_, _, copySprites_snapshot page b⟩

theorem noteAny_frame {ε : Type} [Event ε] (event : Option ε) (b : Board) :
    ∃ journal, b.noteAny event = { b with journal } := by
  cases event <;> exact ⟨_, rfl⟩

theorem writeRom_frame (place : Fin 0x8000) (value : UInt8) (b : Board) :
    ∃ cartridge journal, b.writeRom place value = { b with cartridge, journal } := by
  simp only [writeRom]
  split
  next => exact ⟨_, _, rfl⟩
  next cartridge _ =>
    obtain ⟨journal, same⟩ := noteAny_frame (cartridge.writeRom place value).2
      { b with cartridge := some (cartridge.writeRom place value).1 }
    exact ⟨_, journal, same⟩

theorem writeLcdControl_frame (value : UInt8) (b : Board) :
    ∃ journal, b.writeLcdControl value = { b with lcd := (b.lcd.writeControl value).1, journal } :=
  noteAny_frame (b.lcd.writeControl value).2 { b with lcd := (b.lcd.writeControl value).1 }

theorem writeLinkControl_frame (value : UInt8) (b : Board) :
    ∃ requests, b.writeLinkControl value = { b with link := b.link.writeControl value, requests } := by
  simp only [writeLinkControl]
  split <;> exact ⟨_, rfl⟩

structure SameCount (b after : Board) : Prop where
  pace : after.lcd.pace = b.lcd.pace
  timer : after.timer = b.timer
  requests : after.requests = b.requests

/-- The writes that reach what the board counts by, and all others. -/
inductive WriteOutcome (b : Board) (value : UInt8) : UInt16 → Board → Prop where
  | lcdControl {after : Board} (lcd : after.lcd = (b.lcd.writeControl value).1)
      (timer : after.timer = b.timer) (requests : after.requests = b.requests) :
      WriteOutcome b value 0xFF40 after
  | lcdStatus : WriteOutcome b value 0xFF41 { b with lcd := b.lcd.writeStatus value }
  | line : WriteOutcome b value 0xFF44 { b with lcd := { b.lcd with line := 0 } }
  | divider : WriteOutcome b value 0xFF04 { b with timer := b.timer.clearDivider }
  | counter : WriteOutcome b value 0xFF05 { b with timer := { b.timer with counter := value } }
  | modulo : WriteOutcome b value 0xFF06 { b with timer := { b.timer with modulo := value } }
  | timerControl : WriteOutcome b value 0xFF07 { b with timer := b.timer.writeControl value }
  | requests : WriteOutcome b value 0xFF0F { b with requests := value &&& 0x1F }
  | linkControl : WriteOutcome b value 0xFF02 (b.writeLinkControl value)
  | other {address : UInt16} {after : Board} (same : b.SameCount after) :
      WriteOutcome b value address after

theorem write_outcome (address : UInt16) (value : UInt8) (b : Board) :
    b.WriteOutcome value address (b.write address value) := by
  unfold write
  generalize found : Region.ofAddress address = region
  cases region with
  | rom place =>
    obtain ⟨cartridge, journal, same⟩ := b.writeRom_frame place value
    rw [writeRegion, same]
    exact .other ⟨rfl, rfl, rfl⟩
  | register register =>
    have place := Region.address_eq found
    cases register with
    | lcdControl =>
      obtain rfl : address = 0xFF40 := place
      obtain ⟨journal, same⟩ := b.writeLcdControl_frame value
      rw [writeRegion, writeRegister, same]
      exact .lcdControl rfl rfl rfl
    | lcdStatus =>
      obtain rfl : address = 0xFF41 := place
      exact .lcdStatus
    | line =>
      obtain rfl : address = 0xFF44 := place
      exact .line
    | divider =>
      obtain rfl : address = 0xFF04 := place
      exact .divider
    | counter =>
      obtain rfl : address = 0xFF05 := place
      exact .counter
    | modulo =>
      obtain rfl : address = 0xFF06 := place
      exact .modulo
    | timerControl =>
      obtain rfl : address = 0xFF07 := place
      exact .timerControl
    | requests =>
      obtain rfl : address = 0xFF0F := place
      exact .requests
    | linkControl =>
      obtain rfl : address = 0xFF02 := place
      exact .linkControl
    | dma =>
      obtain ⟨oam, journal, same⟩ := b.copySprites_eq value
      rw [writeRegion, writeRegister, same]
      exact .other ⟨rfl, rfl, rfl⟩
    | _ => exact .other ⟨rfl, rfl, rfl⟩
  | _ => exact .other ⟨rfl, rfl, rfl⟩

theorem enabled_timer_write {address : UInt16} (elsewhere : address ≠ 0xFF07) (value : UInt8) (b : Board) :
    (b.write address value).timer.enabled = b.timer.enabled := by
  have outcome := b.write_outcome address value
  generalize b.write address value = after at outcome ⊢
  cases outcome with
  | timerControl => exact absurd rfl elsewhere
  | lcdControl _ timer => rw [timer]
  | linkControl => simp only [writeLinkControl]; split <;> rfl
  | other same => rw [same.timer]
  | _ => rfl

end DotMatrix.Board
