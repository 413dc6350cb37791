import DotMatrix.Proofs.Board.Soundness
import DotMatrix.Proofs.Bus.Traffic

/-!
What has been written to a board. A history lists the writes that have reached it. A law ties what the board
shows to its history; a law that every write keeps holds along every step, whatever program runs.
-/

namespace DotMatrix

structure Write where
  address : UInt16
  byte : UInt8
  deriving DecidableEq

def Write.into (first last : Nat) (write : Write) : Bool :=
  first ≤ write.address.toNat && write.address.toNat ≤ last

/-- Writes, the newest first. -/
abbrev History : Type := List Write

namespace History

/-- What the byte of the last write means that meets a condition, which may ask for what has been written before. -/
def last {α : Type} (meets : Write → History → Bool) (value : UInt8 → α) (initial : α) : History → α
  | [] => initial
  | write :: earlier => if meets write earlier then value write.byte else last meets value initial earlier

variable {α : Type} {history : History} {write : Write} {meets : Write → History → Bool} {value : UInt8 → α}
  {initial : α}

theorem last_hit (hit : meets write history = true) : last meets value initial (write :: history) = value write.byte :=
  if_pos hit

theorem last_miss (miss : meets write history = false) :
    last meets value initial (write :: history) = last meets value initial history :=
  if_neg (by rw [miss]; decide)

theorem last_keeps {P : α → Prop} (start : P initial)
    (each : ∀ write history, meets write history = true → P (value write.byte)) (history : History) :
    P (last meets value initial history) := by
  induction history with
  | nil => exact start
  | cons write history ih =>
    simp only [last]
    split
    next hit => exact each write history hit
    next => exact ih

end History

namespace Access

def extend (history : History) : Access → History
  | write address byte => ⟨address, byte⟩ :: history
  | _ => history

def record (seen : List Access) (history : History) : History := seen.foldl extend history

theorem record_append (first second : List Access) (history : History) :
    record (first ++ second) history = record second (record first history) := List.foldl_append

end Access

/-- What a board shows follows from its history, and keeps doing so whatever reaches the board but a new
cartridge. -/
structure Law (P : History → Board → Prop) : Prop where
  write : ∀ {history : History} {b : Board}, P history b → ∀ (address : UInt16) (byte : UInt8),
    P (⟨address, byte⟩ :: history) (b.write address byte)
  note : ∀ {history : History} {b : Board}, P history b → ∀ {ε : Type} [Event ε] (event : ε),
    P history (b.note event)
  tick : ∀ {history : History} {b : Board}, P history b → ∀ cycles : Nat, P history (b.tick cycles).2
  press : ∀ {history : History} {b : Board}, P history b → ∀ button : Button, P history (b.press button)
  release : ∀ {history : History} {b : Board}, P history b → ∀ button : Button, P history (b.release button)
  clearFrame : ∀ {history : History} {b : Board}, P history b → P history { b with lcd := b.lcd.clearFrame }

namespace Law

variable {P : History → Board → Prop} {history : History}

theorem invariant (law : Law P) (history : History) :
    Bus.Invariant fun w : Watched Board => P (Access.record w.seen history) w.bus where
  read _ _ holds := holds
  write address byte w holds := by
    change P (Access.record (w.seen ++ [.write address byte]) history) (w.bus.write address byte)
    rw [Access.record_append]
    exact law.write holds address byte
  note event w holds := by
    change P (Access.record (w.seen ++ [.note event]) history) (w.bus.note event)
    rw [Access.record_append]
    exact law.note holds event
  tick cycles _ w holds := by
    have kept := law.tick holds cycles
    generalize taken : w.bus.tick cycles = x at kept
    obtain ⟨result, after⟩ := x
    cases result with
    | ok =>
      rw [Watched.tick_ok taken]
      change P (Access.record (w.seen ++ [.batch cycles]) history) after
      rw [Access.record_append]
      exact kept
    | error fault =>
      -- A batch that is refused is not recorded, but the law has to hold of the board that it leaves.
      rw [Watched.tick_error taken]
      exact kept

theorem step (law : Law P) {m : Machine Board} (holds : P history m.bus) :
    P (Access.record m.traffic history) m.step.2.bus := by
  have kept := Machine.step_keeps (law.invariant history) (m := m.watch) holds
  rw [Machine.watch_step] at kept
  exact kept

end Law

namespace Board

inductive CartridgeOutcome (b : Board) (address : UInt16) (value : UInt8) : Option Cartridge → Prop where
  | controller (place : Fin 0x8000) (same : address.toNat = place.val) :
      CartridgeOutcome b address value (b.cartridge.map fun c => (c.writeRom place value).1)
  | ram (offset : Fin 0x2000) (same : address.toNat = 0xA000 + offset.val) :
      CartridgeOutcome b address value (b.cartridge.map fun c => c.writeRam offset value)
  | other (high : 0x8000 ≤ address.toNat)
      (outside : (⟨address, value⟩ : Write).into 0xA000 0xBFFF = false) :
      CartridgeOutcome b address value b.cartridge

theorem cartridge_writeRom (place : Fin 0x8000) (value : UInt8) (b : Board) :
    (b.writeRom place value).cartridge = b.cartridge.map fun c => (c.writeRom place value).1 := by
  simp only [writeRom]
  cases inserted : b.cartridge with
  | none => simp only [inserted, Option.map_none]
  | some c =>
    simp only [Option.map_some, noteAny]
    split <;> rfl

theorem cartridge_writeRegister (register : IoRegister) (value : UInt8) (b : Board) :
    (b.writeRegister register value).cartridge = b.cartridge := by
  cases register with
  | lcdControl =>
    obtain ⟨journal, same⟩ := b.writeLcdControl_frame value
    rw [writeRegister, same]
  | linkControl =>
    obtain ⟨requests, same⟩ := b.writeLinkControl_frame value
    rw [writeRegister, same]
  | dma =>
    obtain ⟨oam, journal, same⟩ := b.copySprites_eq value
    rw [writeRegister, same]
  | _ => rfl

theorem cartridge_write (address : UInt16) (value : UInt8) (b : Board) :
    b.CartridgeOutcome address value (b.write address value).cartridge := by
  have rom (place : Fin 0x8000) := @Region.ofAddress_eq_rom address place
  have ram (offset : Fin 0x2000) := @Region.ofAddress_eq_cartridgeRam address offset
  rw [write]
  by_cases low : address.toNat < 0x8000
  · rw [(rom ⟨address.toNat, low⟩).mpr rfl, writeRegion, cartridge_writeRom]
    exact .controller _ rfl
  · by_cases inside : 0xA000 ≤ address.toNat ∧ address.toNat ≤ 0xBFFF
    · have same : address.toNat = 0xA000 + (address.toNat - 0xA000) := by omega
      rw [(ram ⟨address.toNat - 0xA000, by omega⟩).mpr same]
      exact .ram _ same
    · have outside : (⟨address, value⟩ : Write).into 0xA000 0xBFFF = false := by
        simpa only [Write.into, ← Bool.decide_and, decide_eq_false_iff_not] using inside
      have kept : (b.writeRegion (Region.ofAddress address) value).cartridge = b.cartridge := by
        generalize Region.ofAddress address = region at rom ram
        cases region with
        | rom place => exact absurd place.isLt ((rom place).mp rfl ▸ low)
        | cartridgeRam offset =>
          have := (ram offset).mp rfl
          omega
        | register register => exact cartridge_writeRegister register value b
        | _ => rfl
      rw [kept]
      exact .other (Nat.le_of_not_lt low) outside

end Board
end DotMatrix
