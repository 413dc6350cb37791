import DotMatrix.Cartridge.Header
import DotMatrix.Journal

/-!
The bank controllers. A write to the ROM area sets one of four control registers, one for each 8 KiB
of it; the registers decide which ROM bank the upper half of the area shows and what the RAM area
shows.
-/

namespace DotMatrix

inductive BankingMode where
  | rom | ram
  deriving DecidableEq, Repr

def BankingMode.name : BankingMode → String
  | rom => "Rom"
  | ram => "Ram"

structure Mbc1 where
  /-- The lower five bits of the ROM bank, never zero. -/
  lowBits : UInt8 := 1
  /-- The upper two bits of the ROM bank. -/
  highBits : UInt8 := 0
  ramBank : UInt8 := 0
  ramEnabled : Bool := false
  mode : BankingMode := .rom

def Mbc1.romBank (state : Mbc1) : UInt8 := state.highBits <<< 5 ||| state.lowBits

inductive Window where
  | bank (number : UInt8)
  | clock (register : Fin 5)
  deriving DecidableEq, Repr

structure Mbc3 where
  romBank : UInt8 := 1
  window : Window := .bank 0
  ramEnabled : Bool := false
  /-- The clock stands still: its registers hold what is stored in them. -/
  clock : Block 5 := Block.filled 5 0
  /-- The last value of the latch register. -/
  latch : UInt8 := 0xFF

inductive Mapper where
  | plain
  | mbc1 (state : Mbc1)
  | mbc3 (state : Mbc3)

inductive MapperEvent where
  | mbc1RomBank (bank : UInt8)
  | mbc1UpperBits (bits : UInt8) (mode : BankingMode)
  | mbc3RomBank (bank : UInt8)
  | clockLatched (clock : Block 5)

def clockText (clock : Block 5) : String :=
  "[" ++ ", ".intercalate ((List.finRange 5).map fun i => Text.hexByte (clock.get i)) ++ "]"

instance : Event MapperEvent where
  level
    | .clockLatched _ => .trace
    | _ => .debug
  text
    | .mbc1RomBank bank => s!"GB MBC1: ROM bank -> {bank.toNat}"
    | .mbc1UpperBits bits mode => s!"GB MBC1: upper bank bits -> {bits.toNat} ({mode.name} mode)"
    | .mbc3RomBank bank => s!"GB MBC3: ROM bank -> {bank.toNat}"
    | .clockLatched clock => s!"GB MBC3: RTC latched {clockText clock}"

/-- Bank zero cannot be chosen and becomes bank one. -/
def nonzeroBank (bank : UInt8) : UInt8 := if bank = 0 then 1 else bank

def opensRam (value : UInt8) : Bool := value &&& 0x0F == 0x0A

namespace Mbc1

def write (state : Mbc1) (register : Fin 4) (value : UInt8) : Mbc1 × Option MapperEvent :=
  match register with
  | 0 => ({ state with ramEnabled := opensRam value }, none)
  | 1 =>
    let state := { state with lowBits := nonzeroBank (value &&& 0x1F) }
    (state, some (.mbc1RomBank state.romBank))
  | 2 =>
    let bits := value &&& 0x03
    match state.mode with
    | .ram => ({ state with ramBank := bits }, some (.mbc1UpperBits bits .ram))
    | .rom => ({ state with highBits := bits }, some (.mbc1UpperBits bits .rom))
  | 3 => ({ state with mode := if value = 0 then .rom else .ram }, none)

end Mbc1

namespace Mbc3

/-- The selectors 0 to 3 choose a bank and 8 to 12 a clock register; others choose nothing. -/
def windowOf? (selector : UInt8) : Option Window :=
  if selector ≤ 0x03 then some (.bank selector)
  else if h : 8 ≤ selector.toNat ∧ selector.toNat < 13 then
    some (.clock ⟨selector.toNat - 8, by omega⟩)
  else none

def write (state : Mbc3) (register : Fin 4) (value : UInt8) : Mbc3 × Option MapperEvent :=
  match register with
  | 0 => ({ state with ramEnabled := opensRam value }, none)
  | 1 =>
    let bank := nonzeroBank (value &&& 0x7F)
    ({ state with romBank := bank }, some (.mbc3RomBank bank))
  | 2 => ({ state with window := (windowOf? value).getD state.window }, none)
  | 3 =>
    let latched := state.latch == 0 && value == 1
    ({ state with latch := value }, if latched then some (.clockLatched state.clock) else none)

end Mbc3

inductive RamTarget where
  | nothing
  | bank (number : Nat)
  | clock (register : Fin 5)
  deriving DecidableEq, Repr

namespace Mapper

def initial : Controller → Mapper
  | .plain => plain
  | .mbc1 => mbc1 {}
  | .mbc3 => mbc3 {}

def write (mapper : Mapper) (register : Fin 4) (value : UInt8) : Mapper × Option MapperEvent :=
  match mapper with
  | plain => (plain, none)
  | mbc1 state =>
    let (state, event) := state.write register value
    (mbc1 state, event)
  | mbc3 state =>
    let (state, event) := state.write register value
    (mbc3 state, event)

def romBank : Mapper → Nat
  | plain => 1
  | mbc1 state => state.romBank.toNat
  | mbc3 state => state.romBank.toNat

def ramTarget : Mapper → RamTarget
  | plain => .bank 0
  | mbc1 state => if state.ramEnabled then .bank state.ramBank.toNat else .nothing
  | mbc3 state =>
    if state.ramEnabled then
      match state.window with
      | .bank number => .bank number.toNat
      | .clock register => .clock register
    else .nothing

def clockByte (mapper : Mapper) (register : Fin 5) : UInt8 :=
  match mapper with
  | mbc3 state => state.clock.get register
  | _ => 0

def setClockByte (mapper : Mapper) (register : Fin 5) (value : UInt8) : Mapper :=
  match mapper with
  | mbc3 state => mbc3 { state with clock := state.clock.set register value }
  | other => other

end Mapper

end DotMatrix
