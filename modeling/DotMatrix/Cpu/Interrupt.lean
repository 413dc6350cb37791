import DotMatrix.Word

/-!
The five interrupt sources. They are numbered in the order of service, and a request byte has one
bit for each of them.
-/

namespace DotMatrix

inductive Interrupt where
  | vblank | stat | timer | serial | joypad
  deriving DecidableEq, Repr

namespace Interrupt

def number : Interrupt → Nat
  | vblank => 0
  | stat => 1
  | timer => 2
  | serial => 3
  | joypad => 4

def mask : Interrupt → UInt8
  | vblank => 0x01
  | stat => 0x02
  | timer => 0x04
  | serial => 0x08
  | joypad => 0x10

def name : Interrupt → String
  | vblank => "VBLANK"
  | stat => "STAT"
  | timer => "TIMER"
  | serial => "SERIAL"
  | joypad => "JOYPAD"

def byPriority : List Interrupt := [vblank, stat, timer, serial, joypad]

def vector (source : Interrupt) : UInt16 := 0x0040 + 8 * UInt16.ofNat source.number

def dispatchCycles : Nat := 20

def requestAddress : UInt16 := 0xFF0F

def enableAddress : UInt16 := 0xFFFF

end Interrupt

/-- A set of sources; the upper three bits are zero. -/
structure InterruptSet where
  bits : UInt8
  deriving DecidableEq, Repr

namespace InterruptSet

def ofByte (byte : UInt8) : InterruptSet := ⟨byte &&& 0x1F⟩

def isEmpty (set : InterruptSet) : Bool := set.bits == 0

def contains (set : InterruptSet) (source : Interrupt) : Bool := Byte.has set.bits source.mask

def sources (set : InterruptSet) : List Interrupt := Interrupt.byPriority.filter set.contains

def first? (set : InterruptSet) : Option Interrupt := Interrupt.byPriority.find? set.contains

/-- The vector of the first member; the empty set has the one after the last line of the byte. -/
def vector (set : InterruptSet) : UInt16 :=
  match set.first? with
  | some source => source.vector
  | none => 0x0080

end InterruptSet

end DotMatrix
