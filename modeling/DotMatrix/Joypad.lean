import DotMatrix.Word

/-!
The joypad. Its eight buttons are read in two groups of four, and a held button reads as zero in
every group that is selected. What the register shows is kept, and worked out again whenever the
selection or a button changes.
-/

namespace DotMatrix

inductive Button where
  | right | left | up | down | a | b | select | start
  deriving DecidableEq, Repr

/-- The directions have the lower four bits, the others the upper four, each in the order of the lines. -/
def Button.mask : Button → UInt8
  | right => 0x01
  | left => 0x02
  | up => 0x04
  | down => 0x08
  | a => 0x10
  | b => 0x20
  | select => 0x40
  | start => 0x80

structure Joypad where
  /-- Bit 4 selects the directions and bit 5 the other buttons, both by a zero. -/
  selection : UInt8 := 0x00
  held : UInt8 := 0x00
  /-- What the register shows: at first both groups, with no button held. -/
  shown : UInt8 := 0xCF

namespace Joypad

/-- The four lines of a group, all ones while it is not selected. -/
def groupLines (selected : Bool) (held : UInt8) : UInt8 :=
  if selected then ~~~held &&& 0x0F else 0x0F

def lines (pad : Joypad) : UInt8 :=
  groupLines (!Byte.has pad.selection 0x10) pad.held
    &&& groupLines (!Byte.has pad.selection 0x20) (pad.held >>> 4)

def state (pad : Joypad) : UInt8 := 0xC0 ||| (pad.selection &&& 0x30) ||| pad.lines

def refresh (pad : Joypad) : Joypad := { pad with shown := pad.state }

def press (button : Button) (pad : Joypad) : Joypad :=
  { pad with held := pad.held ||| button.mask }.refresh

def release (button : Button) (pad : Joypad) : Joypad :=
  { pad with held := pad.held &&& ~~~button.mask }.refresh

def isHeld (pad : Joypad) (button : Button) : Bool := Byte.has pad.held button.mask

/-- Only the bits that select can be written. -/
def writeSelection (value : UInt8) (pad : Joypad) : Joypad :=
  { pad with selection := value &&& 0x30 }.refresh

end Joypad

end DotMatrix
