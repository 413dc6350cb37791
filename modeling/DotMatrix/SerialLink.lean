import DotMatrix.Word

/-!
The serial link with nothing at the other end. A transfer with the internal clock ends at once: its
byte is kept, and ones are received in its place.
-/

namespace DotMatrix

structure SerialLink where
  data : UInt8 := 0x00
  control : UInt8 := 0x7E
  /-- The bytes sent so far, the oldest first. -/
  sent : Array UInt8 := #[]

namespace SerialLink

def writeData (value : UInt8) (link : SerialLink) : SerialLink := { link with data := value }

def startsTransfer (value : UInt8) : Bool := value &&& 0x81 == 0x81

/-- The start bit is cleared when the transfer ends. -/
def writeControl (value : UInt8) (link : SerialLink) : SerialLink :=
  if startsTransfer value then
    { data := 0xFF, control := value &&& 0x7F, sent := link.sent.push link.data }
  else { link with control := value }

end SerialLink

end DotMatrix
