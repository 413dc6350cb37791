import DotMatrix.Memory
import DotMatrix.Word

/-!
The audio registers. Nothing is played; switching the power off clears the registers of the channels
and locks them, and the wave memory is never locked.
-/

namespace DotMatrix

structure Audio where
  /-- FF10 to FF25. -/
  channels : Block 0x16
  /-- FF26; bit 7 is the power switch. -/
  status : UInt8
  /-- FF27 to FF2F. -/
  unused : Block 0x09
  /-- FF30 to FF3F. -/
  wave : Block 0x10

inductive AudioRegister where
  | channel (index : Fin 0x16)
  | status
  | unused (index : Fin 0x09)
  | wave (index : Fin 0x10)
  deriving DecidableEq, Repr

def AudioRegister.ofOffset (offset : Fin 0x30) : AudioRegister :=
  if h : offset.val < 0x16 then .channel ⟨offset.val, h⟩
  else if h' : offset.val < 0x20 then
    if h'' : offset.val = 0x16 then .status else .unused ⟨offset.val - 0x17, by omega⟩
  else .wave ⟨offset.val - 0x20, by omega⟩

namespace Audio

def postBootChannels : Block 0x16 where
  bytes := ⟨#[0x80, 0xBF, 0xF3, 0xFF, 0xBF, 0x00, 0x3F, 0x00, 0xFF, 0xBF, 0x7F,
    0xFF, 0x9F, 0xFF, 0xBF, 0x00, 0xFF, 0x00, 0x00, 0xBF, 0x77, 0xF3]⟩
  size_eq := rfl

def postBoot : Audio := ⟨postBootChannels, 0xF1, Block.filled _ 0, Block.filled _ 0⟩

def powered (audio : Audio) : Bool := Byte.has audio.status 0x80

def read (audio : Audio) : AudioRegister → UInt8
  | .channel index => audio.channels.get index
  | .status => audio.status
  | .unused index => audio.unused.get index
  | .wave index => audio.wave.get index

/-- Only the power switch of the status can be written. -/
def writeStatus (value : UInt8) (audio : Audio) : Audio :=
  if Byte.has value 0x80 then { audio with status := audio.status ||| 0x80 }
  else if audio.powered then { audio with status := 0, channels := Block.filled _ 0 }
  else audio

def write (register : AudioRegister) (value : UInt8) (audio : Audio) : Audio :=
  match register with
  | .status => audio.writeStatus value
  | .wave index => { audio with wave := audio.wave.set index value }
  | .channel index =>
    if audio.powered then { audio with channels := audio.channels.set index value } else audio
  | .unused index =>
    if audio.powered then { audio with unused := audio.unused.set index value } else audio

end Audio

end DotMatrix
