import DotMatrix.Cpu.Bus
import DotMatrix.Memory

/-!
A bus that is nothing but memory: every address holds the byte last written to it. It lists the
writes it receives.
-/

namespace DotMatrix

structure FlatMemory where
  cells : Block 0x10000
  writes : Array (UInt16 × UInt8) := #[]
  journal : Journal := {}

namespace FlatMemory

def cell (address : UInt16) : Fin 0x10000 := ⟨address.toNat, address.toNat_lt⟩

def blank : FlatMemory := { cells := Block.filled _ 0 }

@[inline] def get (memory : FlatMemory) (address : UInt16) : UInt8 := memory.cells.get (cell address)

/-- Changes a cell without listing a write. -/
@[inline] def put (memory : FlatMemory) (address : UInt16) (byte : UInt8) : FlatMemory :=
  { memory with cells := memory.cells.set (cell address) byte }

def putAll (memory : FlatMemory) (address : UInt16) (bytes : List UInt8) : FlatMemory :=
  match bytes with
  | [] => memory
  | byte :: rest => (memory.put address byte).putAll (address + 1) rest

instance : Bus FlatMemory where
  read address memory := (memory.get address, memory)
  write address byte memory :=
    { memory with
      cells := memory.cells.set (cell address) byte
      writes := memory.writes.push (address, byte) }
  note event memory := { memory with journal := memory.journal.record event }

theorem get_put (memory : FlatMemory) (x y : UInt16) (byte : UInt8) :
    (memory.put x byte).get y = if x = y then byte else memory.get y := by
  simp only [put, get, Block.get_set, cell, Fin.mk.injEq, UInt16.toNat_inj]

end FlatMemory

end DotMatrix
