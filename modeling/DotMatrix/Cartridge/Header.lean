import DotMatrix.Memory
import DotMatrix.Text.Hexadecimal

/-!
The header of a cartridge image: it names the controller and declares the sizes of both memories.
-/

namespace DotMatrix

inductive Controller where
  | plain | mbc1 | mbc3
  deriving DecidableEq, Repr

def Controller.name : Controller → String
  | plain => "None"
  | mbc1 => "Mbc1"
  | mbc3 => "Mbc3"

def Controller.ofCode? (code : UInt8) : Option Controller :=
  if code = 0x00 ∨ code = 0x08 ∨ code = 0x09 then some .plain
  else if 0x01 ≤ code ∧ code ≤ 0x03 then some .mbc1
  else if 0x0F ≤ code ∧ code ≤ 0x13 then some .mbc3
  else none

inductive Model where
  | dmg | cgb
  deriving DecidableEq, Repr

def Model.name : Model → String
  | dmg => "Dmg"
  | cgb => "Cgb"

structure RomSize where
  banks : Nat
  banks_pos : 0 < banks

namespace RomSize

def bytes (size : RomSize) : Nat := size.banks * 0x4000

def ofCode? (code : UInt8) : Option RomSize :=
  if code ≤ 0x08 then some ⟨2 <<< code.toNat, Nat.shiftLeft_eq 2 _ ▸ Nat.mul_pos (by decide) (Nat.two_pow_pos _)⟩
  else if code = 0x52 then some ⟨72, by decide⟩
  else if code = 0x53 then some ⟨80, by decide⟩
  else if code = 0x54 then some ⟨96, by decide⟩
  else none

end RomSize

def ramSizeOfCode? (code : UInt8) : Option Nat :=
  match code.toNat with
  | 0 => some 0
  | 1 => some 0x800
  | 2 => some 0x2000
  | 3 => some 0x8000
  | 4 => some 0x20000
  | 5 => some 0x10000
  | _ => none

structure Header where
  title : String
  controller : Controller
  romSize : RomSize
  ramSize : Nat
  /-- The cartridge knows the color machine. -/
  color : Bool

inductive HeaderError where
  | tooShort (size : Nat)
  | cartridgeType (code : UInt8)
  | romSize (code : UInt8)
  | ramSize (code : UInt8)
  deriving DecidableEq, Repr

def HeaderError.message : HeaderError → String
  | tooShort size => s!"ROM image is {size} bytes, too short to hold a cartridge header"
  | cartridgeType code => s!"unsupported cartridge type 0x{Text.hexByte code}"
  | romSize code => s!"unsupported ROM size code 0x{Text.hexByte code}"
  | ramSize code => s!"unsupported RAM size code 0x{Text.hexByte code}"

namespace Header

def model (header : Header) : Model := if header.color then .cgb else .dmg

def reach : Nat := 0x150

def isPrintable (byte : UInt8) : Bool := 0x20 ≤ byte && byte ≤ 0x7E

/-- The printable characters up to the first zero, without the spaces at the end. -/
def titleOf (bytes : List UInt8) : String :=
  let characters := ((bytes.takeWhile (· != 0)).filter isPrintable).map fun b => Char.ofNat b.toNat
  String.ofList (characters.reverse.dropWhile (· == ' ')).reverse

def titleBytes (page : Block reach) : List UInt8 :=
  (List.finRange 15).map fun i => page.get ⟨0x134 + i.val, by simp only [reach]; omega⟩

/-- The first of the three codes that is unknown decides the error. -/
def ofPage (page : Block reach) : Except HeaderError Header :=
  let typeCode := page.get ⟨0x147, by decide⟩
  let romCode := page.get ⟨0x148, by decide⟩
  let ramCode := page.get ⟨0x149, by decide⟩
  match Controller.ofCode? typeCode with
  | none => .error (.cartridgeType typeCode)
  | some controller =>
    match RomSize.ofCode? romCode with
    | none => .error (.romSize romCode)
    | some romSize =>
      match ramSizeOfCode? ramCode with
      | none => .error (.ramSize ramCode)
      | some ramSize =>
        .ok { title := titleOf (titleBytes page)
              controller, romSize, ramSize
              color := page.get ⟨0x143, by decide⟩ &&& 0x80 != 0 }

def parse (image : ByteArray) : Except HeaderError Header :=
  if image.size < reach then .error (.tooShort image.size) else ofPage (Block.ofBytes reach image)

end Header

end DotMatrix
