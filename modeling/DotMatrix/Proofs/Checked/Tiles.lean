import DotMatrix.Lcd.Scanline
import DotMatrix.Proofs.Checked.Word

/-!
Tiles with checks. The tile memory is reached by addresses of 16 bits from 8000 on, and a color never
shifts its palette by more bits than that has.
-/

namespace DotMatrix.Checked

def shade (palette color : UInt8) : Option UInt8 := do
  let places ← fits 8 (color.toNat * 2)
  let bits ← shiftRight palette places
  let index ← slot 4 (bits.toNat % 4)
  return Lcd.gray index.val

def colorOf (planes : UInt8 × UInt8) (bit : Nat) : Option UInt8 := do
  let high ← shiftRight planes.2 bit
  let low ← shiftRight planes.1 bit
  return (high &&& 1) <<< 1 ||| (low &&& 1)

def tileByte (lcd : Lcd) (address : Nat) : Option UInt8 := do
  let place ← slot 0x2000 (address % 0x2000)
  return lcd.vram.get place

def planesAt (lcd : Lcd) (address : Nat) : Option (UInt8 × UInt8) := do
  let low ← tileByte lcd address
  let next ← fits 16 (address + 1)
  let high ← tileByte lcd next
  return (low, high)

/-- The numbers of the tiles around 9000 have a sign, and their addresses wrap around. -/
def backgroundTile (control tile : UInt8) : Option Nat :=
  if Byte.has control 0x10 then do
    let offset ← fits 16 (tile.toNat * 16)
    fits 16 (0x8000 + offset)
  else do
    let offset ← fitsSigned 16 (tile.toInt8.toInt * 16)
    return ((0x9000 + offset) % 0x10000).toNat

def mapStart (upper : Bool) : Nat := if upper then 0x9C00 else 0x9800

def mapColor (lcd : Lcd) (map : Nat) (x y : UInt8) : Option UInt8 := do
  let row ← fits 16 (y.toNat / 8 * 32)
  let start ← fits 16 (map + row)
  let address ← fits 16 (start + x.toNat / 8)
  let number ← tileByte lcd address
  let tile ← backgroundTile lcd.control number
  let offset ← fits 16 (y.toNat % 8 * 2)
  let address ← fits 16 (tile + offset)
  let planes ← planesAt lcd address
  let bit ← minus 7 (x.toNat % 8)
  colorOf planes bit

def sprite (lcd : Lcd) (i : Nat) : Option Lcd.Sprite := do
  let start ← fits 32 (i * 4)
  let y ← slot 0xA0 start
  let x ← slot 0xA0 (start + 1)
  let tile ← slot 0xA0 (start + 2)
  let attributes ← slot 0xA0 (start + 3)
  return ⟨lcd.oam.get y, lcd.oam.get x, lcd.oam.get tile, lcd.oam.get attributes⟩

def row? (sprite : Lcd.Sprite) (height : Nat) (y : UInt8) : Option (Option Nat) := do
  let top ← fitsSigned 16 (sprite.y.toNat - 16)
  let row ← fitsSigned 16 (y.toNat - top)
  if row < 0 ∨ height ≤ row then return none
  else if Byte.has sprite.attributes 0x40 then
    let last ← fitsSigned 16 (height - 1)
    let row ← fitsSigned 16 (last - row)
    return some row.toNat
  else return some row.toNat

def spriteAddress (sprite : Lcd.Sprite) (height row : Nat) : Option Nat := do
  let tile := if height = 16 then sprite.tile &&& 0xFE else sprite.tile
  let offset ← fits 16 (tile.toNat * 16)
  let start ← fits 16 (0x8000 + offset)
  let inner ← fits 16 (row * 2)
  fits 16 (start + inner)

theorem and_one (byte : UInt8) : byte &&& 1 = 0 ∨ byte &&& 1 = 1 := by
  have bit : (byte &&& 1).toNat = byte.toNat % 2 := by
    rw [UInt8.toNat_and]
    exact Nat.and_one_is_mod byte.toNat
  rcases Nat.mod_two_eq_zero_or_one byte.toNat with even | odd
  · exact .inl (UInt8.toNat.inj (bit.trans even))
  · exact .inr (UInt8.toNat.inj (bit.trans odd))

theorem colorOf_le (planes : UInt8 × UInt8) (bit : UInt8) : (Lcd.colorOf planes bit).toNat ≤ 3 := by
  unfold Lcd.colorOf
  rcases and_one (planes.2 >>> bit) with high | high <;>
    rcases and_one (planes.1 >>> bit) with low | low <;>
    rw [high, low] <;> decide

theorem shade_eq (palette : UInt8) {color : UInt8} (known : color.toNat ≤ 3) :
    shade palette color = some (Lcd.shade palette color) := by
  have places : UInt8.ofNat (color.toNat * 2) = color * 2 := by
    rw [UInt8.ofNat_mul, UInt8.ofNat_toNat]
    rfl
  rw [shade, fits_eq (by omega), Option.bind_eq_bind, Option.bind_some, shiftRight_eq (by omega),
    Option.bind_eq_bind, Option.bind_some, slot_eq (Nat.mod_lt _ (by decide)), places]
  rfl

theorem colorOf_eq (planes : UInt8 × UInt8) {bit : Nat} (inside : bit < 8) :
    colorOf planes bit = some (Lcd.colorOf planes (UInt8.ofNat bit)) := by
  rw [colorOf, shiftRight_eq inside, shiftRight_eq inside]
  rfl

theorem tileByte_eq (lcd : Lcd) (offset : Nat) :
    tileByte lcd (0x8000 + offset) = some (lcd.tileByte offset) := by
  have wrapped : (0x8000 + offset) % 0x2000 = offset % 0x2000 := by omega
  rw [tileByte, wrapped, slot_eq (Nat.mod_lt _ (by decide))]
  rfl

theorem planesAt_eq (lcd : Lcd) {offset : Nat} (inside : offset < 0x7FFF) :
    planesAt lcd (0x8000 + offset) = some (lcd.planesAt offset) := by
  rw [planesAt, tileByte_eq, Option.bind_eq_bind, Option.bind_some, fits_eq (by omega),
    Option.bind_eq_bind, Option.bind_some, Nat.add_assoc, tileByte_eq]
  rfl

theorem backgroundTile_le (control tile : UInt8) : Lcd.backgroundTile control tile ≤ 0x17F0 := by
  have small := tile.toNat_lt
  unfold Lcd.backgroundTile
  split
  next => omega
  next low =>
    simp only [Bool.or_eq_true, decide_eq_true_eq, not_or] at low
    omega

theorem toInt_toInt8 (byte : UInt8) :
    byte.toInt8.toInt = if byte.toNat < 128 then (byte.toNat : Int) else byte.toNat - 256 := by
  have value : byte.toInt8.toInt = if 2 * byte.toNat < 2 ^ 8 then (byte.toNat : Int) else byte.toNat - 2 ^ 8 :=
    BitVec.toInt_eq_toNat_cond byte.toBitVec
  rw [value]
  split <;> split <;> omega

theorem backgroundTile_eq (control tile : UInt8) :
    backgroundTile control tile = some (0x8000 + Lcd.backgroundTile control tile) := by
  have small := tile.toNat_lt
  unfold backgroundTile Lcd.backgroundTile
  cases unsigned : Byte.has control 0x10 with
  | true =>
    rw [if_pos rfl, fits_eq (by omega), Option.bind_eq_bind, Option.bind_some, fits_eq (by omega)]
    rfl
  | false =>
    have signed := toInt_toInt8 tile
    rw [if_neg (by decide)]
    by_cases low : tile.toNat < 128
    · rw [if_pos low] at signed
      rw [signed, fitsSigned_eq (by omega) (by omega), if_neg (by simp only [Bool.false_or, decide_eq_true_eq]; omega)]
      simp only [Option.bind_eq_bind, Option.bind_some, Option.pure_def, Option.some.injEq]
      omega
    · rw [if_neg low] at signed
      rw [signed, fitsSigned_eq (by omega) (by omega), if_pos (by simp only [Bool.false_or, decide_eq_true_eq]; omega)]
      simp only [Option.bind_eq_bind, Option.bind_some, Option.pure_def, Option.some.injEq]
      omega

theorem mapColor_eq (lcd : Lcd) (upper : Bool) (x y : UInt8) :
    mapColor lcd (mapStart upper) x y = some (lcd.mapColor (Lcd.mapStart upper) x y) := by
  have column := x.toNat_lt
  have line := y.toNat_lt
  have start : mapStart upper = 0x8000 + Lcd.mapStart upper := by cases upper <;> rfl
  have low : Lcd.mapStart upper ≤ 0x1C00 := by cases upper <;> decide
  have bit : UInt8.ofNat (7 - x.toNat % 8) = 7 - x % 8 := by
    have rest : UInt8.ofNat (x.toNat % 8) = x % 8 := by
      apply UInt8.toNat.inj
      rw [UInt8.toNat_ofNat', UInt8.toNat_mod, show (8 : UInt8).toNat = 8 from rfl]
      omega
    rw [UInt8.ofNat_sub (by omega), rest]
    rfl
  have place : 0x8000 + Lcd.mapStart upper + y.toNat / 8 * 32 + x.toNat / 8 =
      0x8000 + (Lcd.mapStart upper + y.toNat / 8 * 32 + x.toNat / 8) := by
    omega
  simp only [mapColor, start, Option.bind_eq_bind]
  rw [fits_eq (by omega), Option.bind_some, fits_eq (by omega), Option.bind_some, fits_eq (by omega),
    Option.bind_some, place, tileByte_eq, Option.bind_some, backgroundTile_eq, Option.bind_some]
  have tile := backgroundTile_le lcd.control
    (lcd.tileByte (Lcd.mapStart upper + y.toNat / 8 * 32 + x.toNat / 8))
  rw [fits_eq (by omega), Option.bind_some, fits_eq (by omega), Option.bind_some, Nat.add_assoc,
    planesAt_eq lcd (by omega), Option.bind_some, minus_eq (by omega), Option.bind_some,
    colorOf_eq _ (by omega), bit]
  rfl

theorem sprite_eq (lcd : Lcd) (i : Fin 40) : sprite lcd i.val = some (lcd.sprite i) := by
  have inside := i.isLt
  simp only [sprite, Option.bind_eq_bind, Nat.mul_comm i.val 4]
  rw [fits_eq (by omega), Option.bind_some, slot_eq (by omega), Option.bind_some, slot_eq (by omega),
    Option.bind_some, slot_eq (by omega), Option.bind_some, slot_eq (by omega), Option.bind_some]
  rfl

theorem row?_eq (sprite : Lcd.Sprite) {height : Nat} (tall : height ≤ 16) (y : UInt8) :
    row? sprite height y = some (sprite.row? height y) := by
  have line := y.toNat_lt
  have corner := sprite.y.toNat_lt
  simp only [row?, Lcd.Sprite.row?, Option.bind_eq_bind]
  rw [fitsSigned_eq (by omega) (by omega), Option.bind_some, fitsSigned_eq (by omega) (by omega),
    Option.bind_some]
  by_cases shown : sprite.y.toNat ≤ y.toNat + 16 ∧ y.toNat + 16 - sprite.y.toNat < height
  · rw [if_neg (by omega), if_pos shown]
    split
    next flipped =>
      rw [fitsSigned_eq (by omega) (by omega), Option.bind_some, fitsSigned_eq (by omega) (by omega),
        Option.bind_some, Option.pure_def]
      congr 2
      omega
    next =>
      rw [Option.pure_def]
      congr 2
      omega
  · rw [if_pos (by omega), if_neg shown]
    rfl

theorem spriteAddress_eq (sprite : Lcd.Sprite) (height : Nat) {row : Nat} (inside : row < 16) :
    spriteAddress sprite height row = some (0x8000 + (sprite.tileStart height + row * 2)) := by
  have small := (if height = 16 then sprite.tile &&& 0xFE else sprite.tile).toNat_lt
  simp only [spriteAddress, Option.bind_eq_bind]
  rw [fits_eq (by omega), Option.bind_some, fits_eq (by omega), Option.bind_some, fits_eq (by omega),
    Option.bind_some, fits_eq (by omega), Nat.add_assoc]
  rfl

theorem tileStart_lt (sprite : Lcd.Sprite) (height : Nat) : sprite.tileStart height < 0x1000 := by
  have small := (if height = 16 then sprite.tile &&& 0xFE else sprite.tile).toNat_lt
  unfold Lcd.Sprite.tileStart
  omega

theorem row_lt {sprite : Lcd.Sprite} {height row : Nat} {y : UInt8}
    (shown : sprite.row? height y = some row) : row < height := by
  simp only [Lcd.Sprite.row?] at shown
  split at shown
  next on =>
    cases shown
    split <;> omega
  next => cases shown

theorem spriteHeight_le (lcd : Lcd) : lcd.spriteHeight ≤ 16 := by
  unfold Lcd.spriteHeight
  split <;> decide

end DotMatrix.Checked
