import DotMatrix.Lcd.Basic

/-!
One line of the picture: the background, the window over it, and the sprites over both. Sprites are
painted from the last to the first, so that the first ends up on top.
-/

namespace DotMatrix.Lcd

def gray : Nat → UInt8
  | 0 => 0xFF
  | 1 => 0xAA
  | 2 => 0x55
  | _ => 0x00

def shade (palette color : UInt8) : UInt8 := gray ((palette >>> (color * 2)).toNat % 4)

/-- The color of a pixel: one bit from each of the two planes of a tile row. -/
def colorOf (planes : UInt8 × UInt8) (bit : UInt8) : UInt8 :=
  (planes.2 >>> bit &&& 1) <<< 1 ||| (planes.1 >>> bit &&& 1)

def tileByte (lcd : Lcd) (offset : Nat) : UInt8 :=
  lcd.vram.get ⟨offset % 0x2000, Nat.mod_lt _ (by decide)⟩

def planesAt (lcd : Lcd) (offset : Nat) : UInt8 × UInt8 :=
  (lcd.tileByte offset, lcd.tileByte (offset + 1))

/-- Where a background tile lies. Bit 4 of the control numbers tiles from zero; otherwise numbers are
signed and tile zero lies in the middle. -/
def backgroundTile (control tile : UInt8) : Nat :=
  if Byte.has control 0x10 || 128 ≤ tile.toNat then tile.toNat * 16 else 0x1000 + tile.toNat * 16

def mapColor (lcd : Lcd) (map : Nat) (x y : UInt8) : UInt8 :=
  let tile := lcd.tileByte (map + y.toNat / 8 * 32 + x.toNat / 8)
  colorOf (lcd.planesAt (backgroundTile lcd.control tile + y.toNat % 8 * 2)) (7 - x % 8)

def mapStart (upper : Bool) : Nat := if upper then 0x1C00 else 0x1800

def backgroundColor (lcd : Lcd) (x y : UInt8) : UInt8 :=
  lcd.mapColor (mapStart (Byte.has lcd.control 0x08)) (x + lcd.scrollX) (y + lcd.scrollY)

def windowColor (lcd : Lcd) (x y : UInt8) : UInt8 :=
  lcd.mapColor (mapStart (Byte.has lcd.control 0x40)) (x + 7 - lcd.windowX) (y - lcd.windowY)

/-- The window covers everything to the right of and below its corner. -/
def windowCovers (lcd : Lcd) (x y : UInt8) : Bool :=
  Byte.has lcd.control 0x20 && lcd.windowY ≤ y && lcd.windowX ≤ 166
    && lcd.windowX.toNat ≤ x.toNat + 7

def drawsLower (lcd : Lcd) (x y : UInt8) : Bool :=
  lcd.windowCovers x y || Byte.has lcd.control 0x01

/-- The color below the sprites; where nothing is drawn it counts as zero. -/
def lowerColor (lcd : Lcd) (x y : UInt8) : UInt8 :=
  if lcd.windowCovers x y then lcd.windowColor x y
  else if Byte.has lcd.control 0x01 then lcd.backgroundColor x y
  else 0

structure Sprite where
  y : UInt8
  x : UInt8
  tile : UInt8
  attributes : UInt8

def sprite (lcd : Lcd) (i : Fin 40) : Sprite where
  y := lcd.oam.get ⟨4 * i.val, by omega⟩
  x := lcd.oam.get ⟨4 * i.val + 1, by omega⟩
  tile := lcd.oam.get ⟨4 * i.val + 2, by omega⟩
  attributes := lcd.oam.get ⟨4 * i.val + 3, by omega⟩

def spriteHeight (lcd : Lcd) : Nat := if Byte.has lcd.control 0x04 then 16 else 8

namespace Sprite

/-- The row of the tile that lies on a line. A sprite at 16 starts on the first line. -/
def row? (sprite : Sprite) (height : Nat) (y : UInt8) : Option Nat :=
  let row := y.toNat + 16 - sprite.y.toNat
  if sprite.y.toNat ≤ y.toNat + 16 ∧ row < height then
    some (if Byte.has sprite.attributes 0x40 then height - 1 - row else row)
  else none

/-- A tall sprite starts at a tile of even number. -/
def tileStart (sprite : Sprite) (height : Nat) : Nat :=
  (if height = 16 then sprite.tile &&& 0xFE else sprite.tile).toNat * 16

def bitOf (sprite : Sprite) (column : Fin 8) : UInt8 :=
  if Byte.has sprite.attributes 0x20 then UInt8.ofNat column.val else 7 - UInt8.ofNat column.val

def behind (sprite : Sprite) : Bool := Byte.has sprite.attributes 0x80

end Sprite

def spritePalette (lcd : Lcd) (sprite : Sprite) : UInt8 :=
  if Byte.has sprite.attributes 0x10 then lcd.spritePalette1 else lcd.spritePalette0

/-- Paints one column of a sprite. A sprite at 8 starts at the left edge, and color zero is clear. -/
def paintColumn (sprite : Sprite) (planes : UInt8 × UInt8) (palette : UInt8)
    (lower : Block screenWidth) (column : Fin 8) (grays : Block screenWidth) : Block screenWidth :=
  let place := sprite.x.toNat + column.val
  if h : 8 ≤ place ∧ place < 168 then
    let x : Fin screenWidth := ⟨place - 8, by simp only [screenWidth]; omega⟩
    let color := colorOf planes (sprite.bitOf column)
    if color = 0 || sprite.behind && lower.get x != 0 then grays
    else grays.set x (shade palette color)
  else grays

def paintSprite (lcd : Lcd) (y : UInt8) (lower : Block screenWidth) (i : Fin 40)
    (grays : Block screenWidth) : Block screenWidth :=
  let sprite := lcd.sprite i
  match sprite.row? lcd.spriteHeight y with
  | none => grays
  | some row =>
    let planes := lcd.planesAt (sprite.tileStart lcd.spriteHeight + row * 2)
    Fin.foldl 8 (fun grays column => paintColumn sprite planes (lcd.spritePalette sprite) lower column grays)
      grays

def scanline (lcd : Lcd) (y : UInt8) : Block screenWidth :=
  let lower := Block.ofFn fun x : Fin screenWidth => lcd.lowerColor (UInt8.ofNat x.val) y
  let grays := Block.ofFn fun x : Fin screenWidth =>
    if lcd.drawsLower (UInt8.ofNat x.val) y then shade lcd.backgroundPalette (lower.get x) else white
  if Byte.has lcd.control 0x02 then Fin.foldr 40 (lcd.paintSprite y lower) grays else grays

def drawLine (lcd : Lcd) (y : Fin screenHeight) : Lcd :=
  let grays := lcd.scanline (UInt8.ofNat y.val)
  { lcd with picture := lcd.picture.overlay (y.val * screenWidth) grays (Picture.row_fits y) }

end DotMatrix.Lcd
