import DotMatrix.Proofs.Byte
import DotMatrix.Proofs.Checked.Scanline
import DotMatrix.Proofs.Lcd.Rows

/-!
The gray of a single pixel as a rule, said with addresses and bits and without painting: which color lies
below the sprites, which entries of the sprite memory show at the pixel, and that the lowest of them wins.
The painter of a line gives every pixel the gray of the rule.
-/

namespace DotMatrix

namespace Lcd

variable {lcd : Lcd}

def byteAt (lcd : Lcd) (address : Nat) : Nat :=
  if h : 0x8000 ≤ address ∧ address < 0xA000 then (lcd.vram.get ⟨address - 0x8000, by omega⟩).toNat else 0

/-- The color of a point of the tile at an address. A row of the tile has two bytes with one bit of each color, the
leftmost column in bit 7. -/
def tileColor (lcd : Lcd) (address row column : Nat) : Nat :=
  2 * ((lcd.byteAt (address + 2 * row + 1)).testBit (7 - column)).toNat
    + ((lcd.byteAt (address + 2 * row)).testBit (7 - column)).toNat

/-- Where a tile of the background or window lies: from 8000 on by its number, or around 9000 by its number with a
sign. -/
def tileAddress (control number : Nat) : Nat :=
  if control.testBit 4 then 0x8000 + 16 * number
  else if number < 128 then 0x9000 + 16 * number
  else 0x9000 - 16 * (256 - number)

def planeColor (lcd : Lcd) (map x y : Nat) : Nat :=
  lcd.tileColor (tileAddress lcd.control.toNat (lcd.byteAt (map + 32 * (y / 8) + x / 8))) (y % 8) (x % 8)

/-- The gray that a palette gives to a color: two bits for each color, and darker as they grow. -/
def paletteGray (palette : UInt8) (color : Nat) : UInt8 :=
  UInt8.ofNat (255 - 85 * (palette.toNat / 4 ^ color % 4))

/-- The color below the sprites and its gray: of the window, or else of the background, or else plain white. -/
def below (lcd : Lcd) (x y : Nat) : Nat × UInt8 :=
  let control := lcd.control.toNat
  if control.testBit 5 ∧ lcd.windowY.toNat ≤ y ∧ lcd.windowX.toNat ≤ 166 ∧ lcd.windowX.toNat ≤ x + 7 then
    let map := if control.testBit 6 then 0x9C00 else 0x9800
    let color := lcd.planeColor map (x + 7 - lcd.windowX.toNat) (y - lcd.windowY.toNat)
    (color, paletteGray lcd.backgroundPalette color)
  else if control.testBit 0 then
    let map := if control.testBit 3 then 0x9C00 else 0x9800
    let color := lcd.planeColor map ((x + lcd.scrollX.toNat) % 256) ((y + lcd.scrollY.toNat) % 256)
    (color, paletteGray lcd.backgroundPalette color)
  else (0, 0xFF)

/-- A byte of an entry of the sprite memory: its line, its column, its tile, and its attributes. -/
def entry (lcd : Lcd) (i : Fin 40) (part : Fin 4) : Nat := (lcd.oam.get ⟨4 * i.val + part.val, by omega⟩).toNat

/-- The color that an entry has at a point, which is zero where it does not cover the point. -/
def entryColor (lcd : Lcd) (i : Fin 40) (x y : Nat) : Nat :=
  let tall := lcd.control.toNat.testBit 2
  let height := if tall then 16 else 8
  let row := y + 16 - lcd.entry i 0
  let column := x + 8 - lcd.entry i 1
  let tile := if tall then lcd.entry i 2 / 2 * 2 else lcd.entry i 2
  let attributes := lcd.entry i 3
  if lcd.entry i 0 ≤ y + 16 ∧ row < height ∧ lcd.entry i 1 ≤ x + 8 ∧ column < 8 then
    lcd.tileColor (0x8000 + 16 * tile) (if attributes.testBit 6 then height - 1 - row else row)
      (if attributes.testBit 5 then 7 - column else column)
  else 0

/-- An entry shows where it has a color, unless it lies behind the color below. -/
def shows (lcd : Lcd) (x y : Nat) (i : Fin 40) : Bool :=
  lcd.entryColor i x y ≠ 0 ∧ ¬((lcd.entry i 3).testBit 7 ∧ (lcd.below x y).1 ≠ 0)

def entryGray (lcd : Lcd) (x y : Nat) (i : Fin 40) : UInt8 :=
  paletteGray (if (lcd.entry i 3).testBit 4 then lcd.spritePalette1 else lcd.spritePalette0) (lcd.entryColor i x y)

/-- The lowest entry that shows gives the gray, and the color below if none does. -/
def pixelAt (lcd : Lcd) (x y : Nat) : UInt8 :=
  if lcd.control.toNat.testBit 1 then
    match (List.finRange 40).find? (lcd.shows x y) with
    | some i => lcd.entryGray x y i
    | none => (lcd.below x y).2
  else (lcd.below x y).2

/-! ### Tiles -/

theorem toNat_tileByte (lcd : Lcd) {offset : Nat} (inside : offset < 0x2000) :
    (lcd.tileByte offset).toNat = lcd.byteAt (0x8000 + offset) := by
  have place : 0x8000 + offset - 0x8000 = offset % 0x2000 := by omega
  rw [byteAt, dif_pos (by omega), tileByte]
  simp only [place]

theorem toNat_colorOf (planes : UInt8 × UInt8) (n : Fin 8) :
    (colorOf planes (UInt8.ofNat n.val)).toNat =
      2 * (planes.2.toNat.testBit n.val).toNat + (planes.1.toNat.testBit n.val).toNat := by
  rw [colorOf, Byte.shiftRight_and_one, Byte.shiftRight_and_one]
  cases planes.2.toNat.testBit n.val <;> cases planes.1.toNat.testBit n.val <;> rfl

theorem toNat_color_planesAt (lcd : Lcd) {start row : Nat} (inside : start + 2 * row + 1 < 0x2000) (column : Fin 8) :
    (colorOf (lcd.planesAt (start + row * 2)) (7 - UInt8.ofNat column.val)).toNat =
      lcd.tileColor (0x8000 + start) row column.val := by
  have small := column.isLt
  have bit : 7 - UInt8.ofNat column.val = UInt8.ofNat (7 - column.val) := by
    rw [UInt8.ofNat_sub (by omega)]
    rfl
  rw [bit, toNat_colorOf _ ⟨7 - column.val, by omega⟩, planesAt, toNat_tileByte lcd (by omega),
    toNat_tileByte lcd (by omega), tileColor, Nat.add_assoc 0x8000, Nat.mul_comm row, ← Nat.add_assoc 0x8000 _ 1]

theorem backgroundTile_eq_tileAddress (control tile : UInt8) :
    0x8000 + backgroundTile control tile = tileAddress control.toNat tile.toNat := by
  have small := tile.toNat_lt
  have mode : Byte.has control 0x10 = control.toNat.testBit 4 := Byte.has_eq_testBit 4 control
  rw [backgroundTile, tileAddress, mode]
  cases control.toNat.testBit 4 with
  | true =>
    simp only [Bool.true_or, if_true]
    omega
  | false =>
    simp only [Bool.false_or, decide_eq_true_eq, Bool.false_eq_true, if_false]
    split <;> split <;> omega

theorem toNat_mapColor (lcd : Lcd) (upper : Bool) (x y : UInt8) :
    (lcd.mapColor (mapStart upper) x y).toNat =
      lcd.planeColor (if upper then 0x9C00 else 0x9800) x.toNat y.toNat := by
  have column := x.toNat_lt
  have line := y.toNat_lt
  have start : (if upper then 0x9C00 else 0x9800) = 0x8000 + mapStart upper := by cases upper <;> rfl
  have low : mapStart upper ≤ 0x1C00 := by cases upper <;> decide
  have place : 0x8000 + mapStart upper + 32 * (y.toNat / 8) + x.toNat / 8 =
      0x8000 + (mapStart upper + y.toNat / 8 * 32 + x.toNat / 8) := by omega
  have bit : x % 8 = UInt8.ofNat (x.toNat % 8) := by
    apply UInt8.toNat.inj
    rw [UInt8.toNat_ofNat', UInt8.toNat_mod, show (8 : UInt8).toNat = 8 from rfl]
    omega
  have tile := Checked.backgroundTile_le lcd.control (lcd.tileByte (mapStart upper + y.toNat / 8 * 32 + x.toNat / 8))
  rw [mapColor, planeColor, start, place, ← toNat_tileByte lcd (by omega), ← backgroundTile_eq_tileAddress, bit]
  exact toNat_color_planesAt lcd (by omega) ⟨x.toNat % 8, Nat.mod_lt _ (by decide)⟩

theorem shade_eq_paletteGray (palette : UInt8) {color : UInt8} (known : color.toNat ≤ 3) :
    shade palette color = paletteGray palette color.toNat := by
  have all : ∀ palette : UInt8, ∀ n : Fin 4,
      shade palette (UInt8.ofNat n.val) = UInt8.ofNat (255 - 85 * (palette.toNat / 4 ^ n.val % 4)) := by
    decide +kernel
  have here := all palette ⟨color.toNat, by omega⟩
  rwa [UInt8.ofNat_toNat] at here

/-! ### Below the sprites -/

theorem toNat_column (x : Fin screenWidth) : (UInt8.ofNat x.val).toNat = x.val := by
  have inside := x.isLt
  simp only [screenWidth] at inside
  rw [UInt8.toNat_ofNat']
  omega

theorem lowerColor_le (lcd : Lcd) (x y : UInt8) : (lcd.lowerColor x y).toNat ≤ 3 := by
  unfold lowerColor
  split
  · exact Checked.mapColor_le lcd _ _ _
  · split
    · exact Checked.mapColor_le lcd _ _ _
    · decide

theorem windowCovers_iff_testBit (lcd : Lcd) (x : Fin screenWidth) (y : Fin screenHeight) :
    lcd.windowCovers (UInt8.ofNat x.val) (UInt8.ofNat y.val) = true ↔
      lcd.control.toNat.testBit 5 = true ∧ lcd.windowY.toNat ≤ y.val ∧ lcd.windowX.toNat ≤ 166 ∧
        lcd.windowX.toNat ≤ x.val + 7 := by
  have mode : Byte.has lcd.control 0x20 = lcd.control.toNat.testBit 5 := Byte.has_eq_testBit 5 lcd.control
  rw [Checked.windowCovers_iff, mode, Checked.toNat_line]
  constructor
  · rintro ⟨on, shown, left⟩
    exact ⟨on, by omega, by omega, by omega⟩
  · rintro ⟨on, top, edge, left⟩
    exact ⟨on, by omega, by omega⟩

theorem toNat_windowColor {x : Fin screenWidth} {y : Fin screenHeight} (top : lcd.windowY.toNat ≤ y.val)
    (left : lcd.windowX.toNat ≤ x.val + 7) :
    (lcd.windowColor (UInt8.ofNat x.val) (UInt8.ofNat y.val)).toNat =
      lcd.planeColor (if lcd.control.toNat.testBit 6 then 0x9C00 else 0x9800) (x.val + 7 - lcd.windowX.toNat)
        (y.val - lcd.windowY.toNat) := by
  have column := x.isLt
  simp only [screenWidth] at column
  have mode : Byte.has lcd.control 0x40 = lcd.control.toNat.testBit 6 := Byte.has_eq_testBit 6 lcd.control
  have shifted : (UInt8.ofNat x.val + 7).toNat = x.val + 7 := by
    rw [UInt8.toNat_add, toNat_column, show (7 : UInt8).toNat = 7 from rfl]
    omega
  have across : (UInt8.ofNat x.val + 7 - lcd.windowX).toNat = x.val + 7 - lcd.windowX.toNat := by
    rw [UInt8.toNat_sub_of_le _ _ (UInt8.le_iff_toNat_le.mpr (by omega)), shifted]
  have down : (UInt8.ofNat y.val - lcd.windowY).toNat = y.val - lcd.windowY.toNat := by
    rw [UInt8.toNat_sub_of_le _ _ (UInt8.le_iff_toNat_le.mpr (by rw [Checked.toNat_line]; exact top)),
      Checked.toNat_line]
  rw [windowColor, toNat_mapColor, mode, across, down]

theorem toNat_backgroundColor (lcd : Lcd) (x : Fin screenWidth) (y : Fin screenHeight) :
    (lcd.backgroundColor (UInt8.ofNat x.val) (UInt8.ofNat y.val)).toNat =
      lcd.planeColor (if lcd.control.toNat.testBit 3 then 0x9C00 else 0x9800) ((x.val + lcd.scrollX.toNat) % 256)
        ((y.val + lcd.scrollY.toNat) % 256) := by
  have mode : Byte.has lcd.control 0x08 = lcd.control.toNat.testBit 3 := Byte.has_eq_testBit 3 lcd.control
  rw [backgroundColor, toNat_mapColor, mode, UInt8.toNat_add, UInt8.toNat_add, toNat_column, Checked.toNat_line]

/-- The layers below the sprites have the color and the gray of the rule. -/
theorem below_eq (lcd : Lcd) (x : Fin screenWidth) (y : Fin screenHeight) :
    lcd.below x.val y.val =
      ((lcd.lowerColor (UInt8.ofNat x.val) (UInt8.ofNat y.val)).toNat,
        if lcd.drawsLower (UInt8.ofNat x.val) (UInt8.ofNat y.val) then
          shade lcd.backgroundPalette (lcd.lowerColor (UInt8.ofNat x.val) (UInt8.ofNat y.val))
        else white) := by
  have known := lcd.lowerColor_le (UInt8.ofNat x.val) (UInt8.ofNat y.val)
  have covers := windowCovers_iff_testBit lcd x y
  have mode : Byte.has lcd.control 0x01 = lcd.control.toNat.testBit 0 := Byte.has_eq_testBit 0 lcd.control
  rw [shade_eq_paletteGray _ known, below, drawsLower, lowerColor, mode]
  cases shown : lcd.windowCovers (UInt8.ofNat x.val) (UInt8.ofNat y.val) with
  | true =>
    have covered := covers.mp shown
    rw [if_pos covered, if_pos rfl, toNat_windowColor covered.2.1 covered.2.2.2]
    rfl
  | false =>
    rw [if_neg fun covered => Bool.noConfusion (shown.symm.trans (covers.mpr covered))]
    cases lcd.control.toNat.testBit 0 with
    | true => simp only [Bool.false_eq_true, if_false, if_true, Bool.false_or, toNat_backgroundColor]
    | false => rfl

/-! ### Sprites -/

section Painters

variable {n k : Nat} {paints : Fin k → Bool} {color : Fin k → UInt8} {paint : Fin k → Block n → Block n}
  {x : Fin n}

/-- When painters paint from the last to the first, the first that paints at a place is seen there. -/
theorem get_foldr_paint (each : ∀ i m, (paint i m).get x = if paints i then color i else m.get x) (m : Block n) :
    (Fin.foldr k paint m).get x = (((List.finRange k).find? paints).map color).getD (m.get x) := by
  induction k with
  | zero => rfl
  | succ k ih =>
    rw [Fin.foldr_succ, each, List.finRange_succ]
    cases here : paints 0 with
    | true =>
      rw [List.find?_cons_of_pos here]
      rfl
    | false =>
      rw [List.find?_cons_of_neg (Bool.eq_false_iff.mp here), List.find?_map, Option.map_map]
      exact ih fun i => each i.succ

/-- Painters that all paint the same at a place may come in any order. -/
theorem get_foldl_paint {gray : UInt8} (each : ∀ i m, (paint i m).get x = if paints i then color i else m.get x)
    (alike : ∀ i, paints i = true → color i = gray) (m : Block n) :
    (Fin.foldl k (fun m i => paint i m) m).get x = if (List.finRange k).any paints then gray else m.get x := by
  induction k generalizing m with
  | zero => rfl
  | succ k ih =>
    rw [Fin.foldl_succ, ih (fun i => each i.succ) (fun i => alike i.succ), each, List.finRange_succ, List.any_cons,
      List.any_map]
    cases here : paints 0 with
    | true =>
      rw [alike 0 here]
      exact ite_self _
    | false => rfl

end Painters

def columnPaints (sprite : Sprite) (planes : UInt8 × UInt8) (lower : Block screenWidth) (x : Fin screenWidth)
    (column : Fin 8) : Bool :=
  sprite.x.toNat + column.val = x.val + 8 ∧ colorOf planes (sprite.bitOf column) ≠ 0 ∧
    ¬(sprite.behind = true ∧ lower.get x ≠ 0)

theorem get_paintColumn (sprite : Sprite) (planes : UInt8 × UInt8) (palette : UInt8) (lower : Block screenWidth)
    (x : Fin screenWidth) (column : Fin 8) (grays : Block screenWidth) :
    (paintColumn sprite planes palette lower column grays).get x =
      if columnPaints sprite planes lower x column then shade palette (colorOf planes (sprite.bitOf column))
      else grays.get x := by
  have inside := x.isLt
  simp only [screenWidth] at inside
  simp only [paintColumn, columnPaints, decide_eq_true_eq]
  by_cases on : 8 ≤ sprite.x.toNat + column.val ∧ sprite.x.toNat + column.val < 168
  · rw [dif_pos on]
    by_cases here : sprite.x.toNat + column.val = x.val + 8
    · have place : (⟨sprite.x.toNat + column.val - 8, by simp only [screenWidth]; omega⟩ : Fin screenWidth) = x :=
        Fin.ext (by simp only; omega)
      rw [place]
      by_cases hidden : colorOf planes (sprite.bitOf column) = 0 ∨ sprite.behind = true ∧ lower.get x ≠ 0
      · rw [if_pos (by simpa using hidden), if_neg (by tauto)]
      · rw [if_neg (by simpa using hidden), if_pos (by tauto), Block.get_set_self]
    · have place : (⟨sprite.x.toNat + column.val - 8, by simp only [screenWidth]; omega⟩ : Fin screenWidth) ≠ x :=
        fun same => here (by have := congrArg Fin.val same; simp only at this; omega)
      rw [if_neg (show ¬(sprite.x.toNat + column.val = x.val + 8 ∧ _) from fun painted => here painted.1)]
      split
      · rfl
      · exact Block.get_set_of_ne grays place _
  · rw [dif_neg on, if_neg (fun painted => on (by omega))]

theorem spriteHeight_eq (lcd : Lcd) : lcd.spriteHeight = if lcd.control.toNat.testBit 2 then 16 else 8 := by
  have mode : Byte.has lcd.control 0x04 = lcd.control.toNat.testBit 2 := Byte.has_eq_testBit 2 lcd.control
  rw [spriteHeight, mode]

theorem tileStart_eq (lcd : Lcd) (i : Fin 40) :
    (lcd.sprite i).tileStart lcd.spriteHeight =
      16 * (if lcd.control.toNat.testBit 2 then lcd.entry i 2 / 2 * 2 else lcd.entry i 2) := by
  rw [Sprite.tileStart, spriteHeight_eq, Nat.mul_comm]
  cases lcd.control.toNat.testBit 2 with
  | true => exact congrArg (16 * ·) (Byte.toNat_even _)
  | false => rfl

theorem bitOf_eq (sprite : Sprite) (column : Fin 8) :
    ∃ shown : Fin 8, sprite.bitOf column = 7 - UInt8.ofNat shown.val ∧
      shown.val = if sprite.attributes.toNat.testBit 5 then 7 - column.val else column.val := by
  have mode : Byte.has sprite.attributes 0x20 = sprite.attributes.toNat.testBit 5 :=
    Byte.has_eq_testBit 5 sprite.attributes
  rw [Sprite.bitOf, mode]
  cases sprite.attributes.toNat.testBit 5 with
  | true =>
    refine ⟨⟨7 - column.val, by omega⟩, ?_, rfl⟩
    revert column
    decide
  | false => exact ⟨column, rfl, rfl⟩

theorem row?_eq_some {i : Fin 40} {y : Fin screenHeight} {row : Nat}
    (shown : (lcd.sprite i).row? lcd.spriteHeight (UInt8.ofNat y.val) = some row) :
    lcd.entry i 0 ≤ y.val + 16 ∧ y.val + 16 - lcd.entry i 0 < lcd.spriteHeight ∧
    row = if (lcd.entry i 3).testBit 6 then lcd.spriteHeight - 1 - (y.val + 16 - lcd.entry i 0)
      else y.val + 16 - lcd.entry i 0 := by
  have mode : Byte.has (lcd.sprite i).attributes 0x40 = (lcd.sprite i).attributes.toNat.testBit 6 :=
    Byte.has_eq_testBit 6 (lcd.sprite i).attributes
  simp only [Sprite.row?, Checked.toNat_line, mode] at shown
  split at shown
  next on => exact ⟨on.1, on.2, (Option.some.inj shown).symm⟩
  next => cases shown

theorem row?_eq_none {i : Fin 40} {y : Fin screenHeight}
    (hidden : (lcd.sprite i).row? lcd.spriteHeight (UInt8.ofNat y.val) = none) :
    ¬(lcd.entry i 0 ≤ y.val + 16 ∧ y.val + 16 - lcd.entry i 0 < lcd.spriteHeight) := by
  simp only [Sprite.row?, Checked.toNat_line] at hidden
  split at hidden
  next => cases hidden
  next off => exact off

theorem entryColor_eq (lcd : Lcd) (i : Fin 40) (x y : Nat) :
    lcd.entryColor i x y =
      if lcd.entry i 0 ≤ y + 16 ∧ y + 16 - lcd.entry i 0 < lcd.spriteHeight ∧ lcd.entry i 1 ≤ x + 8 ∧
          x + 8 - lcd.entry i 1 < 8 then
        lcd.tileColor (0x8000 + (lcd.sprite i).tileStart lcd.spriteHeight)
          (if (lcd.entry i 3).testBit 6 then lcd.spriteHeight - 1 - (y + 16 - lcd.entry i 0) else y + 16 - lcd.entry i 0)
          (if (lcd.entry i 3).testBit 5 then 7 - (x + 8 - lcd.entry i 1) else x + 8 - lcd.entry i 1)
      else 0 := by
  rw [tileStart_eq, spriteHeight_eq]
  rfl

theorem toNat_columnColor {i : Fin 40} {x : Nat} {y : Fin screenHeight} {row : Nat} {column : Fin 8}
    (shown : (lcd.sprite i).row? lcd.spriteHeight (UInt8.ofNat y.val) = some row)
    (across : lcd.entry i 1 + column.val = x + 8) :
    (colorOf (lcd.planesAt ((lcd.sprite i).tileStart lcd.spriteHeight + row * 2)) ((lcd.sprite i).bitOf column)).toNat =
      lcd.entryColor i x y.val := by
  have small := column.isLt
  have low := Checked.row_lt shown
  have tall := Checked.spriteHeight_le lcd
  have early := Checked.tileStart_lt (lcd.sprite i) lcd.spriteHeight
  have place : x + 8 - lcd.entry i 1 = column.val := by omega
  obtain ⟨bit, same, flipped⟩ := bitOf_eq (lcd.sprite i) column
  obtain ⟨top, inside, turned⟩ := row?_eq_some shown
  rw [entryColor_eq, if_pos ⟨top, inside, by omega, by omega⟩, place, ← turned, same,
    toNat_color_planesAt lcd (by omega), flipped]
  rfl

theorem entryGray_eq {i : Fin 40} {x y : Nat} {color : UInt8} (known : color.toNat ≤ 3)
    (same : color.toNat = lcd.entryColor i x y) :
    lcd.entryGray x y i = shade (lcd.spritePalette (lcd.sprite i)) color := by
  have mode : Byte.has (lcd.sprite i).attributes 0x10 = (lcd.sprite i).attributes.toNat.testBit 4 :=
    Byte.has_eq_testBit 4 (lcd.sprite i).attributes
  rw [shade_eq_paletteGray _ known, same, spritePalette, mode]
  rfl

def rowPlanes (lcd : Lcd) (i : Fin 40) (row : Nat) : UInt8 × UInt8 :=
  lcd.planesAt ((lcd.sprite i).tileStart lcd.spriteHeight + row * 2)

section Columns

variable {lower : Block screenWidth} {x : Fin screenWidth} {y : Fin screenHeight} {i : Fin 40} {row : Nat}

theorem columnPaints_iff (same : (lower.get x).toNat = (lcd.below x.val y.val).1)
    (shown : (lcd.sprite i).row? lcd.spriteHeight (UInt8.ofNat y.val) = some row) (column : Fin 8) :
    columnPaints (lcd.sprite i) (lcd.rowPlanes i row) lower x column = true ↔
      lcd.entry i 1 + column.val = x.val + 8 ∧ lcd.shows x.val y.val i = true := by
  have behind : (lcd.sprite i).behind = (lcd.entry i 3).testBit 7 := Byte.has_eq_testBit 7 (lcd.sprite i).attributes
  have clear : lower.get x = 0 ↔ (lcd.below x.val y.val).1 = 0 := by
    rw [← same, ← UInt8.toNat_inj]
    rfl
  simp only [columnPaints, shows, decide_eq_true_eq, behind, ne_eq, clear]
  apply and_congr_right
  intro across
  have color := toNat_columnColor shown across
  rw [← color, ← UInt8.toNat_inj]
  rfl

theorem exists_column (shows : lcd.shows x.val y.val i = true) :
    ∃ column : Fin 8, lcd.entry i 1 + column.val = x.val + 8 := by
  have colored : lcd.entryColor i x.val y.val ≠ 0 := (of_decide_eq_true shows).1
  rw [entryColor_eq] at colored
  have covers := Classical.not_not.mp fun off => colored (if_neg off)
  exact ⟨⟨x.val + 8 - lcd.entry i 1, covers.2.2.2⟩, by simp only; omega⟩

theorem any_columnPaints (same : (lower.get x).toNat = (lcd.below x.val y.val).1)
    (shown : (lcd.sprite i).row? lcd.spriteHeight (UInt8.ofNat y.val) = some row) :
    (List.finRange 8).any (columnPaints (lcd.sprite i) (lcd.rowPlanes i row) lower x) = lcd.shows x.val y.val i := by
  rw [Bool.eq_iff_iff, List.any_eq_true]
  constructor
  · rintro ⟨column, _, painted⟩
    exact ((columnPaints_iff same shown column).mp painted).2
  · intro shows
    obtain ⟨column, across⟩ := exists_column shows
    exact ⟨column, List.mem_finRange column, (columnPaints_iff same shown column).mpr ⟨across, shows⟩⟩

/-- A sprite changes a place of the line exactly if its entry shows there. -/
theorem get_paintSprite (same : (lower.get x).toNat = (lcd.below x.val y.val).1) (i : Fin 40)
    (grays : Block screenWidth) :
    (lcd.paintSprite (UInt8.ofNat y.val) lower i grays).get x =
      if lcd.shows x.val y.val i then lcd.entryGray x.val y.val i else grays.get x := by
  rw [paintSprite]
  cases shown : (lcd.sprite i).row? lcd.spriteHeight (UInt8.ofNat y.val) with
  | none =>
    have off := row?_eq_none shown
    have colorless : lcd.entryColor i x.val y.val = 0 := by
      rw [entryColor_eq, if_neg fun covers => off ⟨covers.1, covers.2.1⟩]
    rw [shows, colorless]
    rfl
  | some row =>
    rw [← any_columnPaints same shown]
    apply get_foldl_paint (get_paintColumn _ _ _ lower x)
    intro column painted
    have across := ((columnPaints_iff same shown column).mp painted).1
    exact (entryGray_eq (Checked.colorOf_le _ _) (toNat_columnColor shown across)).symm

end Columns

/-! ### The whole line -/

/-- Every pixel of a line gets the gray of the rule. -/
theorem get_scanline (lcd : Lcd) (x : Fin screenWidth) (y : Fin screenHeight) :
    (lcd.scanline (UInt8.ofNat y.val)).get x = lcd.pixelAt x.val y.val := by
  have mode : Byte.has lcd.control 0x02 = lcd.control.toNat.testBit 1 := Byte.has_eq_testBit 1 lcd.control
  have below := below_eq lcd x y
  have lower : ((Checked.lowerLine lcd (UInt8.ofNat y.val)).get x).toNat = (lcd.below x.val y.val).1 := by
    rw [below, Checked.lowerLine, Block.get_ofFn]
  have grays : (Checked.lowerGrays lcd (UInt8.ofNat y.val)).get x = (lcd.below x.val y.val).2 := by
    rw [below, Checked.lowerGrays, Block.get_ofFn, Checked.lowerLine, Block.get_ofFn]
  change (if Byte.has lcd.control 0x02 then
      Fin.foldr 40 (lcd.paintSprite (UInt8.ofNat y.val) (Checked.lowerLine lcd (UInt8.ofNat y.val)))
        (Checked.lowerGrays lcd (UInt8.ofNat y.val))
    else Checked.lowerGrays lcd (UInt8.ofNat y.val)).get x = _
  rw [pixelAt, mode]
  cases lcd.control.toNat.testBit 1 with
  | true =>
    rw [if_pos rfl, if_pos rfl, get_foldr_paint (get_paintSprite lower), grays]
    cases (List.finRange 40).find? (lcd.shows x.val y.val) <;> rfl
  | false => exact grays

/-- The painter draws into the picture, over whatever it and the colors of the line before have left, and with all its
checks passed, a line of which every pixel has the gray of the rule. No other line changes, the colors that are left are
those below the sprites, and the rule does not look at the picture. -/
theorem line_follows_rule (lcd : Lcd) (left : Block screenWidth) (y : Fin screenHeight) :
    ∃ lower drawn, Checked.drawLine lcd (UInt8.ofNat y.val) left = some ⟨lower, drawn⟩ ∧
      lcd.drawLine y = lcd.repaint drawn ∧
      (∀ z x, (Picture.row z drawn).get x = if z = y then lcd.pixelAt x.val y.val else (Picture.row z lcd.picture).get x) ∧
      (∀ x, (lower.get x).toNat = (lcd.below x.val y.val).1) ∧
      ∀ picture, (lcd.repaint picture).pixelAt = lcd.pixelAt := by
  refine ⟨_, _, Checked.drawLine_eq lcd y left, rfl, ?_, ?_, fun _ => rfl⟩
  · intro z x
    rw [drawLine, Picture.row_overlay]
    split
    next same => exact get_scanline lcd x y
    next => rfl
  · intro x
    rw [below_eq lcd x y, Checked.lowerLine, Block.get_ofFn]

end Lcd
end DotMatrix
