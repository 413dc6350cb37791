import DotMatrix.Proofs.Checked.Tiles

/-!
Drawing a line with checks, pixel by pixel. The background is drawn over whatever the line before has
left behind, then the window over the background, and the sprites over both.
-/

namespace DotMatrix.Checked

/-- What a line is drawn on: the colors below the sprites, and the picture. -/
structure Canvas where
  lower : Block screenWidth
  picture : Picture

def pixelPlace (y x : Nat) : Option (Fin (screenWidth * screenHeight)) := do
  let start ← fits 32 (y * screenWidth)
  let index ← fits 32 (start + x)
  slot (screenWidth * screenHeight) index

def putPixel (y x : Nat) (palette color : UInt8) (canvas : Canvas) : Option Canvas := do
  let column ← slot screenWidth x
  let place ← pixelPlace y x
  let gray ← shade palette color
  return ⟨canvas.lower.set column color, canvas.picture.set place gray⟩

def whiten (i : Nat) (picture : Picture) :
    Option (Picture) := do
  let place ← slot (screenWidth * screenHeight) i
  return picture.set place Lcd.white

def clearLine (y : UInt8) (canvas : Canvas) : Option Canvas := do
  let start ← fits 32 (y.toNat * screenWidth)
  let picture ← ascending whiten start screenWidth canvas.picture
  return ⟨Block.filled _ 0, picture⟩

def drawBackgroundAt (lcd : Lcd) (y : UInt8) (x : Nat) (canvas : Canvas) : Option Canvas := do
  let map := mapStart (Byte.has lcd.control 0x08)
  let color ← mapColor lcd map (UInt8.ofNat x + lcd.scrollX) (y + lcd.scrollY)
  putPixel y.toNat x lcd.backgroundPalette color canvas

def drawBackground (lcd : Lcd) (y : UInt8) (canvas : Canvas) : Option Canvas :=
  ascending (drawBackgroundAt lcd y) 0 screenWidth canvas

def drawWindowAt (lcd : Lcd) (y : UInt8) (x : Nat) (canvas : Canvas) : Option Canvas := do
  let map := mapStart (Byte.has lcd.control 0x40)
  let line ← minus y.toNat lcd.windowY.toNat
  let shifted ← fits 32 (x + 7)
  let column ← minus shifted lcd.windowX.toNat
  let color ← mapColor lcd map (UInt8.ofNat column) (UInt8.ofNat line)
  putPixel y.toNat x lcd.backgroundPalette color canvas

def drawWindow (lcd : Lcd) (y : UInt8) (canvas : Canvas) : Option Canvas :=
  if y.toNat < lcd.windowY.toNat ∨ 166 < lcd.windowX.toNat then some canvas
  else
    let first := lcd.windowX.toNat - 7
    ascending (drawWindowAt lcd y) first (screenWidth - first) canvas

def spriteBit (sprite : Lcd.Sprite) (column : Nat) : Option Nat :=
  if Byte.has sprite.attributes 0x20 then some column else minus 7 column

def paintColumn (y : UInt8) (sprite : Lcd.Sprite) (planes : UInt8 × UInt8) (palette : UInt8)
    (lower : Block screenWidth) (column : Nat) (picture : Picture) :
    Option (Picture) := do
  let bit ← spriteBit sprite column
  let color ← colorOf planes bit
  if color = 0 then return picture
  else
    let left ← fitsSigned 16 (sprite.x.toNat - 8)
    let x ← fitsSigned 16 (left + column)
    if x < 0 ∨ screenWidth ≤ x then return picture
    else
      let below ← slot screenWidth x.toNat
      if sprite.behind && lower.get below != 0 then return picture
      else
        let place ← pixelPlace y.toNat x.toNat
        let gray ← shade palette color
        return picture.set place gray

def paintSprite (lcd : Lcd) (y : UInt8) (lower : Block screenWidth) (i : Nat)
    (picture : Picture) : Option (Picture) := do
  let sprite ← sprite lcd i
  match ← row? sprite lcd.spriteHeight y with
  | none => return picture
  | some row =>
    let address ← spriteAddress sprite lcd.spriteHeight row
    let planes ← planesAt lcd address
    ascending (paintColumn y sprite planes (lcd.spritePalette sprite) lower) 0 8 picture

def drawSprites (lcd : Lcd) (y : UInt8) (canvas : Canvas) : Option Canvas := do
  let picture ← descending (paintSprite lcd y canvas.lower) 40 canvas.picture
  return { canvas with picture }

def drawPlain (lcd : Lcd) (y : UInt8) (canvas : Canvas) : Option Canvas :=
  if Byte.has lcd.control 0x01 then drawBackground lcd y canvas else clearLine y canvas

def drawLower (lcd : Lcd) (y : UInt8) (canvas : Canvas) : Option Canvas := do
  let canvas ← drawPlain lcd y canvas
  if Byte.has lcd.control 0x20 then drawWindow lcd y canvas else some canvas

def drawLine (lcd : Lcd) (y : UInt8) (left : Block screenWidth) : Option Canvas := do
  let canvas ← drawLower lcd y ⟨left, lcd.picture⟩
  if Byte.has lcd.control 0x02 then drawSprites lcd y canvas else some canvas

def onLine (y : Fin screenHeight) (picture : Picture) (lower grays : Block screenWidth) : Canvas :=
  ⟨lower, picture.overlay (y.val * screenWidth) grays (Picture.row_fits y)⟩

theorem toNat_line (y : Fin screenHeight) : (UInt8.ofNat y.val).toNat = y.val := by
  have inside := y.isLt
  simp only [screenHeight] at inside
  rw [UInt8.toNat_ofNat']
  omega

variable {y : Fin screenHeight} {picture : Picture} {lower grays : Block screenWidth}

theorem pixelPlace_eq (y : Fin screenHeight) (x : Fin screenWidth) :
    pixelPlace y.val x.val =
      some ⟨y.val * screenWidth + x.val,
        Nat.lt_of_lt_of_le (Nat.add_lt_add_left x.isLt _) (Picture.row_fits y)⟩ := by
  have line := y.isLt
  have column := x.isLt
  simp only [screenWidth, screenHeight] at line column
  simp only [pixelPlace, screenWidth, Option.bind_eq_bind]
  rw [fits_eq (by omega), Option.bind_some, fits_eq (by omega), Option.bind_some, slot_eq]

theorem putPixel_eq (x : Fin screenWidth) (palette : UInt8) {color : UInt8} (known : color.toNat ≤ 3) :
    putPixel y.val x.val palette color (onLine y picture lower grays) =
      some (onLine y picture (lower.set x color) (grays.set x (Lcd.shade palette color))) := by
  simp only [putPixel, slot_eq x.isLt, pixelPlace_eq, shade_eq palette known, Option.bind_eq_bind,
    Option.bind_some, onLine, Block.set_overlay]
  rfl

theorem drawColumns {body : Nat → Canvas → Option Canvas} {palette : UInt8} {color : Nat → UInt8}
    {first : Nat} (early : first ≤ screenWidth) (known : ∀ x, (color x).toNat ≤ 3)
    (step : ∀ x canvas, first ≤ x → x < screenWidth →
      body x canvas = putPixel y.val x palette (color x) canvas)
    (picture : Picture) (lower grays : Block screenWidth) :
    ascending body first (screenWidth - first) (onLine y picture lower grays) =
      some (onLine y picture (lower.patch first screenWidth color)
        (grays.patch first screenWidth fun x => Lcd.shade palette (color x))) := by
  have drawn (x : Nat) (late : first ≤ x) (inside : x < first + (screenWidth - first)) :
      body x (onLine y picture (lower.patch first x color)
        (grays.patch first x fun x => Lcd.shade palette (color x))) =
      some (onLine y picture (lower.patch first (x + 1) color)
        (grays.patch first (x + 1) fun x => Lcd.shade palette (color x))) := by
    have column : x < screenWidth := by omega
    have put (lower grays : Block screenWidth) :
        putPixel y.val x palette (color x) (onLine y picture lower grays) =
        some (onLine y picture (lower.set ⟨x, column⟩ (color x))
          (grays.set ⟨x, column⟩ (Lcd.shade palette (color x)))) :=
      putPixel_eq ⟨x, column⟩ palette (known x)
    rw [step x _ late column, put, Block.set_patch lower color late column]
    rw [Block.set_patch grays (fun x => Lcd.shade palette (color x)) late column]
  have done := ascending_eq (fun i => onLine y picture (lower.patch first i color)
    (grays.patch first i fun x => Lcd.shade palette (color x))) first (screenWidth - first) drawn
  simp only [Block.patch_self] at done
  rw [done, Nat.add_sub_cancel' early]

theorem canvas_eq_onLine (y : Fin screenHeight) (picture : Picture)
    (left : Block screenWidth) :
    ∃ grays, (⟨left, picture⟩ : Canvas) = onLine y picture left grays := by
  refine ⟨picture.part (y.val * screenWidth) (Picture.row_fits y), ?_⟩
  rw [onLine, Block.overlay_part]

theorem clearLine_eq (y : Fin screenHeight) (left : Block screenWidth) :
    clearLine (UInt8.ofNat y.val) ⟨left, picture⟩ =
      some (onLine y picture (Block.filled _ 0) (Block.filled _ Lcd.white)) := by
  have inside := Picture.row_fits y
  have short : y.val * screenWidth < 2 ^ 32 := by
    simp only [screenWidth, screenHeight] at *
    omega
  have step (i : Nat) (m : Picture) (_ : y.val * screenWidth ≤ i)
      (low : i < y.val * screenWidth + screenWidth) :
      whiten i m = some (m.set ⟨i, Nat.lt_of_lt_of_le low inside⟩ Lcd.white) := by
    rw [whiten, slot_eq]
    rfl
  simp only [clearLine, toNat_line, fits_eq short, Option.bind_eq_bind, Option.bind_some]
  rw [ascending_set (fun _ => Lcd.white) (y.val * screenWidth) screenWidth inside step picture,
    Block.patch_eq_overlay picture (y.val * screenWidth) Lcd.white inside]
  rfl

theorem mapColor_le (lcd : Lcd) (map : Nat) (x y : UInt8) : (lcd.mapColor map x y).toNat ≤ 3 :=
  colorOf_le _ _

def plainColor (lcd : Lcd) (y : UInt8) (x : Nat) : UInt8 :=
  if Byte.has lcd.control 0x01 then lcd.backgroundColor (UInt8.ofNat x) y else 0

def plainGray (lcd : Lcd) (y : UInt8) (x : Nat) : UInt8 :=
  if Byte.has lcd.control 0x01 then Lcd.shade lcd.backgroundPalette (plainColor lcd y x) else Lcd.white

def plainCanvas (lcd : Lcd) (y : Fin screenHeight) : Canvas :=
  onLine y lcd.picture (Block.ofFn fun x => plainColor lcd (UInt8.ofNat y.val) x.val)
    (Block.ofFn fun x => plainGray lcd (UInt8.ofNat y.val) x.val)

/-- What is left of the line before is drawn over. -/
theorem drawPlain_eq (lcd : Lcd) (y : Fin screenHeight) (left : Block screenWidth) :
    drawPlain lcd (UInt8.ofNat y.val) ⟨left, lcd.picture⟩ = some (plainCanvas lcd y) := by
  unfold drawPlain plainCanvas
  cases on : Byte.has lcd.control 0x01 with
  | true =>
    obtain ⟨grays, same⟩ := canvas_eq_onLine y lcd.picture left
    have step (x : Nat) (canvas : Canvas) (_ : 0 ≤ x) (_ : x < screenWidth) :
        drawBackgroundAt lcd (UInt8.ofNat y.val) x canvas =
          putPixel y.val x lcd.backgroundPalette (plainColor lcd (UInt8.ofNat y.val) x) canvas := by
      rw [drawBackgroundAt, mapColor_eq, toNat_line, plainColor, if_pos on]
      rfl
    have known (x : Nat) : (plainColor lcd (UInt8.ofNat y.val) x).toNat ≤ 3 := by
      rw [plainColor, if_pos on]
      exact mapColor_le lcd _ _ _
    have drawn := drawColumns (Nat.zero_le _) known step lcd.picture left grays
    rw [Block.patch_all, Block.patch_all] at drawn
    simp only [plainGray, on, if_true]
    rw [same]
    exact drawn
  | false =>
    have zeros : (Block.ofFn fun x : Fin screenWidth => plainColor lcd (UInt8.ofNat y.val) x.val) =
        Block.filled _ 0 := by
      apply Block.ext_get
      intro x
      rw [Block.get_ofFn, Block.get_filled, plainColor, on]
      rfl
    have whites : (Block.ofFn fun x : Fin screenWidth => plainGray lcd (UInt8.ofNat y.val) x.val) =
        Block.filled _ Lcd.white := by
      apply Block.ext_get
      intro x
      rw [Block.get_ofFn, Block.get_filled, plainGray, on]
      rfl
    rw [if_neg (by decide), clearLine_eq, zeros, whites]

def lowerLine (lcd : Lcd) (y : UInt8) : Block screenWidth :=
  Block.ofFn fun x => lcd.lowerColor (UInt8.ofNat x.val) y

def lowerGrays (lcd : Lcd) (y : UInt8) : Block screenWidth :=
  Block.ofFn fun x =>
    if lcd.drawsLower (UInt8.ofNat x.val) y then Lcd.shade lcd.backgroundPalette ((lowerLine lcd y).get x)
    else Lcd.white

theorem windowCovers_iff (lcd : Lcd) (x : Fin screenWidth) (y : UInt8) :
    lcd.windowCovers (UInt8.ofNat x.val) y = true ↔
      Byte.has lcd.control 0x20 = true ∧ ¬(y.toNat < lcd.windowY.toNat ∨ 166 < lcd.windowX.toNat) ∧
        lcd.windowX.toNat - 7 ≤ x.val := by
  have column : (UInt8.ofNat x.val).toNat = x.val := by
    have := x.isLt
    simp only [screenWidth] at this
    rw [UInt8.toNat_ofNat']
    omega
  simp only [Lcd.windowCovers, Bool.and_eq_true, decide_eq_true_eq, UInt8.le_iff_toNat_le, column]
  rw [show (166 : UInt8).toNat = 166 from rfl]
  constructor
  · rintro ⟨⟨⟨on, top⟩, edge⟩, left⟩
    exact ⟨on, by omega, by omega⟩
  · rintro ⟨on, shown, left⟩
    exact ⟨⟨⟨on, by omega⟩, by omega⟩, by omega⟩

/-- The window lies over the background from its first column on. -/
theorem lowerLine_eq {lcd : Lcd} {y : UInt8} {first : Nat}
    (covers : ∀ x : Fin screenWidth, lcd.windowCovers (UInt8.ofNat x.val) y = true ↔ first ≤ x.val) :
    (Block.ofFn fun x : Fin screenWidth => plainColor lcd y x.val).patch first screenWidth
        (fun x => lcd.windowColor (UInt8.ofNat x) y) = lowerLine lcd y := by
  apply Block.ext_get
  intro x
  rw [Block.get_patch, Block.get_ofFn, lowerLine, Block.get_ofFn, Lcd.lowerColor]
  by_cases beyond : first ≤ x.val
  · rw [if_pos ⟨beyond, x.isLt⟩, if_pos ((covers x).mpr beyond)]
  · rw [if_neg fun both => beyond both.1, if_neg fun covered => beyond ((covers x).mp covered)]
    rfl

theorem lowerGrays_eq {lcd : Lcd} {y : UInt8} {first : Nat}
    (covers : ∀ x : Fin screenWidth, lcd.windowCovers (UInt8.ofNat x.val) y = true ↔ first ≤ x.val) :
    (Block.ofFn fun x : Fin screenWidth => plainGray lcd y x.val).patch first screenWidth
        (fun x => Lcd.shade lcd.backgroundPalette (lcd.windowColor (UInt8.ofNat x) y)) =
      lowerGrays lcd y := by
  apply Block.ext_get
  intro x
  rw [Block.get_patch, Block.get_ofFn, lowerGrays, Block.get_ofFn, lowerLine, Block.get_ofFn, Lcd.lowerColor,
    Lcd.drawsLower]
  by_cases beyond : first ≤ x.val
  · have covered := (covers x).mpr beyond
    rw [if_pos ⟨beyond, x.isLt⟩, covered]
    rfl
  · have free := Bool.eq_false_iff.mpr fun covered => beyond ((covers x).mp covered)
    rw [if_neg fun both => beyond both.1, free, Bool.false_or, if_neg Bool.false_ne_true]
    rfl

theorem drawLower_eq (lcd : Lcd) (y : Fin screenHeight) (left : Block screenWidth) :
    drawLower lcd (UInt8.ofNat y.val) ⟨left, lcd.picture⟩ =
      some (onLine y lcd.picture (lowerLine lcd (UInt8.ofNat y.val)) (lowerGrays lcd (UInt8.ofNat y.val))) := by
  rw [drawLower, drawPlain_eq, Option.bind_eq_bind, Option.bind_some, plainCanvas]
  by_cases shown : Byte.has lcd.control 0x20 = true ∧
      ¬((UInt8.ofNat y.val).toNat < lcd.windowY.toNat ∨ 166 < lcd.windowX.toNat)
  · obtain ⟨on, inside⟩ := shown
    have top : lcd.windowY.toNat ≤ y.val := by
      rw [toNat_line] at inside
      omega
    have line : UInt8.ofNat (y.val - lcd.windowY.toNat) = UInt8.ofNat y.val - lcd.windowY := by
      rw [UInt8.ofNat_sub top, UInt8.ofNat_toNat]
    have step (x : Nat) (canvas : Canvas) (late : lcd.windowX.toNat - 7 ≤ x) (column : x < screenWidth) :
        drawWindowAt lcd (UInt8.ofNat y.val) x canvas =
          putPixel y.val x lcd.backgroundPalette (lcd.windowColor (UInt8.ofNat x) (UInt8.ofNat y.val))
            canvas := by
      have edge : lcd.windowX.toNat ≤ x + 7 := by omega
      have place : UInt8.ofNat (x + 7 - lcd.windowX.toNat) = UInt8.ofNat x + 7 - lcd.windowX := by
        rw [UInt8.ofNat_sub edge, UInt8.ofNat_add, UInt8.ofNat_toNat]
        rfl
      have short : x + 7 < 2 ^ 32 := by
        simp only [screenWidth] at column
        omega
      simp only [drawWindowAt, toNat_line, minus_eq top, fits_eq short, minus_eq edge, mapColor_eq, line,
        place, Option.bind_eq_bind, Option.bind_some]
      rfl
    have known (x : Nat) : (lcd.windowColor (UInt8.ofNat x) (UInt8.ofNat y.val)).toNat ≤ 3 :=
      mapColor_le lcd _ _ _
    have covers (x : Fin screenWidth) :
        lcd.windowCovers (UInt8.ofNat x.val) (UInt8.ofNat y.val) = true ↔ lcd.windowX.toNat - 7 ≤ x.val := by
      rw [windowCovers_iff]
      exact ⟨fun all => all.2.2, fun late => ⟨on, inside, late⟩⟩
    have early : lcd.windowX.toNat - 7 ≤ screenWidth := by
      simp only [screenWidth]
      omega
    rw [if_pos on, drawWindow, if_neg inside]
    simp only
    rw [drawColumns early known step, lowerLine_eq covers, lowerGrays_eq covers]
  · have covers (x : Fin screenWidth) :
        lcd.windowCovers (UInt8.ofNat x.val) (UInt8.ofNat y.val) = true ↔ screenWidth ≤ x.val := by
      rw [windowCovers_iff]
      have := x.isLt
      exact ⟨fun all => absurd ⟨all.1, all.2.1⟩ shown, fun late => by omega⟩
    rw [← lowerLine_eq covers, ← lowerGrays_eq covers, Block.patch_self, Block.patch_self]
    split
    next on => rw [drawWindow, if_pos (Decidable.of_not_not fun inside => shown ⟨on, inside⟩)]
    next => rfl

theorem spriteBit_eq (sprite : Lcd.Sprite) (column : Fin 8) :
    ∃ bit < 8, spriteBit sprite column.val = some bit ∧ UInt8.ofNat bit = sprite.bitOf column := by
  have inside := column.isLt
  unfold spriteBit Lcd.Sprite.bitOf
  split
  next => exact ⟨column.val, inside, rfl, rfl⟩
  next => exact ⟨7 - column.val, by omega, minus_eq (by omega), UInt8.ofNat_sub (by omega)⟩

theorem paintColumn_eq (sprite : Lcd.Sprite) (planes : UInt8 × UInt8) (palette : UInt8)
    (column : Fin 8) (grays : Block screenWidth) :
    paintColumn (UInt8.ofNat y.val) sprite planes palette lower column.val
        (onLine y picture lower grays).picture =
      some (onLine y picture lower
        (Lcd.paintColumn sprite planes palette lower column grays)).picture := by
  have left := sprite.x.toNat_lt
  have inside := column.isLt
  obtain ⟨bit, low, found, shown⟩ := spriteBit_eq sprite column
  have known := colorOf_le planes (sprite.bitOf column)
  simp only [paintColumn, Lcd.paintColumn, found, colorOf_eq planes low, shown, Option.bind_eq_bind,
    Option.bind_some]
  generalize Lcd.colorOf planes (sprite.bitOf column) = color at known ⊢
  by_cases clear : color = 0
  · subst clear
    simp only [if_true, decide_true, Bool.true_or]
    split <;> rfl
  · simp only [if_neg clear, decide_eq_false clear, Bool.false_or]
    rw [fitsSigned_eq (by omega) (by omega), Option.bind_some, fitsSigned_eq (by omega) (by omega),
      Option.bind_some]
    by_cases on : 8 ≤ sprite.x.toNat + column.val ∧ sprite.x.toNat + column.val < 168
    · have off : ¬((sprite.x.toNat : Int) - 8 + column.val < 0 ∨
          (screenWidth : Int) ≤ sprite.x.toNat - 8 + column.val) := by
        simp only [screenWidth]
        omega
      have place : ((sprite.x.toNat : Int) - 8 + column.val).toNat = sprite.x.toNat + column.val - 8 := by
        omega
      have pixel : sprite.x.toNat + column.val - 8 < screenWidth := by
        simp only [screenWidth]
        omega
      have found := pixelPlace_eq y ⟨sprite.x.toNat + column.val - 8, pixel⟩
      simp only at found
      rw [if_neg off, dif_pos on, place, slot_eq pixel, Option.bind_some, toNat_line]
      split
      next => rfl
      next =>
        rw [found, Option.bind_some, shade_eq palette known, Option.bind_some]
        exact congrArg some (Block.set_overlay picture _ grays (Picture.row_fits y) ⟨_, pixel⟩ _)
    · have off : (sprite.x.toNat : Int) - 8 + column.val < 0 ∨
          (screenWidth : Int) ≤ sprite.x.toNat - 8 + column.val := by
        simp only [screenWidth]
        omega
      rw [if_pos off, dif_neg on]
      rfl

theorem paintSprite_eq (lcd : Lcd) (i : Fin 40) (grays : Block screenWidth) :
    paintSprite lcd (UInt8.ofNat y.val) lower i.val (onLine y picture lower grays).picture =
      some (onLine y picture lower (lcd.paintSprite (UInt8.ofNat y.val) lower i grays)).picture := by
  simp only [paintSprite, Lcd.paintSprite, sprite_eq, row?_eq _ (spriteHeight_le lcd), Option.bind_eq_bind,
    Option.bind_some]
  cases found : (lcd.sprite i).row? lcd.spriteHeight (UInt8.ofNat y.val) with
  | none => rfl
  | some row =>
    have inside : row < 16 := Nat.lt_of_lt_of_le (row_lt found) (spriteHeight_le lcd)
    have start := tileStart_lt (lcd.sprite i) lcd.spriteHeight
    have step (planes : UInt8 × UInt8) (column : Fin 8) (grays : Block screenWidth) :
        paintColumn (UInt8.ofNat y.val) (lcd.sprite i) planes (lcd.spritePalette (lcd.sprite i)) lower
            (0 + column.val) (onLine y picture lower grays).picture =
          some (onLine y picture lower (Lcd.paintColumn (lcd.sprite i) planes
            (lcd.spritePalette (lcd.sprite i)) lower column grays)).picture := by
      rw [Nat.zero_add]
      exact paintColumn_eq ..
    simp only [spriteAddress_eq _ _ inside]
    rw [Option.bind_some, planesAt_eq lcd (by omega), Option.bind_some]
    exact ascending_foldl (fun grays => (onLine y picture lower grays).picture) _ 0 (step _) grays

theorem drawSprites_eq (lcd : Lcd) (grays : Block screenWidth) :
    drawSprites lcd (UInt8.ofNat y.val) (onLine y picture lower grays) =
      some (onLine y picture lower
        (Fin.foldr 40 (lcd.paintSprite (UInt8.ofNat y.val) lower) grays)) := by
  have step (i : Fin 40) (grays : Block screenWidth) :
      paintSprite lcd (UInt8.ofNat y.val) lower i.val (onLine y picture lower grays).picture =
        some (onLine y picture lower (lcd.paintSprite (UInt8.ofNat y.val) lower i grays)).picture :=
    paintSprite_eq lcd i grays
  have painted := descending_foldr (fun grays => (onLine y picture lower grays).picture) _ step grays
  rw [drawSprites, show (onLine y picture lower grays).lower = lower from rfl, painted]
  rfl

/-- Whatever the line before has left behind, the line is drawn to its end and every pixel gets the shade
that it has. -/
theorem drawLine_eq (lcd : Lcd) (y : Fin screenHeight) (left : Block screenWidth) :
    drawLine lcd (UInt8.ofNat y.val) left =
      some ⟨lowerLine lcd (UInt8.ofNat y.val), (lcd.drawLine y).picture⟩ := by
  rw [drawLine, drawLower_eq, Option.bind_eq_bind, Option.bind_some, drawSprites_eq]
  simp only [Lcd.drawLine, Lcd.scanline]
  cases Byte.has lcd.control 0x02 <;> rfl

end DotMatrix.Checked
