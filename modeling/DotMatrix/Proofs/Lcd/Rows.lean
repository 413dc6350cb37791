import DotMatrix.Proofs.Lcd.Pace
import DotMatrix.Proofs.Memory

/-!
The picture row by row. A batch of cycles draws the row of the line that it begins and leaves all others alone,
and what it draws does not depend on what the picture held before. So two LCDs that differ in their pictures
only have the same grays in every row whose line has begun, and each keeps its own in the others.
-/

namespace DotMatrix

namespace Picture

def row (y : Fin screenHeight) (picture : Picture) : Block screenWidth :=
  picture.part (y.val * screenWidth) (row_fits y)

variable {picture other : Picture}

theorem get_row (y : Fin screenHeight) (x : Fin screenWidth) (picture : Picture) :
    (picture.row y).get x =
      picture.get ⟨y.val * screenWidth + x.val, Nat.lt_of_lt_of_le (by omega) (row_fits y)⟩ :=
  Block.get_ofFn _ x

theorem ext_row (same : ∀ y, picture.row y = other.row y) : picture = other := by
  apply Block.ext_get
  intro i
  have inside := i.isLt
  simp only [screenWidth, screenHeight] at inside
  have row := congrArg (Block.get · ⟨i.val % screenWidth, Nat.mod_lt _ (by decide)⟩)
    (same ⟨i.val / screenWidth, by simp only [screenWidth, screenHeight]; omega⟩)
  simp only [get_row] at row
  have place : i.val / screenWidth * screenWidth + i.val % screenWidth = i.val := Nat.div_add_mod' _ _
  simpa only [place] using row

/-- Drawing a row leaves the others alone. -/
theorem row_overlay (z : Fin screenHeight) (grays : Block screenWidth) (y : Fin screenHeight) (picture : Picture) :
    Picture.row y (picture.overlay (z.val * screenWidth) grays (row_fits z)) =
      if y = z then grays else picture.row y := by
  apply Block.ext_get
  intro x
  have inside := x.isLt
  rw [get_row, Block.get_overlay]
  by_cases same : y = z
  · subst same
    rw [if_pos rfl, dif_pos (by simp only; omega)]
    congr 1
    apply Fin.ext
    exact Nat.add_sub_cancel_left _ _
  · have apart : y.val ≠ z.val := fun rows => same (Fin.ext rows)
    rw [if_neg same, dif_neg (by simp only [screenWidth] at inside ⊢; omega), get_row]

end Picture

namespace Pace

variable {start p : Pace} {cycles passed : Nat}

def Enters (cycles : Int) (line : Nat) (p : Pace) : Prop :=
  p.countdown ≤ cycles ∧ (Lcd.following p.line).toNat = line

def Begins (passed line : Nat) (p : Pace) : Prop :=
  ∃ turns : Nat, p.position < (Lcd.lineCycles * (line + 154 * turns) : Nat) ∧
    ((Lcd.lineCycles * (line + 154 * turns) : Nat) : Int) ≤ p.position + passed

theorem frameReady_countDown (cycles : Int) (p : Pace) :
    (p.countDown cycles).frameReady = true ↔ p.frameReady = true ∨ p.Enters cycles screenHeight := by
  unfold countDown Enters
  split
  next ends => simp [ends]
  next goesOn => simp [goesOn]

theorem not_begins_zero (line : Nat) (p : Pace) : ¬p.Begins 0 line := by
  rintro ⟨turns, after, before⟩
  omega

/-- The lines that have begun after a batch are those from before and the one that the batch enters. -/
theorem begins_add (sound : p.Sound) (short : cycles ≤ Lcd.lineCycles) {line : Nat} (inside : line ≤ Lcd.lastLine)
    (place : ∃ turns : Nat, p.position + frameCycles * turns = start.position + passed) :
    start.Begins (passed + cycles) line ↔ start.Begins passed line ∨ p.Enters cycles line := by
  obtain ⟨turns, place⟩ := place
  have positive := sound.positive
  have whole := sound.le_line
  simp only [Begins, Enters]
  simp only [Lcd.lastLine] at inside
  constructor
  · rintro ⟨begun, after, before⟩
    by_cases already : ((Lcd.lineCycles * (line + 154 * begun) : Nat) : Int) ≤ start.position + passed
    · exact .inl ⟨begun, after, already⟩
    · right
      rcases toNat_following sound with ⟨last, first⟩ | ⟨early, next⟩
      · rw [first]
        simp only [position, last, frameCycles, Lcd.lastLine, Lcd.lineCycles] at *
        omega
      · rw [next]
        simp only [position, frameCycles, Lcd.lastLine, Lcd.lineCycles] at *
        omega
  · rintro (⟨begun, after, before⟩ | ⟨ends, enters⟩)
    · exact ⟨begun, after, by omega⟩
    · rcases toNat_following sound with ⟨last, first⟩ | ⟨early, next⟩
      · refine ⟨turns + 1, ?_, ?_⟩
        · simp only [position, last, frameCycles, Lcd.lastLine, Lcd.lineCycles] at *
          omega
        · simp only [position, last, frameCycles, Lcd.lastLine, Lcd.lineCycles] at *
          omega
      · refine ⟨turns, ?_, ?_⟩
        · simp only [position, frameCycles, Lcd.lastLine, Lcd.lineCycles] at *
          omega
        · simp only [position, frameCycles, Lcd.lastLine, Lcd.lineCycles] at *
          omega

/-- Up to the next vertical blank all lines begin if the run has started in the blank before, and otherwise those
below the line where it has started. -/
theorem begins_at_blank (sound : start.Sound) {before line : Nat} (waits : ¬start.Begins before screenHeight)
    (blank : start.Begins passed screenHeight) (soon : passed ≤ before + Lcd.lineCycles) (visible : line < screenHeight) :
    start.Begins passed line ↔ screenHeight ≤ start.line.toNat ∨ start.line.toNat < line := by
  have last := sound.line_le
  have positive := sound.positive
  have whole := sound.le_line
  obtain ⟨turns, _, reached⟩ := blank
  simp only [position, Lcd.lineCycles, Lcd.lastLine, screenHeight] at *
  by_cases dark : 144 ≤ start.line.toNat
  · refine iff_of_true ⟨1, ?_, ?_⟩ (.inl dark)
    · simp only [position, Lcd.lineCycles]
      omega
    · simp only [position, Lcd.lineCycles]
      omega
  · have ahead : ¬(456 * 144 : Int) ≤ start.position + before := by
      intro late
      refine waits ⟨0, ?_, ?_⟩
      · simp only [position, Lcd.lineCycles]
        omega
      · simp only [Lcd.lineCycles]
        omega
    simp only [position, Lcd.lineCycles] at ahead
    constructor
    · rintro ⟨begun, after, already⟩
      simp only [position, Lcd.lineCycles] at after already
      omega
    · rintro (late | below)
      · exact absurd late dark
      · refine ⟨0, ?_, ?_⟩
        · simp only [position, Lcd.lineCycles]
          omega
        · simp only [position, Lcd.lineCycles]
          omega

end Pace

namespace Lcd

variable {start lcd : Lcd} {picture other : Picture} {cycles : Int}

def repaint (picture : Picture) (lcd : Lcd) : Lcd := { lcd with picture }

theorem scanline_repaint (picture : Picture) (lcd : Lcd) (y : UInt8) :
    (lcd.repaint picture).scanline y = lcd.scanline y := rfl

theorem nextLine_repaint (picture : Picture) (lcd : Lcd) :
    ∃ drawn, nextLine (lcd.repaint picture) = (nextLine lcd).repaint drawn := by
  unfold nextLine
  by_cases visible : (following lcd.line).toNat < screenHeight
  · refine ⟨(drawLine { lcd.repaint picture with line := following lcd.line } ⟨_, visible⟩).picture, ?_⟩
    rw [dif_pos (show (following (lcd.repaint picture).line).toNat < screenHeight from visible), dif_pos visible]
    rfl
  · refine ⟨picture, ?_⟩
    rw [dif_neg (show ¬(following (lcd.repaint picture).line).toNat < screenHeight from visible), dif_neg visible]
    by_cases blank : (following lcd.line).toNat = screenHeight
    · rw [if_pos (show (following (lcd.repaint picture).line).toNat = screenHeight from blank), if_pos blank]
      rfl
    · rw [if_neg (show ¬(following (lcd.repaint picture).line).toNat = screenHeight from blank), if_neg blank]
      rfl

theorem countDown_repaint (cycles : Int) (picture : Picture) (lcd : Lcd) :
    ∃ drawn, (lcd.repaint picture).countDown cycles = (lcd.countDown cycles).repaint drawn := by
  cases ends : lcd.endsLine cycles with
  | true =>
    obtain ⟨drawn, same⟩ := nextLine_repaint picture { lcd with countdown := lcd.countdown - cycles + lineCycles }
    refine ⟨drawn, ?_⟩
    rw [countDown, countDown, if_pos ends, if_pos (show (lcd.repaint picture).endsLine cycles = true from ends)]
    exact same
  | false =>
    refine ⟨picture, ?_⟩
    unfold countDown
    rw [ends, show (lcd.repaint picture).endsLine cycles = false from ends]
    rfl

theorem advance_repaint (cycles : Int) (picture : Picture) (lcd : Lcd) :
    ∃ drawn, (lcd.repaint picture).advance cycles = ((lcd.advance cycles).1, (lcd.advance cycles).2.repaint drawn) := by
  cases on : lcd.enabled with
  | true =>
    obtain ⟨drawn, counted⟩ := countDown_repaint cycles picture lcd
    refine ⟨drawn, ?_⟩
    rw [advance, advance, if_pos on, if_pos (show (lcd.repaint picture).enabled = true from on), counted]
    rfl
  | false =>
    refine ⟨picture, ?_⟩
    unfold advance
    rw [on, show (lcd.repaint picture).enabled = false from on]
    rfl

theorem row_nextLine (y : Fin screenHeight) (lcd : Lcd) :
    Picture.row y (nextLine lcd).picture =
      if (following lcd.line).toNat = y.val then lcd.scanline (UInt8.ofNat y.val) else Picture.row y lcd.picture := by
  unfold nextLine
  by_cases visible : (following lcd.line).toNat < screenHeight
  · rw [dif_pos visible]
    refine (Picture.row_overlay ⟨_, visible⟩ _ y lcd.picture).trans ?_
    by_cases here : y.val = (following lcd.line).toNat
    · rw [if_pos (Fin.ext here), if_pos here.symm]
      simp only [← here]
      rfl
    · rw [if_neg fun same => here (congrArg Fin.val same), if_neg fun same => here same.symm]
  · have elsewhere : (following lcd.line).toNat ≠ y.val := fun same => visible (same ▸ y.isLt)
    rw [dif_neg visible, if_neg elsewhere]
    split <;> rfl

theorem row_countDown (cycles : Int) (y : Fin screenHeight) (lcd : Lcd) :
    (lcd.pace.Enters cycles y.val →
      Picture.row y (lcd.countDown cycles).picture = lcd.scanline (UInt8.ofNat y.val)) ∧
    (¬lcd.pace.Enters cycles y.val → Picture.row y (lcd.countDown cycles).picture = Picture.row y lcd.picture) := by
  unfold countDown
  by_cases ends : lcd.countdown ≤ cycles
  · rw [if_pos (show lcd.endsLine cycles from decide_eq_true ends), row_nextLine]
    constructor
    · rintro ⟨_, here⟩
      exact if_pos here
    · intro elsewhere
      exact if_neg fun here => elsewhere ⟨ends, here⟩
  · rw [if_neg (by simpa [endsLine] using ends)]
    exact ⟨fun enters => absurd enters.1 ends, fun _ => rfl⟩

/-- A batch draws the row of the line that it enters, the same into any picture, and no other. -/
theorem row_advance (on : lcd.pace.enabled = true) (cycles : Int) (y : Fin screenHeight) :
    (lcd.pace.Enters cycles y.val → ∀ picture,
      Picture.row y ((lcd.repaint picture).advance cycles).2.picture = lcd.scanline (UInt8.ofNat y.val)) ∧
    (¬lcd.pace.Enters cycles y.val → ∀ picture,
      Picture.row y ((lcd.repaint picture).advance cycles).2.picture = picture.row y) := by
  have counted : ∀ picture,
      ((lcd.repaint picture).advance cycles).2.picture = ((lcd.repaint picture).countDown cycles).picture := by
    intro picture
    rw [Lcd.advance, if_pos (show (lcd.repaint picture).enabled = true from on)]
    rfl
  constructor
  · intro enters picture
    rw [counted, (row_countDown cycles y (lcd.repaint picture)).1 enters, scanline_repaint]
  · intro elsewhere picture
    rw [counted, (row_countDown cycles y (lcd.repaint picture)).2 elsewhere]
    rfl

/-- How far an LCD has come from a start, and what has become of its picture and of another that it started
with. -/
structure Course (start : Lcd) (picture : Picture) (passed : Nat) (lcd : Lcd) (other : Picture) : Prop where
  on : lcd.pace.enabled = true
  place : ∃ turns : Nat, lcd.pace.position + frameCycles * turns = start.pace.position + passed
  reached : lcd.pace.frameReady = true ↔ start.pace.Begins passed screenHeight
  drawn : ∀ y : Fin screenHeight, start.pace.Begins passed y.val → other.row y = Picture.row y lcd.picture
  kept : ∀ y : Fin screenHeight, ¬start.pace.Begins passed y.val →
    Picture.row y lcd.picture = Picture.row y start.picture ∧ other.row y = picture.row y

theorem Course.refl (on : start.pace.enabled = true) (waiting : start.pace.frameReady = false) :
    Course start picture 0 start picture where
  on := on
  place := ⟨0, by simp⟩
  reached := iff_of_false (by rw [waiting]; decide) (Pace.not_begins_zero _ _)
  drawn _ begun := absurd begun (Pace.not_begins_zero _ _)
  kept _ _ := ⟨rfl, rfl⟩

/-- A batch draws the row of the line that it enters, the same in both pictures. -/
theorem Course.advance {passed cycles : Nat} (h : Course start picture passed lcd other) (sound : lcd.pace.Sound)
    (short : cycles ≤ lineCycles) :
    Course start picture (passed + cycles) (lcd.advance cycles).2 ((lcd.repaint other).advance cycles).2.picture := by
  obtain ⟨status, pace, _⟩ := pace_advance cycles h.on
  obtain ⟨turns, place⟩ := h.place
  have enters : ∀ {line}, line ≤ lastLine →
      (start.pace.Begins (passed + cycles) line ↔ start.pace.Begins passed line ∨ lcd.pace.Enters cycles line) :=
    fun inside => Pace.begins_add sound short inside h.place
  have inside : ∀ y : Fin screenHeight, y.val ≤ lastLine := fun y => Nat.le_trans (Nat.le_of_lt y.isLt) (by decide)
  refine ⟨?_, ?_, ?_, ?_, ?_⟩
  · rw [pace]
    exact (Pace.enabled_countDown cycles lcd.pace).trans h.on
  · obtain ⟨more, moved⟩ := Pace.position_countDown sound cycles
    refine ⟨turns + more, ?_⟩
    rw [pace]
    change (lcd.pace.countDown cycles).position + _ = _
    rw [Int.natCast_add turns more, Int.mul_add]
    omega
  · rw [enters (by decide), ← h.reached, pace]
    exact Pace.frameReady_countDown cycles lcd.pace
  · intro y begun
    obtain ⟨new, old⟩ := row_advance h.on cycles y
    by_cases now : lcd.pace.Enters cycles y.val
    · exact (new now other).trans (new now lcd.picture).symm
    · have before := ((enters (inside y)).mp begun).resolve_right now
      calc
        _ = other.row y := old now other
        _ = Picture.row y lcd.picture := h.drawn y before
        _ = _ := (old now lcd.picture).symm
  · intro y waits
    obtain ⟨_, old⟩ := row_advance h.on cycles y
    rw [enters (inside y), not_or] at waits
    obtain ⟨before, elsewhere⟩ := waits
    obtain ⟨first, second⟩ := h.kept y before
    exact ⟨(old elsewhere lcd.picture).trans first, (old elsewhere other).trans second⟩

theorem Course.stay {passed : Nat} {after : Lcd} (h : Course start picture passed lcd other)
    (on : after.pace.enabled = true) (place : after.pace.position = lcd.pace.position)
    (flag : after.pace.frameReady = lcd.pace.frameReady) (same : after.picture = lcd.picture) :
    Course start picture passed after other where
  on := on
  place := place ▸ h.place
  reached := flag ▸ h.reached
  drawn := same ▸ h.drawn
  kept := same ▸ h.kept

end Lcd
end DotMatrix
