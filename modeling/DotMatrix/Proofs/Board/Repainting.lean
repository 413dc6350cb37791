import DotMatrix.Proofs.Board.Restarts
import DotMatrix.Proofs.Lcd.Rows

/-!
Two boards that differ in their pictures only. No read tells them apart, no write touches a picture, and a batch
draws the same row into both, so they stay alike while a program runs.
-/

namespace DotMatrix

theorem foldl_map {σ : Type} {n : Nat} (g : σ → σ) (f : σ → Fin n → σ) (step : ∀ s i, f (g s) i = g (f s i)) (s : σ) :
    Fin.foldl n f (g s) = g (Fin.foldl n f s) := by
  induction n generalizing s with
  | zero => rfl
  | succ n ih =>
    rw [Fin.foldl_succ, Fin.foldl_succ, step]
    exact ih _ (fun s i => step s i.succ) _

theorem Lcd.writeControl_repaint (value : UInt8) (picture : Picture) (lcd : Lcd) :
    (lcd.repaint picture).writeControl value =
      ((lcd.writeControl value).1.repaint picture, (lcd.writeControl value).2) := by
  unfold writeControl
  rw [show (lcd.repaint picture).enabled = lcd.enabled from rfl]
  split <;> rfl

namespace Board

variable {b : Board}

def repaint (picture : Picture) (b : Board) : Board := { b with lcd := b.lcd.repaint picture }

theorem read_repaint (picture : Picture) (b : Board) (address : UInt16) :
    (b.repaint picture).read address = b.read address := by
  unfold read
  generalize Region.ofAddress address = region
  cases region with
  | register register => cases register <;> rfl
  | _ => rfl

theorem copySprites_repaint (page : UInt8) (picture : Picture) (b : Board) :
    (b.repaint picture).copySprites page = (b.copySprites page).repaint picture := by
  have filled := foldl_map (repaint picture)
    (fun (b : Board) (offset : Fin 0xA0) =>
      b.setSpriteByte offset (b.read (Word.ofBytes page 0 + UInt16.ofNat offset.val)))
    (by
      intro b offset
      simp only [read_repaint]
      rfl)
    (b.note (BoardEvent.copiesSprites (Word.ofBytes page 0)))
  exact congrArg (fun b : Board => { b with dmaPage := page }) filled

theorem noteAny_repaint {ε : Type} [Event ε] (event : Option ε) (picture : Picture) (b : Board) :
    (b.repaint picture).noteAny event = (b.noteAny event).repaint picture := by
  cases event <;> rfl

theorem write_repaint (address : UInt16) (value : UInt8) (picture : Picture) (b : Board) :
    (b.repaint picture).write address value = (b.write address value).repaint picture := by
  unfold write
  generalize Region.ofAddress address = region
  cases region with
  | rom place =>
    simp only [writeRegion, writeRom]
    rw [show (b.repaint picture).cartridge = b.cartridge from rfl]
    split
    next => rfl
    next cartridge _ =>
      exact noteAny_repaint (cartridge.writeRom place value).2 picture
        { b with cartridge := some (cartridge.writeRom place value).1 }
  | register register =>
    cases register with
    | lcdControl =>
      simp only [writeRegion, writeRegister, writeLcdControl]
      rw [show (b.repaint picture).lcd = b.lcd.repaint picture from rfl, Lcd.writeControl_repaint]
      exact noteAny_repaint (b.lcd.writeControl value).2 picture { b with lcd := (b.lcd.writeControl value).1 }
    | linkControl =>
      simp only [writeRegion, writeRegister, writeLinkControl]
      split <;> rfl
    | dma => exact copySprites_repaint value picture b
    | _ => rfl
  | _ => rfl

theorem advanceTimer_repaint (cycles : Int) (picture : Picture) (b : Board) :
    (b.repaint picture).advanceTimer cycles = (b.advanceTimer cycles).repaint picture := by
  unfold advanceTimer
  rw [show (b.repaint picture).timer = b.timer from rfl]
  simp only
  split <;> rfl

theorem advanceLcd_repaint (cycles : Int) (picture : Picture) (b : Board) :
    ∃ drawn, (b.repaint picture).advanceLcd cycles = (b.advanceLcd cycles).repaint drawn := by
  obtain ⟨drawn, same⟩ := b.lcd.advance_repaint cycles picture
  refine ⟨drawn, ?_⟩
  unfold advanceLcd
  rw [show (b.repaint picture).lcd = b.lcd.repaint picture from rfl, same]
  generalize b.lcd.advance cycles = x
  obtain ⟨⟨blank, stat⟩, lcd⟩ := x
  cases blank <;> cases stat <;> rfl

/-- How a batch can go for two boards that differ in their pictures only. -/
inductive TickTogether (picture : Picture) (b : Board) :
    Nat → Except Fault Unit × Board → Except Fault Unit × Board → Prop where
  | nothing : TickTogether picture b 0 (.ok (), b) (.ok (), b.repaint picture)
  | taken {cycles : Nat} {after : Board} (lcd : after.lcd = (b.lcd.advance cycles).2) :
      TickTogether picture b cycles (.ok (), after)
        (.ok (), after.repaint ((b.lcd.repaint picture).advance cycles).2.picture)
  | refused {cycles : Nat} {fault : Fault} :
      TickTogether picture b cycles (.error fault, b) (.error fault, b.repaint picture)

theorem tick_together {cycles : Nat} (short : cycles ≤ longestBatch) (picture : Picture) (b : Board) :
    TickTogether picture b cycles (b.tick cycles) ((b.repaint picture).tick cycles) := by
  unfold tick
  by_cases none : cycles = 0
  · subst none
    exact .nothing
  · simp only [if_neg none, Countdown.batch_eq short]
    rw [show ((b.repaint picture).timer.admits cycles && (b.repaint picture).lcd.admits cycles) =
      (b.timer.admits cycles && b.lcd.admits cycles) from rfl]
    split
    next =>
      have lcd : ((b.advanceTimer cycles).advanceLcd cycles).lcd = (b.lcd.advance cycles).2 := by
        rw [lcd_advanceLcd, lcd_advanceTimer]
      obtain ⟨drawn, same⟩ := advanceLcd_repaint cycles picture (b.advanceTimer cycles)
      have shown : drawn = ((b.lcd.repaint picture).advance cycles).2.picture := by
        rw [← lcd_advanceTimer cycles b]
        exact (congrArg (fun b : Board => b.lcd.picture) same).symm.trans (congrArg Lcd.picture (lcd_advanceLcd _ _))
      rw [advanceTimer_repaint, same, shown]
      exact .taken lcd
    next => exact .refused

/-- Two watched boards that have gone the same way from a start, but for the picture that each started with. -/
structure Redraws (start : Lcd) (picture : Picture) (base : List Access) (w v : Watched Board) : Prop where
  sound : w.bus.Sound
  same : v.bus = w.bus.repaint v.bus.lcd.picture
  course : Steady (base ++ w.seen) →
    start.Course picture (Access.total (base ++ w.seen)) w.bus.lcd v.bus.lcd.picture

variable {start : Lcd} {picture : Picture} {base : List Access}

theorem Redraws.concat {w v : Watched Board} {after other : Board} {access : Access} (h : Redraws start picture base w v)
    (sound : after.Sound) (same : other = after.repaint other.lcd.picture)
    (course : access.restarts = false → start.Course picture (Access.total (base ++ w.seen)) w.bus.lcd v.bus.lcd.picture →
      start.Course picture (Access.total (base ++ w.seen) + access.cycles) after.lcd other.lcd.picture) :
    Redraws start picture base ⟨after, w.seen ++ [access]⟩ ⟨other, v.seen ++ [access]⟩ := by
  refine ⟨sound, same, ?_⟩
  have counted : Access.total (base ++ (w.seen ++ [access])) = Access.total (base ++ w.seen) + access.cycles := by
    rw [← List.append_assoc, Access.total_append]
    rfl
  rw [← List.append_assoc, steady_append, List.append_assoc, counted]
  rintro ⟨before, here⟩
  exact course (here access (List.mem_singleton.mpr rfl)) (h.course before)

theorem picture_write (address : UInt16) (value : UInt8) (b : Board) :
    (b.write address value).lcd.picture = b.lcd.picture := by
  have same : b.write address value = (b.write address value).repaint b.lcd.picture :=
    write_repaint address value b.lcd.picture b
  rw [same]
  rfl

theorem redraws_simulates (start : Lcd) (picture : Picture) (base : List Access) :
    Bus.Simulates (Redraws start picture base) where
  read address w v h := by
    refine ⟨?_, h⟩
    change w.bus.read address = v.bus.read address
    rw [h.same, read_repaint]
  write address byte w v h := by
    have written : v.bus.write address byte = (w.bus.write address byte).repaint v.bus.lcd.picture := by
      rw [← write_repaint, ← h.same]
    have kept : (v.bus.write address byte).lcd.picture = v.bus.lcd.picture := picture_write address byte v.bus
    apply h.concat (h.sound.write address byte)
    · change v.bus.write address byte = repaint (v.bus.write address byte).lcd.picture (w.bus.write address byte)
      rw [kept]
      exact written
    · intro steady course
      have place := h.sound.keepsPlace_write steady
      change start.Course picture _ (w.bus.write address byte).lcd (v.bus.write address byte).lcd.picture
      rw [kept]
      apply course.stay (place.stays course.on) _ place.frameReady (picture_write address byte w.bus)
      simp only [Pace.position, place.line, place.countdown]
  note event w v h := by
    apply h.concat (h.sound.note event)
    · exact congrArg (Bus.note event) h.same
    · intro _ course
      exact course
  tick cycles short w v h := by
    have together := tick_together short v.bus.lcd.picture w.bus
    have sound := h.sound.tick short
    rw [← h.same] at together
    generalize first : w.bus.tick cycles = x at together sound
    generalize second : v.bus.tick cycles = y at together
    cases together with
    | nothing =>
      rw [Watched.tick_ok first, Watched.tick_ok second]
      refine ⟨rfl, h.concat sound rfl ?_⟩
      intro _ course
      exact course
    | taken lcd =>
      rw [Watched.tick_ok first, Watched.tick_ok second]
      refine ⟨rfl, h.concat sound rfl ?_⟩
      intro _ course
      rw [lcd]
      exact course.advance h.sound.lcd (Nat.le_trans short (by decide))
    | refused =>
      rw [Watched.tick_error first, Watched.tick_error second]
      refine ⟨rfl, h.sound, rfl, ?_⟩
      exact h.course

end Board
end DotMatrix
