import DotMatrix.Proofs.Board.Soundness

/-!
The consoles that can be met: those that any calls leave behind, whatever image is loaded, whatever
program runs, and whether the calls succeed or not.
-/

namespace DotMatrix

namespace Board

def noteLoad (header : Header) (image : ByteArray) (saved : Option ByteArray) (journal : Journal) : Journal :=
  ((Cartridge.remarks header image saved).foldl (fun journal event => journal.record event) journal).record
    (BoardEvent.runsAs header.model)

theorem foldl_note (remarks : List CartridgeEvent) (b : Board) :
    remarks.foldl (fun b event => b.note event) b =
      { b with journal := remarks.foldl (fun journal event => journal.record event) b.journal } := by
  induction remarks generalizing b with
  | nil => rfl
  | cons event rest ih => exact ih (b.note event)

/-- A good image changes nothing of the board but the cartridge, the model and the journal. -/
theorem load_eq {image : ByteArray} {header : Header} (parsed : Header.parse image = .ok header)
    (saved : Option ByteArray) (b : Board) :
    b.load image saved = (.ok header,
      { b with
        cartridge := some (Cartridge.build header image saved)
        model := header.model
        journal := noteLoad header image saved b.journal }) := by
  simp only [load, parsed, foldl_note]
  rfl

theorem load_of_parse {image : ByteArray} {saved : Option ByteArray} {header : Header}
    (parsed : Header.parse image = .ok header) (b : Board) :
    ∃ journal, (b.load image saved).2 =
      { b with cartridge := some (Cartridge.build header image saved), model := header.model, journal } :=
  ⟨_, congrArg Prod.snd (load_eq parsed saved b)⟩

theorem load_frame (image : ByteArray) (saved : Option ByteArray) (b : Board) :
    ∃ cartridge model journal, (b.load image saved).2 = { b with cartridge, model, journal } := by
  cases parsed : Header.parse image with
  | error =>
    simp only [load, parsed]
    exact ⟨_, _, _, rfl⟩
  | ok header =>
    obtain ⟨journal, same⟩ := @load_of_parse image saved header parsed b
    exact ⟨_, _, journal, same⟩

end Board

namespace Console

inductive Call where
  | load (image : ByteArray) (saved : Option ByteArray)
  | reset
  | step
  | runFrame
  | press (button : Button)
  | release (button : Button)
  /-- From now on someone keeps the RAM that is handed over. -/
  | keep
  | save
  | copyPicture (buffer : ByteArray)

def after (c : Console) : Call → Console
  | .load image saved => (c.load image saved).2
  | .reset => c.reset
  | .step => c.step.2
  | .runFrame => c.runFrame.2
  | .press button => c.press button
  | .release button => c.release button
  | .keep => { c with hasKeeper := true }
  | .save => c.save.2
  | .copyPicture _ => c

def afterAll (c : Console) (calls : List Call) : Console := calls.foldl after c

/-- A console that calls can lead to, from the end of the boot program on. -/
def Reachable (c : Console) : Prop := ∃ journal calls, c = (postBoot journal).afterAll calls

theorem Reachable.after {c : Console} (h : c.Reachable) (call : Call) : (c.after call).Reachable := by
  obtain ⟨journal, calls, rfl⟩ := h
  refine ⟨journal, calls ++ [call], ?_⟩
  rw [afterAll, afterAll, List.foldl_append]
  rfl

theorem Reachable.afterAll {c : Console} (h : c.Reachable) (calls : List Call) : (c.afterAll calls).Reachable := by
  induction calls generalizing c with
  | nil => exact h
  | cons call rest ih => exact ih (h.after call)

theorem Reachable.step {c : Console} (h : c.Reachable) : c.step.2.Reachable := h.after .step

variable {P : Board → Prop}

theorem step_keeps (inv : Bus.Invariant P) {c : Console} (h : P c.board) : P c.step.2.board :=
  Machine.step_keeps inv h

theorem continueFrame_keeps (inv : Bus.Invariant P)
    (clears : ∀ b : Board, P b → P { b with lcd := b.lcd.clearFrame }) {elapsed : Nat} {c : Console}
    (h : P c.board) : P (c.continueFrame elapsed).2.board := by
  fun_induction continueFrame elapsed c with
  | case1 elapsed c fault next stepped =>
    have kept := step_keeps inv h
    rwa [stepped] at kept
  | case2 elapsed c cycles next stepped =>
    have kept := step_keeps inv h
    rw [stepped] at kept
    exact clears _ kept
  | case3 elapsed c cycles next stepped _ _ ih =>
    have kept := step_keeps inv h
    rw [stepped] at kept
    exact ih kept
  | case4 elapsed c cycles next stepped =>
    have kept := step_keeps inv h
    rwa [stepped] at kept

theorem runFrame_keeps (inv : Bus.Invariant P)
    (clears : ∀ b : Board, P b → P { b with lcd := b.lcd.clearFrame }) {c : Console} (h : P c.board) :
    P c.runFrame.2.board :=
  continueFrame_keeps inv clears (clears _ h)

theorem result_load (c : Console) (image : ByteArray) (saved : Option ByteArray) :
    (c.load image saved).1 = Header.parse image := by
  simp only [load, Board.load]
  cases Header.parse image <;> rfl

theorem parse_of_load {c loaded : Console} {image : ByteArray} {saved : Option ByteArray} {header : Header}
    (inserted : c.load image saved = (.ok header, loaded)) : Header.parse image = .ok header := by
  rw [← result_load c image saved, inserted]

theorem load_eq_of_parse {image : ByteArray} {header : Header} (parsed : Header.parse image = .ok header)
    (saved : Option ByteArray) (c : Console) : c.load image saved = (.ok header, (c.load image saved).2) :=
  Prod.ext ((c.result_load image saved).trans parsed) rfl

theorem sound_load {b : Board} (h : b.Sound) (image : ByteArray) (saved : Option ByteArray) :
    (b.load image saved).2.Sound := by
  obtain ⟨_, _, _, same⟩ := b.load_frame image saved
  rw [same]
  exact ⟨h.lcd, h.timer, h.requests⟩

theorem save_frame (c : Console) : ∃ journal, c.save.2 = c.mapBoard fun b => { b with journal } := by
  simp only [save]
  split
  next =>
    split
    next => split <;> exact ⟨_, rfl⟩
    next => exact ⟨_, rfl⟩
  next => exact ⟨c.board.journal, rfl⟩

/-- Every call keeps the board sound. -/
theorem sound_after {c : Console} (h : c.board.Sound) (call : Call) : (c.after call).board.Sound := by
  cases call with
  | load image saved => exact sound_load h image saved
  | reset => exact Board.sound_postBoot _
  | step => exact step_keeps Board.sound_invariant h
  | runFrame =>
    apply runFrame_keeps Board.sound_invariant _ h
    intro b sound
    exact sound.clearFrame
  | press button =>
    have held : ({ c.board with joypad := c.board.joypad.press button } : Board).Sound :=
      ⟨h.lcd, h.timer, h.requests⟩
    exact held.request .joypad
  | release button => exact ⟨h.lcd, h.timer, h.requests⟩
  | keep => exact h
  | save =>
    obtain ⟨_, same⟩ := save_frame c
    rw [show c.after .save = _ from same]
    exact ⟨h.lcd, h.timer, h.requests⟩
  | copyPicture => exact h

theorem sound_afterAll {c : Console} (h : c.board.Sound) (calls : List Call) :
    (c.afterAll calls).board.Sound := by
  induction calls generalizing c with
  | nil => exact h
  | cons call rest ih => exact ih (sound_after h call)

theorem sound_postBoot (journal : Journal) : (postBoot journal).board.Sound := Board.sound_postBoot journal

theorem Reachable.sound {c : Console} (h : c.Reachable) : c.board.Sound := by
  obtain ⟨journal, calls, rfl⟩ := h
  exact sound_afterAll (sound_postBoot journal) calls

/-- Whatever is called and whatever runs, the counts of the board stay in their ranges, and an LCD that
is off rests at the top of the picture. -/
theorem counts_in_range (journal : Journal) (calls : List Call) :
    let board := ((postBoot journal).afterAll calls).board
    board.lcd.line.toNat ≤ 153 ∧
    (1 ≤ board.lcd.countdown ∧ board.lcd.countdown ≤ 456) ∧
    board.lcd.status &&& 0x80 = 0x80 ∧
    board.requests.toNat ≤ 0x1F ∧
    (1 ≤ board.timer.dividerCountdown ∧ board.timer.dividerCountdown ≤ 256) ∧
    (board.lcd.control &&& 0x80 = 0 →
      board.lcd.line = 0 ∧ board.lcd.countdown = 456 ∧ board.lcd.status &&& 0x03 = 0) := by
  intro board
  obtain ⟨lcd, timer, requests⟩ := sound_afterAll (sound_postBoot journal) calls
  refine ⟨lcd.line_le, ⟨lcd.positive, lcd.le_line⟩, lcd.unused, requests,
    ⟨timer.divider_pos, timer.divider_le⟩, fun off => lcd.off ?_⟩
  exact bne_eq_false_iff_eq.mpr off

end Console
end DotMatrix
