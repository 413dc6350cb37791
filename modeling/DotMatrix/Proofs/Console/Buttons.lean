import DotMatrix.Proofs.Console.Ports
import DotMatrix.Proofs.Joypad

/-!
The buttons of a console. The register shows what has been worked out for it when a button or the selection last
changed, and nothing else reaches it, so that it is never out of date.
-/

namespace DotMatrix

def History.selection (history : History) : UInt8 :=
  history.last (fun write _ => write.address == 0xFF00) (· &&& 0x30) 0

theorem History.selection_and (history : History) : history.selection &&& 0x30 = history.selection := by
  apply last_keeps (P := fun byte => byte &&& 0x30 = byte)
  · rfl
  · intro write _ _
    rw [UInt8.and_assoc, UInt8.and_self]

namespace Board

variable {b : Board} {history : History}

theorem joypad_tick (cycles : Nat) (b : Board) : (b.tick cycles).2.joypad = b.joypad := by
  obtain ⟨timer, lcd, requests, journal, same⟩ := b.tick_frame cycles
  rw [same]

theorem joypad_load (image : ByteArray) (saved : Option ByteArray) (b : Board) :
    (b.load image saved).2.joypad = b.joypad := by
  obtain ⟨cartridge, model, journal, same⟩ := b.load_frame image saved
  rw [same]

/-- The joypad follows the writes to its register, and what it shows is up to date. -/
structure ShowsButtons (history : History) (b : Board) : Prop where
  selection : b.joypad.selection = history.selection
  shown : b.joypad.shown = b.joypad.state

theorem showsButtons_postBoot (journal : Journal) : ShowsButtons [] (postBoot journal) := by
  have fresh : ({} : Joypad).shown = ({} : Joypad).state := by decide
  exact ⟨rfl, fresh⟩

theorem showsButtons_law : Law ShowsButtons where
  note h _ _ _ := ⟨h.selection, h.shown⟩
  clearFrame h := ⟨h.selection, h.shown⟩
  press h _ := ⟨h.selection, rfl⟩
  release h _ := ⟨h.selection, rfl⟩
  tick := by
    intro history b h cycles
    have same := b.joypad_tick cycles
    exact ⟨same ▸ h.selection, same ▸ h.shown⟩
  write := by
    intro history b h address byte
    have joypad := b.joypad_write address byte
    by_cases selects : address = 0xFF00
    · rw [if_pos selects] at joypad
      have hit : History.selection (⟨address, byte⟩ :: history) = byte &&& 0x30 := History.last_hit (by simpa using selects)
      refine ⟨?_, ?_⟩
      · rw [joypad, hit]
        rfl
      · rw [joypad]
        rfl
    · rw [if_neg selects] at joypad
      have miss : History.selection (⟨address, byte⟩ :: history) = history.selection :=
        History.last_miss (by simpa using selects)
      refine ⟨?_, ?_⟩
      · rw [joypad, miss]
        exact h.selection
      · rw [joypad]
        exact h.shown

theorem ShowsButtons.load (h : ShowsButtons history b) (image : ByteArray) (saved : Option ByteArray) :
    ShowsButtons history (b.load image saved).2 := by
  have same := b.joypad_load image saved
  exact ⟨same ▸ h.selection, same ▸ h.shown⟩

theorem held_invariant (held : UInt8) : Bus.Invariant fun b : Board => b.joypad.held = held where
  read _ _ h := h
  note _ _ h := h
  write address byte b h := by
    change (b.write address byte).joypad.held = held
    rw [joypad_write]
    split
    next => exact h
    next => exact h
  tick cycles _ b h := by
    change (b.tick cycles).2.joypad.held = held
    rw [joypad_tick]
    exact h

theorem ShowsButtons.read (h : ShowsButtons history b) :
    b.read 0xFF00 = 0xC0 ||| history.selection ||| b.joypad.lines := by
  have register : b.read 0xFF00 = b.joypad.shown := congrArg b.readRegion (Region.ofAddress_register 0)
  rw [register, h.shown, Joypad.state, h.selection, History.selection_and]

theorem press_comm (x y : Button) (b : Board) : (b.press x).press y = (b.press y).press x := by
  have same := b.joypad.press_comm x y
  simp only [press, request, same]

theorem release_comm (x y : Button) (b : Board) : (b.release x).release y = (b.release y).release x := by
  have same := b.joypad.release_comm x y
  simp only [release, same]

theorem press_release_comm {x y : Button} (apart : x ≠ y) (b : Board) :
    (b.press x).release y = (b.release y).press x := by
  have same := b.joypad.press_release_comm apart
  simp only [press, release, request, same]

end Board

namespace Console

def Operation.move (button : Button) (pressed : Bool) : Operation :=
  .call (if pressed then .press button else .release button)

def Operation.moves? (button : Button) : Operation → Option Bool
  | .call (.press other) => if other = button then some true else none
  | .call (.release other) => if other = button then some false else none
  | _ => none

variable {c : Console}

theorem held_operate {operation : Operation} (goesOn : operation.isReset = false)
    (still : ∀ button, operation.moves? button = none) :
    (c.operate operation).board.joypad.held = c.board.joypad.held := by
  cases operation with
  | write address byte => exact (Board.held_invariant c.board.joypad.held).write address byte rfl
  | tick cycles => exact congrArg Joypad.held (c.board.joypad_tick cycles)
  | call call =>
    cases call with
    | reset => cases goesOn
    | press button => exact absurd (still button) (by simp [Operation.moves?])
    | release button => exact absurd (still button) (by simp [Operation.moves?])
    | load image saved => exact congrArg Joypad.held (c.board.joypad_load image saved)
    | step => exact step_keeps (Board.held_invariant c.board.joypad.held) rfl
    | runFrame => exact runFrame_keeps (Board.held_invariant c.board.joypad.held) (fun _ h => h) rfl
    | save =>
      obtain ⟨journal, same⟩ := save_frame c
      rw [show c.operate (.call .save) = _ from same]
      rfl
    | keep => rfl
    | copyPicture => rfl

/-- An operation that moves a button decides whether it is held; all others leave that alone. -/
theorem isHeld_operate {operation : Operation} (goesOn : operation.isReset = false) (button : Button) :
    (c.operate operation).board.joypad.isHeld button =
      (operation.moves? button).getD (c.board.joypad.isHeld button) := by
  cases operation with
  | call call =>
    cases call with
    | press other =>
      change (c.board.joypad.press other).isHeld button = _
      rw [Joypad.isHeld_press, Operation.moves?]
      split <;> rfl
    | release other =>
      change (c.board.joypad.release other).isHeld button = _
      rw [Joypad.isHeld_release, Operation.moves?]
      split <;> rfl
    | _ => exact congrArg (Byte.has · button.mask) (held_operate goesOn fun _ => rfl)
  | _ => exact congrArg (Byte.has · button.mask) (held_operate goesOn fun _ => rfl)

/-- Behind some operations a button is as the last one that moved it has left it. -/
theorem isHeld_operateAll {operations : List Operation} (goOn : ∀ operation ∈ operations, operation.isReset = false)
    (button : Button) :
    (c.operateAll operations).board.joypad.isHeld button =
      ((operations.filterMap (·.moves? button)).getLast?).getD (c.board.joypad.isHeld button) := by
  induction operations generalizing c with
  | nil => rfl
  | cons operation rest ih =>
    obtain ⟨here, later⟩ := List.forall_mem_cons.mp goOn
    have first := isHeld_operate (c := c) here button
    change ((c.operate operation).operateAll rest).board.joypad.isHeld button = _
    rw [ih later, first, List.filterMap_cons]
    -- A move is the last one until another follows it.
    cases operation.moves? button with
    | none => rfl
    | some down =>
      simp only [Option.getD_some, List.getLast?_cons]

theorem isHeld_since_reset {operations : List Operation}
    (goOn : ∀ operation ∈ operations, operation.isReset = false) (button : Button) :
    (c.reset.operateAll operations).board.joypad.isHeld button = true ↔
      (operations.filterMap (·.moves? button)).getLast? = some true := by
  have free : c.reset.board.joypad.isHeld button = false := by
    change Byte.has 0 button.mask = false
    cases button <;> decide
  rw [isHeld_operateAll goOn, free]
  cases (operations.filterMap (·.moves? button)).getLast? with
  | none => exact ⟨nofun, nofun⟩
  | some down => rw [Option.getD_some, Option.some.injEq]

/-- The register of the joypad is never out of date. Whatever has been done and has run since the console started
over, FF00 reads as the groups last selected above four lines, and a line is low if a button on it is held whose group
is selected; a button is held if it was a press that moved it last. So moves of different buttons can change places. A
press asks for its interrupt, and neither letting go nor selecting a group changes the requests. -/
theorem joypad_up_to_date (c : Console) (operations : List Operation)
    (goOn : ∀ operation ∈ operations, operation.isReset = false) :
    let after := c.reset.operateAll operations
    let selection := (c.reset.writesOf operations).selection
    let held (button : Button) : Prop := (operations.filterMap (·.moves? button)).getLast? = some true
    (∃ low : UInt8, low.toNat < 0x10 ∧ after.board.read 0xFF00 = 0xC0 ||| selection ||| low ∧
      ∀ k : Fin 4, low.toNat.testBit k.val = false ↔
        (selection.toNat.testBit 4 = false ∧ held (.direction k)) ∨
          (selection.toNat.testBit 5 = false ∧ held (.action k))) ∧
    (∀ x y : Button, x ≠ y → ∀ (p q : Bool) (d : Console),
      (d.operate (.move x p)).operate (.move y q) = (d.operate (.move y q)).operate (.move x p)) ∧
    (∀ (button : Button) (b : Board), (b.press button).requests = b.requests ||| 0x10) ∧
    (∀ (button : Button) (b : Board), (b.release button).requests = b.requests) ∧
    (∀ (byte : UInt8) (b : Board), (b.write 0xFF00 byte).requests = b.requests) := by
  intro after selection held
  have shows : Board.ShowsButtons (c.reset.writesOf operations) after.board :=
    Board.showsButtons_law.operateAll_loading Board.ShowsButtons.load goOn (Board.showsButtons_postBoot _)
  refine ⟨⟨after.board.joypad.lines, Joypad.lines_lt _, shows.read, ?_⟩, ?_, ?_, ?_, ?_⟩
  · intro k
    rw [Joypad.testBit_lines, shows.selection, isHeld_since_reset goOn, isHeld_since_reset goOn]
  · intro x y apart p q d
    cases p <;> cases q
    · exact congrArg (fun b => d.mapBoard fun _ => b) (d.board.release_comm x y)
    · exact congrArg (fun b => d.mapBoard fun _ => b) (d.board.press_release_comm apart.symm).symm
    · exact congrArg (fun b => d.mapBoard fun _ => b) (d.board.press_release_comm apart)
    · exact congrArg (fun b => d.mapBoard fun _ => b) (d.board.press_comm x y)
  · intro button b
    rfl
  · intro button b
    rfl
  · intro byte b
    rfl

/-- Left and A are held while the directions are selected, and only Left shows; Right has been let go. -/
theorem joypad_up_to_date_selected :
    let operations : List Operation := [.move .right true, .write 0xFF00 0xEF, .move .a true, .move .left true,
      .move .right false, .write 0xFF46 0xC0, .call (.load .empty none), .tick 80]
    ((postBoot {}).operateAll operations).board.read 0xFF00 = 0xED := by
  intro operations
  have goOn : ∀ operation ∈ operations, operation.isReset = false := by decide
  obtain ⟨⟨low, small, read, lines⟩, _⟩ := joypad_up_to_date (postBoot {}) operations goOn
  have selection : ((postBoot {}).reset.writesOf operations).selection = 0x20 := by decide +kernel
  have only : ∀ low : UInt8, low.toNat < 0x10 → low.toNat.testBit 0 = true → low.toNat.testBit 1 = false →
      low.toNat.testBit 2 = true → low.toNat.testBit 3 = true → low = 0x0D := by
    decide +kernel
  rw [selection] at read lines
  have same : low = 0x0D := by
    apply only low small
    · exact Bool.eq_true_of_not_eq_false fun clear => absurd ((lines 0).mp clear) (by decide)
    · exact (lines 1).mpr (by decide)
    · exact Bool.eq_true_of_not_eq_false fun clear => absurd ((lines 2).mp clear) (by decide)
    · exact Bool.eq_true_of_not_eq_false fun clear => absurd ((lines 3).mp clear) (by decide)
  rw [same] at read
  exact read

end Console
end DotMatrix
