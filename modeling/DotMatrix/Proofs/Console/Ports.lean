import DotMatrix.Proofs.Console.Operations

/-!
The devices behind the first registers that nothing but writes change: the serial link, the sound and, but for the
buttons, the joypad. What such a device holds is told by the writes since the console started over.
-/

namespace DotMatrix

namespace Board

theorem ports_writeRegion (region : Region) (byte : UInt8) (b : Board) :
    (b.writeRegion region byte).joypad =
      (match region with
      | .register .joypad => b.joypad.writeSelection byte
      | _ => b.joypad) ∧
    (b.writeRegion region byte).link =
      (match region with
      | .register .linkData => b.link.writeData byte
      | .register .linkControl => b.link.writeControl byte
      | _ => b.link) ∧
    (b.writeRegion region byte).audio =
      (match region with
      | .register (.audio register) => b.audio.write register byte
      | _ => b.audio) := by
  cases region with
  | rom place =>
    obtain ⟨cartridge, journal, same⟩ := b.writeRom_frame place byte
    rw [writeRegion, same]
    exact ⟨rfl, rfl, rfl⟩
  | register register =>
    cases register with
    | lcdControl =>
      obtain ⟨journal, same⟩ := b.writeLcdControl_frame byte
      rw [writeRegion, writeRegister, same]
      exact ⟨rfl, rfl, rfl⟩
    | linkControl =>
      obtain ⟨requests, same⟩ := b.writeLinkControl_frame byte
      rw [writeRegion, writeRegister, same]
      exact ⟨rfl, rfl, rfl⟩
    | dma =>
      obtain ⟨oam, journal, same⟩ := b.copySprites_eq byte
      rw [writeRegion, writeRegister, same]
      exact ⟨rfl, rfl, rfl⟩
    | _ => exact ⟨rfl, rfl, rfl⟩
  | _ => exact ⟨rfl, rfl, rfl⟩

theorem joypad_write (address : UInt16) (byte : UInt8) (b : Board) :
    (b.write address byte).joypad = if address = 0xFF00 then b.joypad.writeSelection byte else b.joypad := by
  have reached := (b.ports_writeRegion (Region.ofAddress address) byte).1
  split
  next here =>
    subst here
    exact reached
  next apart =>
    refine reached.trans ?_
    split
    next found => exact absurd (Region.address_eq found) apart
    next => rfl

theorem link_write (address : UInt16) (byte : UInt8) (b : Board) :
    (b.write address byte).link =
      if address = 0xFF01 then b.link.writeData byte
      else if address = 0xFF02 then b.link.writeControl byte
      else b.link := by
  have reached := (b.ports_writeRegion (Region.ofAddress address) byte).2.1
  split
  next data =>
    subst data
    exact reached
  next apart =>
    split
    next control =>
      subst control
      exact reached
    next apartAlso =>
      refine reached.trans ?_
      split
      next found => exact absurd (Region.address_eq found) apart
      next found => exact absurd (Region.address_eq found) apartAlso
      next => rfl

theorem audio_write (register : AudioRegister) (byte : UInt8) (b : Board) :
    (b.write register.address byte).audio = b.audio.write register byte := by
  have reached := (b.ports_writeRegion (Region.ofAddress register.address) byte).2.2
  rw [Region.ofAddress_eq_audio.mpr rfl] at reached
  rw [write, Region.ofAddress_eq_audio.mpr rfl]
  exact reached

theorem audio_write_elsewhere {address : UInt16} (apart : ∀ register : AudioRegister, address ≠ register.address)
    (byte : UInt8) (b : Board) : (b.write address byte).audio = b.audio := by
  refine (b.ports_writeRegion (Region.ofAddress address) byte).2.2.trans ?_
  split
  next register found => exact absurd (Region.ofAddress_eq_audio.mp found) (apart register)
  next => rfl

/-- A part of the board that nothing but writes changes. -/
structure OnlyWritten {α : Type} (part : Board → α) : Prop where
  note : ∀ (b : Board) {ε : Type} [Event ε] (event : ε), part (b.note event) = part b
  tick : ∀ (b : Board) (cycles : Nat), part (b.tick cycles).2 = part b
  press : ∀ (b : Board) (button : Button), part (b.press button) = part b
  release : ∀ (b : Board) (button : Button), part (b.release button) = part b
  clearFrame : ∀ b : Board, part { b with lcd := b.lcd.clearFrame } = part b
  load : ∀ (b : Board) (image : ByteArray) (saved : Option ByteArray), part (b.load image saved).2 = part b

theorem onlyWritten_link : OnlyWritten fun b => b.link where
  note _ _ _ _ := rfl
  tick b cycles := by
    obtain ⟨timer, lcd, requests, journal, same⟩ := b.tick_frame cycles
    rw [same]
  press _ _ := rfl
  release _ _ := rfl
  clearFrame _ := rfl
  load b image saved := by
    obtain ⟨cartridge, model, journal, same⟩ := b.load_frame image saved
    rw [same]

theorem onlyWritten_audio : OnlyWritten fun b => b.audio where
  note _ _ _ _ := rfl
  tick b cycles := by
    obtain ⟨timer, lcd, requests, journal, same⟩ := b.tick_frame cycles
    rw [same]
  press _ _ := rfl
  release _ _ := rfl
  clearFrame _ := rfl
  load b image saved := by
    obtain ⟨cartridge, model, journal, same⟩ := b.load_frame image saved
    rw [same]

end Board

namespace Console

theorem Operation.eq_reset_of_isReset (operation : Operation) (resets : operation.isReset = true) :
    operation = .call .reset := by
  cases operation with
  | call call => cases call <;> first | rfl | cases resets
  | _ => cases resets

/-- What has been written when some operations have been done, after what had been written before. Starting over
forgets it. -/
def writesBehind : List Operation → Console → History → History
  | [], _, history => history
  | operation :: rest, c, history =>
    writesBehind rest (c.operate operation)
      (if operation.isReset then [] else Access.record (c.accessesOf operation) history)

def writesSinceReset (c : Console) (operations : List Operation) : History := writesBehind operations c []

end Console

namespace Board.OnlyWritten

open Console

variable {α : Type} {part : Board → α} {P : History → α → Prop} {history : History} {c : Console}
  (only : OnlyWritten part)
  (write : ∀ {history : History} {b : Board}, P history (part b) → ∀ (address : UInt16) (byte : UInt8),
    P (⟨address, byte⟩ :: history) (part (b.write address byte)))

include only write

/-- What each write keeps of such a part is a law. -/
theorem law : Law fun history b => P history (part b) where
  write := write
  note holds _ _ event := (only.note _ event).symm ▸ holds
  tick holds cycles := (only.tick _ cycles).symm ▸ holds
  press holds button := (only.press _ button).symm ▸ holds
  release holds button := (only.release _ button).symm ▸ holds
  clearFrame holds := (only.clearFrame _).symm ▸ holds

theorem operate {operation : Operation} (goesOn : operation.isReset = false) (holds : P history (part c.board)) :
    P (Access.record (c.accessesOf operation) history) (part (c.operate operation).board) :=
  (only.law write).operate_loading goesOn (fun image saved _ => (only.load _ image saved).symm ▸ holds) holds

/-- If it holds whenever the console starts over, it holds of every run. -/
theorem operateAll (start : ∀ journal, P [] (part (postBoot journal))) (operations : List Operation)
    (holds : P history (part c.board)) :
    P (writesBehind operations c history) (part (c.operateAll operations).board) := by
  induction operations generalizing c history with
  | nil => exact holds
  | cons operation rest ih =>
    cases resets : operation.isReset with
    | false =>
      rw [writesBehind, resets, if_neg Bool.false_ne_true]
      exact ih (only.operate write resets holds)
    | true =>
      obtain rfl : operation = .call .reset := operation.eq_reset_of_isReset resets
      exact ih (start c.board.journal)

end Board.OnlyWritten
end DotMatrix
