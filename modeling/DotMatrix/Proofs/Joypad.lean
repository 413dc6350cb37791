import DotMatrix.Joypad
import DotMatrix.Proofs.Byte

/-!
The joypad line by line. A line is low while a button on it is held whose group is selected, and what moves one
button leaves the others alone.
-/

namespace DotMatrix

namespace Button

def direction : Fin 4 → Button
  | 0 => right
  | 1 => left
  | 2 => up
  | 3 => down

def action : Fin 4 → Button
  | 0 => a
  | 1 => b
  | 2 => select
  | 3 => start

def bit : Button → Nat
  | right => 0
  | left => 1
  | up => 2
  | down => 3
  | a => 4
  | b => 5
  | select => 6
  | start => 7

theorem mask_eq (button : Button) : button.mask = UInt8.ofNat (2 ^ button.bit) := by
  cases button <;> rfl

theorem testBit_mask (x y : Button) : x.mask.toNat.testBit y.bit = decide (x = y) := by
  cases x <;> cases y <;> rfl

theorem testBit_not_mask (x y : Button) : (~~~x.mask).toNat.testBit y.bit = decide (x ≠ y) := by
  cases x <;> cases y <;> rfl

theorem mask_and_not_mask {x y : Button} (apart : x ≠ y) : x.mask &&& ~~~y.mask = x.mask := by
  cases x <;> cases y <;> first | rfl | exact absurd rfl apart

theorem bit_direction : ∀ k : Fin 4, (direction k).bit = k.val := by
  decide

theorem bit_action : ∀ k : Fin 4, (action k).bit = 4 + k.val := by
  decide

end Button

namespace Joypad

theorem isHeld_eq_testBit (pad : Joypad) (button : Button) :
    pad.isHeld button = pad.held.toNat.testBit button.bit := by
  have inside : button.bit < 8 := by cases button <;> decide
  rw [isHeld, Button.mask_eq]
  exact Byte.has_eq_testBit ⟨button.bit, inside⟩ pad.held

theorem isHeld_press (button other : Button) (pad : Joypad) :
    (pad.press other).isHeld button = if other = button then true else pad.isHeld button := by
  rw [isHeld_eq_testBit, isHeld_eq_testBit]
  change (pad.held ||| other.mask).toNat.testBit button.bit = _
  rw [UInt8.toNat_or, Nat.testBit_or, Button.testBit_mask]
  by_cases same : other = button
  · rw [if_pos same, decide_eq_true same, Bool.or_true]
  · rw [if_neg same, decide_eq_false same, Bool.or_false]

theorem isHeld_release (button other : Button) (pad : Joypad) :
    (pad.release other).isHeld button = if other = button then false else pad.isHeld button := by
  rw [isHeld_eq_testBit, isHeld_eq_testBit]
  change (pad.held &&& ~~~other.mask).toNat.testBit button.bit = _
  rw [UInt8.toNat_and, Nat.testBit_and, Button.testBit_not_mask]
  by_cases same : other = button
  · rw [if_pos same, decide_eq_false (not_not_intro same), Bool.and_false]
  · rw [if_neg same, decide_eq_true same, Bool.and_true]

theorem testBit_groupLines : ∀ (selected : Bool) (held : UInt8) (k : Fin 4),
    (groupLines selected held).toNat.testBit k.val = !(selected && held.toNat.testBit k.val) := by
  decide +kernel

theorem groupLines_lt : ∀ (selected : Bool) (held : UInt8), (groupLines selected held).toNat < 0x10 := by
  decide +kernel

theorem lines_lt (pad : Joypad) : pad.lines.toNat < 0x10 := by
  rw [lines, UInt8.toNat_and]
  exact Nat.lt_of_le_of_lt Nat.and_le_left (groupLines_lt _ _)

/-- A line is low if a held button of a selected group is on it. -/
theorem testBit_lines (pad : Joypad) (k : Fin 4) :
    pad.lines.toNat.testBit k.val = false ↔
      (pad.selection.toNat.testBit 4 = false ∧ pad.isHeld (.direction k) = true) ∨
        (pad.selection.toNat.testBit 5 = false ∧ pad.isHeld (.action k) = true) := by
  have directions : Byte.has pad.selection 0x10 = pad.selection.toNat.testBit 4 := Byte.has_eq_testBit 4 _
  have actions : Byte.has pad.selection 0x20 = pad.selection.toNat.testBit 5 := Byte.has_eq_testBit 5 _
  have upper : ∀ (held : UInt8) (k : Fin 4), (held >>> 4).toNat.testBit k.val = held.toNat.testBit (4 + k.val) := by
    decide +kernel
  rw [lines, UInt8.toNat_and, Nat.testBit_and, testBit_groupLines, testBit_groupLines, directions, actions, upper,
    isHeld_eq_testBit, isHeld_eq_testBit, Button.bit_direction, Button.bit_action]
  simp only [Bool.and_eq_false_iff, Bool.not_eq_false', Bool.and_eq_true, Bool.not_eq_true']

/-- What the joypad shows depends on nothing but the selection and the held buttons. -/
theorem refresh_congr {x y : Joypad} (selection : x.selection = y.selection) (held : x.held = y.held) :
    x.refresh = y.refresh := by
  obtain ⟨_, _, _⟩ := x
  obtain ⟨_, _, _⟩ := y
  cases selection
  cases held
  rfl

theorem press_comm (x y : Button) (pad : Joypad) : (pad.press x).press y = (pad.press y).press x := by
  apply refresh_congr
  · rfl
  · change pad.held ||| x.mask ||| y.mask = pad.held ||| y.mask ||| x.mask
    rw [UInt8.or_assoc, UInt8.or_comm x.mask, UInt8.or_assoc]

theorem release_comm (x y : Button) (pad : Joypad) : (pad.release x).release y = (pad.release y).release x := by
  apply refresh_congr
  · rfl
  · change pad.held &&& ~~~x.mask &&& ~~~y.mask = pad.held &&& ~~~y.mask &&& ~~~x.mask
    rw [UInt8.and_assoc, UInt8.and_comm (~~~x.mask), UInt8.and_assoc]

/-- Pressing a button and letting go of another can change places. -/
theorem press_release_comm {x y : Button} (apart : x ≠ y) (pad : Joypad) :
    (pad.press x).release y = (pad.release y).press x := by
  apply refresh_congr
  · rfl
  · change (pad.held ||| x.mask) &&& ~~~y.mask = pad.held &&& ~~~y.mask ||| x.mask
    rw [Byte.or_and, Button.mask_and_not_mask apart]

end Joypad
end DotMatrix
