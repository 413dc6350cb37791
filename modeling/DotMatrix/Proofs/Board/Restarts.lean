import DotMatrix.Proofs.Board.Soundness
import DotMatrix.Proofs.Bus.Traffic

/-!
Where the picture starts over. A program takes the LCD back to the top of the picture by writing to its line
or by switching it off; every other access leaves the LCD at its place and does not switch it off.
-/

namespace DotMatrix

namespace Access

/-- The access takes the LCD back to the top of the picture. -/
def restarts : Access → Bool
  | write address byte => address == 0xFF44 || address == 0xFF40 && !Byte.has byte 0x80
  | _ => false

def sinceRestart (seen : List Access) : Nat :=
  seen.foldl (fun cycles access => if access.restarts then 0 else cycles + access.cycles) 0

@[simp] theorem sinceRestart_nil : sinceRestart [] = 0 := rfl

theorem sinceRestart_concat (seen : List Access) (access : Access) :
    sinceRestart (seen ++ [access]) = if access.restarts then 0 else sinceRestart seen + access.cycles := by
  rw [sinceRestart, List.foldl_append]
  rfl

end Access

def Steady (seen : List Access) : Prop := ∀ access ∈ seen, access.restarts = false

theorem steady_append {first second : List Access} : Steady (first ++ second) ↔ Steady first ∧ Steady second :=
  List.forall_mem_append

theorem Spares.steady {seen : List Access} (spares : Spares [0xFF40, 0xFF44] seen) : Steady seen := by
  intro access listed
  cases access with
  | write address byte =>
    have control : (address == 0xFF40) = false := spares _ listed 0xFF40 (by decide)
    have line : (address == 0xFF44) = false := spares _ listed 0xFF44 (by decide)
    simp only [Access.restarts, control, line, Bool.false_and, Bool.or_false]
  | note event => rfl
  | batch cycles => rfl

namespace Access

theorem sinceRestart_append_le (before later : List Access) :
    sinceRestart (before ++ later) ≤ sinceRestart before + total later := by
  induction later generalizing before with
  | nil => simp
  | cons access later ih =>
    have step := ih (before ++ [access])
    have split : total (access :: later) = access.cycles + total later := rfl
    rw [List.append_assoc, List.singleton_append, sinceRestart_concat] at step
    revert step
    split <;> omega

theorem sinceRestart_le (seen : List Access) : sinceRestart seen ≤ total seen := by
  have all := sinceRestart_append_le [] seen
  rwa [List.nil_append, sinceRestart_nil, Nat.zero_add] at all

theorem sinceRestart_append (before : List Access) {stretch : List Access} (steady : Steady stretch) :
    sinceRestart (before ++ stretch) = sinceRestart before + total stretch := by
  induction stretch generalizing before with
  | nil => simp
  | cons access stretch ih =>
    obtain ⟨here, later⟩ := List.forall_mem_cons.mp steady
    have step := ih (before ++ [access]) later
    have split : total (access :: stretch) = access.cycles + total stretch := rfl
    rw [List.append_assoc, List.singleton_append, sinceRestart_concat, here] at step
    rw [step, split]
    exact Nat.add_assoc _ _ _

end Access

namespace Board

variable {b : Board}

structure KeepsPlace (b after : Board) : Prop where
  line : after.lcd.pace.line = b.lcd.pace.line
  countdown : after.lcd.pace.countdown = b.lcd.pace.countdown
  frameReady : after.lcd.pace.frameReady = b.lcd.pace.frameReady
  stays : b.lcd.pace.enabled = true → after.lcd.pace.enabled = true

theorem Sound.keepsPlace_write (h : b.Sound) {address : UInt16} {byte : UInt8}
    (steady : (Access.write address byte).restarts = false) : b.KeepsPlace (b.write address byte) := by
  simp only [Access.restarts, Bool.or_eq_false_iff, beq_eq_false_iff_ne] at steady
  obtain ⟨line, control⟩ := steady
  have outcome := b.write_outcome address byte
  generalize b.write address byte = after at outcome ⊢
  cases outcome with
  | lcdControl lcd =>
    have on : Byte.has byte 0x80 = true := by simpa using control
    have pace : (b.lcd.writeControl byte).1.pace.line = b.lcd.pace.line ∧
        (b.lcd.writeControl byte).1.pace.countdown = b.lcd.pace.countdown ∧
        (b.lcd.writeControl byte).1.pace.frameReady = b.lcd.pace.frameReady := by
      unfold Lcd.writeControl
      split
      next _ off => exact absurd (on.symm.trans off) (by decide)
      next off _ => exact ⟨rfl, (h.lcd.off off).2.1.symm, rfl⟩
      next => exact ⟨rfl, rfl, rfl⟩
    obtain ⟨line, countdown, flag⟩ := pace
    rw [← lcd] at line countdown flag
    refine ⟨line, countdown, flag, fun _ => ?_⟩
    rw [lcd]
    have switched : (b.lcd.writeControl byte).1.control = byte := by
      unfold Lcd.writeControl
      split <;> rfl
    change Byte.has (b.lcd.writeControl byte).1.control 0x80 = true
    rw [switched]
    exact on
  | line => exact absurd rfl line
  | linkControl =>
    simp only [Board.writeLinkControl]
    split <;> exact ⟨rfl, rfl, rfl, id⟩
  | other same =>
    have pace := same.pace
    constructor <;> rw [pace]
    exact id
  | _ => exact ⟨rfl, rfl, rfl, id⟩

end Board
end DotMatrix
