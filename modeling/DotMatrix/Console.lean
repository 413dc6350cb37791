import DotMatrix.Board.Access
import DotMatrix.Cpu.Step

/-!
The console: a processor on a board, the picture it shows, and the RAM it hands over to be kept.
-/

namespace DotMatrix

def clockRate : Nat := 4194304

def frameCycles : Nat := 154 * Lcd.lineCycles

/-- The most cycles that a frame may take: they are counted in 32 bits. -/
def frameLimit : Nat := 0xFFFFFFFF

structure Console where
  machine : Machine Board
  /-- Someone keeps the RAM that is handed over. -/
  hasKeeper : Bool := false

inductive ConsoleEvent where
  | saves (size : Nat)
  | nothingToSave

instance : Event ConsoleEvent where
  level
    | .saves _ => .info
    | .nothingToSave => .debug
  text
    | .saves size => s!"GB: saving {size} bytes of cartridge RAM"
    | .nothingToSave => "GB: nothing to save"

namespace Console

def postBoot (journal : Journal) : Console := { machine := ⟨Cpu.postBoot, Board.postBoot journal⟩ }

def board (c : Console) : Board := c.machine.bus

@[inline] def mapBoard (f : Board → Board) (c : Console) : Console :=
  { c with machine := { c.machine with bus := f c.machine.bus } }

/-- Takes the cartridge out and starts over; the keeper stays. -/
def reset (c : Console) : Console := { postBoot c.board.journal with hasKeeper := c.hasKeeper }

def load (image : ByteArray) (saved : Option ByteArray) (c : Console) :
    Except HeaderError Header × Console :=
  match c with
  | ⟨⟨cpu, board⟩, hasKeeper⟩ =>
    let (result, board) := board.load image saved
    (result, ⟨⟨cpu, board⟩, hasKeeper⟩)

def press (button : Button) (c : Console) : Console := c.mapBoard (·.press button)

def release (button : Button) (c : Console) : Console := c.mapBoard (·.release button)

/-- The RAM of the cartridge, if someone keeps it and it is not empty. -/
def save (c : Console) : Option ByteArray × Console :=
  if c.hasKeeper then
    match c.board.cartridgeRam with
    | some ram =>
      if ram.size = 0 then (none, c.mapBoard (·.note ConsoleEvent.nothingToSave))
      else (some ram, c.mapBoard (·.note (ConsoleEvent.saves ram.size)))
    | none => (none, c.mapBoard (·.note ConsoleEvent.nothingToSave))
  else (none, c)

def step (c : Console) : Except Fault Nat × Console :=
  match c with
  | ⟨machine, hasKeeper⟩ =>
    let (result, machine) := machine.step
    (result, ⟨machine, hasKeeper⟩)

def stepMany (n : Nat) (c : Console) : Except Fault (Array Nat) × Console :=
  match c with
  | ⟨machine, hasKeeper⟩ =>
    let (result, machine) := Machine.repeatSteps Machine.step n #[] machine
    (result, ⟨machine, hasKeeper⟩)

def frameReady (c : Console) : Bool := c.board.lcd.frameReady

def clearFrame (c : Console) : Console := c.mapBoard fun b => { b with lcd := b.lcd.clearFrame }

/-- What ends a frame: the vertical blank, a stop, or the time of a frame while the LCD is off. -/
def endsFrame (elapsed : Nat) (c : Console) : Bool :=
  c.frameReady || c.machine.cpu.stopped || !c.board.lcd.enabled && frameCycles ≤ elapsed

theorem running_of_not_endsFrame {elapsed : Nat} {c : Console} (goesOn : ¬c.endsFrame elapsed) :
    c.machine.cpu.stopped = false := by
  cases stopped : c.machine.cpu.stopped with
  | false => rfl
  | true => exact absurd (by simp [endsFrame, stopped]) goesOn

/-- Twice the cycles that a frame may still take, and one for a step that takes no time. -/
def frameBudget (elapsed : Nat) (c : Console) : Nat :=
  2 * (frameLimit - elapsed) + c.machine.cpu.stopped.toNat

theorem frameBudget_lt {c next : Console} {elapsed cycles : Nat}
    (passes : c.machine.cpu.stopped = false → 0 < cycles) (within : elapsed + cycles ≤ frameLimit)
    (goesOn : ¬next.endsFrame (elapsed + cycles)) :
    frameBudget (elapsed + cycles) next < frameBudget elapsed c := by
  have running : next.machine.cpu.stopped = false := running_of_not_endsFrame goesOn
  simp only [frameBudget, running, Bool.toNat_false]
  cases stopped : c.machine.cpu.stopped with
  | true =>
    simp only [Bool.toNat_true]
    omega
  | false =>
    have := passes stopped
    simp only [Bool.toNat_false]
    omega

theorem pos_of_step {c next : Console} {cycles : Nat} (stepped : c.step = (.ok cycles, next))
    (running : c.machine.cpu.stopped = false) : 0 < cycles :=
  Machine.step_pos (m := c.machine) running (congrArg Prod.fst stepped)

def continueFrame (elapsed : Nat) (c : Console) : Except Fault Nat × Console :=
  match _stepped : c.step with
  | (.error fault, next) => (.error fault, next)
  | (.ok cycles, next) =>
    if elapsed + cycles ≤ frameLimit then
      if next.endsFrame (elapsed + cycles) then (.ok (elapsed + cycles), next.clearFrame)
      else continueFrame (elapsed + cycles) next
    else (.error .frameOverflow, next)
termination_by frameBudget elapsed c
decreasing_by exact frameBudget_lt (pos_of_step _stepped) ‹_› ‹_›

def runFrame (c : Console) : Except Fault Nat × Console := continueFrame 0 c.clearFrame

def pixel (c : Console) (x : Fin screenWidth) (y : Fin screenHeight) : UInt8 :=
  c.board.lcd.picture.get ⟨y.val * screenWidth + x.val, by
    have := x.isLt
    have := y.isLt
    simp only [screenWidth, screenHeight] at *
    omega⟩

/-- Lays the picture over a buffer, three equal bytes for a pixel, as far as whole pixels fit. -/
def copyPicture (c : Console) (buffer : ByteArray) : ByteArray :=
  ⟨Array.ofFn fun i : Fin buffer.size =>
    if h : i.val / 3 < screenWidth * screenHeight ∧ i.val / 3 < buffer.size / 3 then
      c.board.lcd.picture.get ⟨i.val / 3, h.1⟩
    else buffer[i]⟩

def serialOutput (c : Console) : Array UInt8 := c.board.link.sent

end Console

end DotMatrix
