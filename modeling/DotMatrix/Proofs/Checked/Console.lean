import DotMatrix.Proofs.Checked.Batches
import DotMatrix.Proofs.Checked.Cartridge
import DotMatrix.Proofs.Checked.Step
import DotMatrix.Proofs.Console.Faults

/-!
A console with checks in all its parts: its processor calculates with checks, on a board that is
reached with checks. Whatever is called and whatever runs, all of them are passed.
-/

namespace DotMatrix.Checked

/-- A board with checks. Once a check has failed there is no board any more. -/
structure Guarded where
  bench : Option Bench

instance : Bus Guarded where
  read address g :=
    match g.bench.bind fun bench => read bench.board address with
    | some byte => (byte, g)
    | none => (0xFF, ⟨none⟩)
  write address byte g := ⟨do
    let bench ← g.bench
    let board ← write address byte bench.board
    return { bench with board }⟩
  tick cycles g :=
    match g.bench.bind (tick cycles) with
    | some (result, bench) => (result, ⟨some bench⟩)
    | none => (.ok (), ⟨none⟩)
  note event g := ⟨g.bench.map fun bench => { bench with board := bench.board.note event }⟩

def Guards (g : Guarded) (b : Board) : Prop := b.Sound ∧ ∃ left, g.bench = some ⟨b, left⟩

structure Rig where
  console : Console
  left : Block screenWidth

namespace Rig

def boot (journal : Journal) : Rig := ⟨.postBoot journal, .filled _ 0⟩

def machine (r : Rig) : Machine Guarded :=
  ⟨r.console.machine.cpu, ⟨some ⟨r.console.machine.bus, r.left⟩⟩⟩

def step (r : Rig) : Option (Except Fault Nat × Rig) := do
  let (result, m) ← Checked.step r.machine
  let bench ← m.bus.bench
  return (result, ⟨{ r.console with machine := ⟨m.cpu, bench.board⟩ }, bench.left⟩)

theorem pos_of_step {r next : Rig} {cycles : Nat} (stepped : r.step = some (.ok cycles, next))
    (running : r.console.machine.cpu.stopped = false) : 0 < cycles := by
  rw [step, step_eq, Option.bind_eq_bind, Option.bind_some] at stepped
  obtain ⟨bench, _, same⟩ := Option.bind_eq_some_iff.mp stepped
  exact Machine.step_pos (m := r.machine) running (congrArg Prod.fst (Option.some.inj same))

def continueFrame (elapsed : Nat) (r : Rig) : Option (Except Fault Nat × Rig) :=
  match _stepped : r.step with
  | none => none
  | some (.error fault, next) => some (.error fault, next)
  | some (.ok cycles, next) =>
    if elapsed + cycles ≤ frameLimit then
      if next.console.endsFrame (elapsed + cycles) then
        some (.ok (elapsed + cycles), { next with console := next.console.clearFrame })
      else continueFrame (elapsed + cycles) next
    else some (.error .frameOverflow, next)
termination_by Console.frameBudget elapsed r.console
decreasing_by exact Console.frameBudget_lt (pos_of_step _stepped) ‹_› ‹_›

def runFrame (r : Rig) : Option (Except Fault Nat × Rig) :=
  continueFrame 0 { r with console := r.console.clearFrame }

def copyPicture (r : Rig) (buffer : ByteArray) : Option ByteArray := do
  let copied ← ascending copyByte 0 (3 * min (buffer.size / 3) (screenWidth * screenHeight)) ⟨buffer, rfl⟩
  return copied.bytes
where
  copyByte (i : Nat) (target : Block buffer.size) : Option (Block buffer.size) := do
    let pixel ← slot (screenWidth * screenHeight) (i / 3)
    let place ← slot buffer.size i
    return target.set place (r.console.board.lcd.picture.get pixel)

def load (image : ByteArray) (saved : Option ByteArray) (r : Rig) : Option Rig := do
  let (_, board) ← Checked.load image saved r.console.board
  return { r with console := r.console.mapBoard fun _ => board }

/-- What a call leaves behind, if every check on the way is passed. -/
def after (r : Rig) : Console.Call → Option Rig
  | .load image saved => r.load image saved
  | .reset => some ⟨r.console.reset, .filled _ 0⟩
  | .step => r.step.map Prod.snd
  | .runFrame => r.runFrame.map Prod.snd
  | .copyPicture buffer => (r.copyPicture buffer).map fun _ => r
  | call => some { r with console := r.console.after call }

def afterAll (r : Rig) (calls : List Console.Call) : Option Rig := calls.foldlM after r

end Rig

theorem guards_simulates : Bus.Simulates Guards where
  read address g b h := by
    obtain ⟨sound, left, held⟩ := h
    have found : Bus.read address g = (b.read address, g) := by
      simp only [Bus.read, held, Option.bind_some, read_eq]
    rw [found]
    exact ⟨rfl, sound, left, held⟩
  write address byte g b h := by
    obtain ⟨sound, left, held⟩ := h
    have stored : Bus.write address byte g = ⟨some ⟨b.write address byte, left⟩⟩ := by
      simp only [Bus.write, held, Option.bind_eq_bind, Option.bind_some, write_eq, Option.pure_def]
    rw [stored]
    exact ⟨sound.write address byte, left, rfl⟩
  note event g b h := by
    obtain ⟨sound, left, held⟩ := h
    exact ⟨sound.note event, left, congrArg (Option.map _) held⟩
  tick cycles short g b h := by
    obtain ⟨sound, left, held⟩ := h
    obtain ⟨colors, ticked⟩ := @tick_eq ⟨b, left⟩ sound cycles short
    have passed : Bus.tick cycles g = ((b.tick cycles).1, ⟨some ⟨(b.tick cycles).2, colors⟩⟩) := by
      simp only [Bus.tick, held, Option.bind_some, ticked]
    rw [passed]
    exact ⟨rfl, sound.tick short, colors, rfl⟩

namespace Rig

variable {c : Console}

theorem step_eq (sound : c.board.Sound) (left : Block screenWidth) :
    ∃ colors, step ⟨c, left⟩ = some (c.step.1, ⟨c.step.2, colors⟩) := by
  have start : Machine.Related Guards (machine ⟨c, left⟩) c.machine := ⟨rfl, sound, left, rfl⟩
  obtain ⟨value, cpu, _, colors, held⟩ := start.step guards_simulates
  refine ⟨colors, ?_⟩
  simp only [step, Checked.step_eq, held, value, cpu, Option.bind_eq_bind, Option.bind_some]
  rfl

theorem continueFrame_of_error {r next : Rig} {fault : Fault} (elapsed : Nat)
    (stepped : r.step = some (.error fault, next)) :
    continueFrame elapsed r = some (.error fault, next) := by
  rw [continueFrame]
  split
  next failed => cases failed.symm.trans stepped
  next failed => cases failed.symm.trans stepped; rfl
  next failed => cases failed.symm.trans stepped

theorem continueFrame_of_ok {r next : Rig} {cycles : Nat} (elapsed : Nat)
    (stepped : r.step = some (.ok cycles, next)) :
    continueFrame elapsed r =
      if elapsed + cycles ≤ frameLimit then
        if next.console.endsFrame (elapsed + cycles) then
          some (.ok (elapsed + cycles), { next with console := next.console.clearFrame })
        else continueFrame (elapsed + cycles) next
      else some (.error .frameOverflow, next) := by
  rw [continueFrame]
  split
  next failed => cases failed.symm.trans stepped
  next failed => cases failed.symm.trans stepped
  next went => cases went.symm.trans stepped; rfl

theorem continueFrame_eq {elapsed : Nat} (sound : c.board.Sound) (left : Block screenWidth) :
    ∃ colors, continueFrame elapsed ⟨c, left⟩ =
      some ((c.continueFrame elapsed).1, ⟨(c.continueFrame elapsed).2, colors⟩) := by
  fun_induction Console.continueFrame elapsed c generalizing left with
  | case1 elapsed c fault next stepped =>
    obtain ⟨colors, passed⟩ := step_eq sound left
    rw [stepped] at passed
    exact ⟨colors, continueFrame_of_error elapsed passed⟩
  | case2 elapsed c cycles next stepped within ends =>
    obtain ⟨colors, passed⟩ := step_eq sound left
    rw [stepped] at passed
    refine ⟨colors, ?_⟩
    rw [continueFrame_of_ok elapsed passed, if_pos within, if_pos ends]
  | case3 elapsed c cycles next stepped within goesOn ih =>
    obtain ⟨colors, passed⟩ := step_eq sound left
    have kept := Console.step_keeps Board.sound_invariant sound
    rw [stepped] at passed kept
    obtain ⟨last, done⟩ := ih kept colors
    refine ⟨last, ?_⟩
    rw [continueFrame_of_ok elapsed passed, if_pos within, if_neg goesOn]
    exact done
  | case4 elapsed c cycles next stepped long =>
    obtain ⟨colors, passed⟩ := step_eq sound left
    rw [stepped] at passed
    refine ⟨colors, ?_⟩
    rw [continueFrame_of_ok elapsed passed, if_neg long]

theorem runFrame_eq (sound : c.board.Sound) (left : Block screenWidth) :
    ∃ colors, runFrame ⟨c, left⟩ = some (c.runFrame.1, ⟨c.runFrame.2, colors⟩) :=
  continueFrame_eq (c := c.clearFrame) sound.clearFrame left

theorem copyPicture_eq (r : Rig) (buffer : ByteArray) :
    r.copyPicture buffer = some (r.console.copyPicture buffer) := by
  let gray (i : Nat) : UInt8 :=
    if h : i / 3 < screenWidth * screenHeight then r.console.board.lcd.picture.get ⟨i / 3, h⟩ else 0
  have inside : 0 + 3 * min (buffer.size / 3) (screenWidth * screenHeight) ≤ buffer.size := by omega
  rw [copyPicture, ascending_set gray 0 _ inside, Option.bind_eq_bind, Option.bind_some]
  · have whole :
        (Block.patch ⟨buffer, rfl⟩ 0 (0 + 3 * min (buffer.size / 3) (screenWidth * screenHeight)) gray) =
          Block.ofFn fun i : Fin buffer.size =>
            if h : i.val / 3 < screenWidth * screenHeight ∧ i.val / 3 < buffer.size / 3 then
              r.console.board.lcd.picture.get ⟨i.val / 3, h.1⟩
            else buffer[i] := by
      apply Block.ext_get
      intro i
      rw [Block.get_patch, Block.get_ofFn]
      by_cases both : i.val / 3 < screenWidth * screenHeight ∧ i.val / 3 < buffer.size / 3
      · rw [if_pos (by omega), dif_pos both]
        exact dif_pos both.1
      · rw [if_neg (by omega), dif_neg both]
        rfl
    rw [whole]
    rfl
  · intro i target _ low
    have pixel : i / 3 < screenWidth * screenHeight := by omega
    rw [copyPicture.copyByte, slot_eq pixel, slot_eq (by omega)]
    simp only [gray, dif_pos pixel]
    rfl

theorem after_eq (sound : c.board.Sound) (left : Block screenWidth) (call : Console.Call) :
    ∃ colors, after ⟨c, left⟩ call = some ⟨c.after call, colors⟩ := by
  cases call with
  | load image saved =>
    refine ⟨left, ?_⟩
    simp only [after, load, load_eq, Option.bind_eq_bind, Option.bind_some]
    rfl
  | reset => exact ⟨.filled _ 0, rfl⟩
  | step =>
    obtain ⟨colors, passed⟩ := step_eq sound left
    exact ⟨colors, by rw [after, passed]; rfl⟩
  | runFrame =>
    obtain ⟨colors, passed⟩ := runFrame_eq sound left
    exact ⟨colors, by rw [after, passed]; rfl⟩
  | copyPicture buffer =>
    refine ⟨left, ?_⟩
    rw [after, copyPicture_eq]
    rfl
  | press | release | keep | save => exact ⟨left, rfl⟩

theorem afterAll_eq (sound : c.board.Sound) (left : Block screenWidth) (calls : List Console.Call) :
    ∃ colors, afterAll ⟨c, left⟩ calls = some ⟨c.afterAll calls, colors⟩ := by
  induction calls generalizing c left with
  | nil => exact ⟨left, rfl⟩
  | cons call rest ih =>
    obtain ⟨colors, passed⟩ := after_eq sound left call
    obtain ⟨last, done⟩ := ih (Console.sound_after sound call) colors
    refine ⟨last, ?_⟩
    rw [afterAll, List.foldlM_cons, passed]
    exact done

end Rig
end DotMatrix.Checked

namespace DotMatrix.Console

/-- Whatever is called and whatever runs, every check on the way is passed, and after it every check of an
access to any address. A step meets an opcode that means nothing exactly if it starts there, which a
byte CB at PC rules out, and nothing else fails but the count of the timer or of a frame. -/
theorem every_check_passes (journal : Journal) (calls : List Call) :
    let console := (postBoot journal).afterAll calls
    (∃ left, (Checked.Rig.boot journal).afterAll calls = some ⟨console, left⟩) ∧
    (∀ address, Checked.read console.board address = some (console.board.read address)) ∧
    (∀ address value,
      Checked.write address value console.board = some (console.board.write address value)) ∧
    (∀ opcode address, console.step.1 = .error (.unknownInstruction opcode address) ↔
      console.Stuck ∧ console.stuckFault = .unknownInstruction opcode address) ∧
    (console.board.read console.machine.cpu.registers.pc = 0xCB →
      ∀ opcode address, console.step.1 ≠ .error (.unknownInstruction opcode address)) ∧
    (∀ fault rest, console.step = (.error fault, rest) → rest.Explains fault) ∧
    (∀ fault rest, console.runFrame = (.error fault, rest) →
      fault = .frameOverflow ∨ rest.Explains fault) := by
  intro console
  have sound : console.board.Sound := sound_afterAll (sound_postBoot journal) calls
  refine ⟨?_, Checked.read_eq _, fun address value => Checked.write_eq address value _,
    fun _ _ => step_unknown_iff sound, ?_, fun _ _ => explains_of_step sound,
    fun _ _ => explains_of_runFrame sound⟩
  · exact Checked.Rig.afterAll_eq (sound_postBoot journal) (.filled _ 0) calls
  · intro escapes opcode address failed
    have unknown := ((step_unknown_iff sound).mp failed).1.unknown
    rw [escapes] at unknown
    exact absurd unknown (by decide)

end DotMatrix.Console
