import DotMatrix.Proofs.Board.Repainting
import DotMatrix.Proofs.Console.Programs

/-!
What a run up to a vertical blank draws. A run that starts in the blank before draws the whole picture, whatever
was there. A run that starts at a visible line draws the rows below that line only: a line is drawn when the LCD
comes to it from the line before, so the first picture after the power or the LCD is switched on lacks its first
row.
-/

namespace DotMatrix

namespace Console

def repaint (picture : Picture) (c : Console) : Console := c.mapBoard (·.repaint picture)

/-- The call neither starts over nor takes the flag of the vertical blank back. -/
def Call.goesOn : Call → Bool
  | .reset | .runFrame => false
  | _ => true

def trafficOfCalls : List Call → Console → List Access
  | [], _ => []
  | call :: rest, c =>
    (match call with
      | .step => c.machine.traffic
      | _ => []) ++ trafficOfCalls rest (c.after call)

theorem trafficOfCalls_append (first second : List Call) (c : Console) :
    trafficOfCalls (first ++ second) c = trafficOfCalls first c ++ trafficOfCalls second (c.afterAll first) := by
  induction first generalizing c with
  | nil => rfl
  | cons call rest ih =>
    simp only [List.cons_append, trafficOfCalls, ih, List.append_assoc]
    rfl

theorem afterAll_append (first second : List Call) (c : Console) :
    c.afterAll (first ++ second) = (c.afterAll first).afterAll second :=
  List.foldl_append

/-- Some calls and a last step lead to the next vertical blank, and the LCD stays on and is left to itself. -/
structure Delivers (c : Console) (calls : List Call) (last : Console) : Prop where
  goesOn : ∀ call ∈ calls, call.goesOn = true
  waiting : (c.afterAll calls).frameReady = false
  stepped : ∃ cycles, (c.afterAll calls).step = (.ok cycles, last)
  ready : last.frameReady = true
  steady : Steady (c.trafficOfCalls (calls ++ [.step]))

variable {c d last : Console} {calls : List Call} {start : Lcd} {picture : Picture} {base : List Access}

theorem load_repaint (image : ByteArray) (saved : Option ByteArray) (picture : Picture) (b : Board) :
    ((b.repaint picture).load image saved).2 = (b.load image saved).2.repaint picture := by
  have noted : ∀ (remarks : List CartridgeEvent) (b : Board),
      remarks.foldl (fun b event => b.note event) (b.repaint picture) =
        (remarks.foldl (fun b event => b.note event) b).repaint picture := by
    intro remarks
    induction remarks with
    | nil => exact fun _ => rfl
    | cons event rest ih => exact fun b => ih (b.note event)
  unfold Board.load
  split
  next => rfl
  next header _ =>
    exact congrArg (Board.note (BoardEvent.runsAs header.model)) (noted (Cartridge.remarks header image saved)
      { b with cartridge := some (Cartridge.build header image saved), model := header.model })

theorem lcd_load (image : ByteArray) (saved : Option ByteArray) (b : Board) :
    (b.load image saved).2.lcd = b.lcd := by
  obtain ⟨_, _, _, same⟩ := b.load_frame image saved
  rw [same]

theorem eq_repaint (cpu : c.machine.cpu = d.machine.cpu) (board : d.board = c.board.repaint picture)
    (keeper : d.hasKeeper = c.hasKeeper) : d = c.repaint picture := by
  obtain ⟨⟨_, _⟩, _⟩ := c
  obtain ⟨⟨_, _⟩, _⟩ := d
  cases cpu
  cases board
  cases keeper
  rfl

/-- No call but a frame and a step tells consoles apart that differ in their pictures only. -/
theorem after_repaint {call : Call} (goesOn : call.goesOn = true) (other : call ≠ .step) (picture : Picture)
    (c : Console) :
    (c.repaint picture).after call = (c.after call).repaint picture ∧ (c.after call).board.lcd = c.board.lcd := by
  cases call with
  | reset | runFrame => cases goesOn
  | step => exact absurd rfl other
  | load image saved =>
    exact ⟨eq_repaint rfl (load_repaint image saved picture c.board) rfl, lcd_load image saved c.board⟩
  | save =>
    simp only [after, save]
    rw [show (c.repaint picture).hasKeeper = c.hasKeeper from rfl,
      show (c.repaint picture).board.cartridgeRam = c.board.cartridgeRam from rfl]
    split
    next =>
      split
      next => split <;> exact ⟨rfl, rfl⟩
      next => exact ⟨rfl, rfl⟩
    next => exact ⟨rfl, rfl⟩
  | _ => exact ⟨rfl, rfl⟩

structure Together (start : Lcd) (picture : Picture) (base : List Access) (c d : Console) : Prop where
  sound : c.board.Sound
  same : d = c.repaint d.board.lcd.picture
  course : Steady base → start.Course picture (Access.total base) c.board.lcd d.board.lcd.picture

theorem Together.step (h : Together start picture base c d) :
    Together start picture (base ++ c.machine.traffic) c.step.2 d.step.2 := by
  have boards : Board.Redraws start picture base ⟨c.board, []⟩ ⟨d.board, []⟩ := by
    refine ⟨h.sound, congrArg Console.board h.same, ?_⟩
    rw [List.append_nil]
    exact h.course
  have cpu : c.machine.cpu = d.machine.cpu := by
    rw [h.same]
    rfl
  have related : Machine.Related (Board.Redraws start picture base) c.machine.watch d.machine.watch := ⟨cpu, boards⟩
  obtain ⟨_, rest⟩ := related.step (Board.redraws_simulates start picture base)
  rw [Machine.watch_step, Machine.watch_step] at rest
  have keeper : d.hasKeeper = c.hasKeeper := by
    rw [h.same]
    rfl
  exact ⟨rest.bus.sound, eq_repaint rest.cpu rest.bus.same keeper, rest.bus.course⟩

theorem Together.after {call : Call} (goesOn : call.goesOn = true) (h : Together start picture base c d) :
    Together start picture (base ++ trafficOfCalls [call] c) (c.after call) (d.after call) := by
  by_cases step : call = .step
  · subst step
    simp only [trafficOfCalls, List.append_nil]
    exact h.step
  · obtain ⟨same, lcd⟩ := after_repaint goesOn step d.board.lcd.picture c
    rw [← h.same] at same
    have none : trafficOfCalls [call] c = [] := by
      cases call with
      | step => exact absurd rfl step
      | _ => rfl
    rw [none, List.append_nil]
    refine ⟨sound_after h.sound call, ?_, ?_⟩
    · rw [same]
      rfl
    · rw [same, lcd]
      exact h.course

theorem Together.afterAll (goesOn : ∀ call ∈ calls, call.goesOn = true) (h : Together start picture base c d) :
    Together start picture (base ++ trafficOfCalls calls c) (c.afterAll calls) (d.afterAll calls) := by
  induction calls generalizing base c d with
  | nil =>
    rw [trafficOfCalls, List.append_nil]
    exact h
  | cons call rest ih =>
    obtain ⟨here, later⟩ := List.forall_mem_cons.mp goesOn
    have whole : trafficOfCalls (call :: rest) c = trafficOfCalls [call] c ++ trafficOfCalls rest (c.after call) :=
      trafficOfCalls_append [call] rest c
    rw [whole, ← List.append_assoc]
    exact ih later (h.after here)

/-- A line is drawn on the way to the blank if the run has started in the blank before or above the line. -/
def Draws (c : Console) (y : Fin screenHeight) : Prop :=
  screenHeight ≤ c.board.lcd.line.toNat ∨ c.board.lcd.line.toNat < y.val

theorem Delivers.rows (sound : c.board.Sound) (on : c.board.lcd.pace.enabled = true)
    (run : c.clearFrame.Delivers calls last) (picture : Picture) :
    ∃ shown : Picture, (c.repaint picture).clearFrame.afterAll (calls ++ [.step]) = last.repaint shown ∧
      (∀ y, c.Draws y → shown.row y = Picture.row y last.board.lcd.picture) ∧
      (∀ y, ¬c.Draws y →
        Picture.row y last.board.lcd.picture = Picture.row y c.board.lcd.picture ∧ shown.row y = picture.row y) := by
  have start : Together c.clearFrame.board.lcd picture [] c.clearFrame (c.repaint picture).clearFrame :=
    ⟨sound.clearFrame, rfl, fun _ => Lcd.Course.refl on rfl⟩
  obtain ⟨cycles, stepped⟩ := run.stepped
  have moved := machine_of_step stepped
  have short : cycles ≤ longestBatch + Interrupt.dispatchCycles := Machine.step_le (congrArg Prod.fst moved)
  have counted : Access.total (c.clearFrame.afterAll calls).machine.traffic = cycles :=
    Machine.total_traffic (congrArg Prod.fst moved)
  have steady : Steady (trafficOfCalls calls c.clearFrame ++ (c.clearFrame.afterAll calls).machine.traffic) := by
    have whole := run.steady
    rw [trafficOfCalls_append] at whole
    simpa only [trafficOfCalls, List.append_nil] using whole
  have almost := start.afterAll run.goesOn
  have ended := almost.step
  rw [List.nil_append] at almost ended
  have before := almost.course (steady_append.mp steady).1
  have after := ended.course steady
  rw [stepped] at ended after
  have waits : ¬c.clearFrame.board.lcd.pace.Begins (Access.total (trafficOfCalls calls c.clearFrame)) screenHeight :=
    fun begun => absurd (run.waiting.symm.trans (before.reached.mpr begun)) (by decide)
  have soon : Access.total (trafficOfCalls calls c.clearFrame ++ (c.clearFrame.afterAll calls).machine.traffic) ≤
      Access.total (trafficOfCalls calls c.clearFrame) + Lcd.lineCycles := by
    rw [Access.total_append, counted]
    exact Nat.add_le_add_left (Nat.le_trans short (by decide)) _
  have begins := fun y : Fin screenHeight => Pace.begins_at_blank sound.clearFrame.lcd waits
    (after.reached.mp run.ready) soon y.isLt
  refine ⟨_, ?_, fun y drawn => after.drawn y ((begins y).mpr drawn),
    fun y kept => after.kept y fun begun => kept ((begins y).mp begun)⟩
  rw [afterAll_append]
  exact ended.same

theorem get_row_pixel (c : Console) (x : Fin screenWidth) (y : Fin screenHeight) :
    (Picture.row y c.board.lcd.picture).get x = c.pixel x y :=
  Picture.get_row y x c.board.lcd.picture

/-- A run from one vertical blank to the next draws the whole picture, whatever was there. A run that starts at a
visible line, such as the first one when the LCD has just been switched on, draws the rows below that line and leaves
the others as they were. -/
theorem frames_redrawn (reachable : c.Reachable) (on : c.board.lcd.enabled = true)
    (run : c.clearFrame.Delivers calls last) (picture : Picture) :
    let line := c.board.lcd.line.toNat
    let other := (c.repaint picture).clearFrame.afterAll (calls ++ [.step])
    (screenHeight ≤ line → other = last) ∧
    (line < screenHeight → (∃ shown, other = last.repaint shown) ∧
      ∀ (x : Fin screenWidth) (y : Fin screenHeight),
        (line < y.val → other.pixel x y = last.pixel x y) ∧
        (y.val ≤ line → last.pixel x y = c.pixel x y ∧ other.pixel x y = (c.repaint picture).pixel x y)) ∧
    ∀ (before : Console) (cycles : Nat), before.Reachable → before.board.lcd.enabled = false →
      before.step = (.ok cycles, c) → line = 0 := by
  intro line other
  obtain ⟨shown, same, drawn, kept⟩ := run.rows reachable.sound on picture
  have pixels : ∀ x y, other.pixel x y = (shown.row y).get x := by
    intro x y
    rw [show other = last.repaint shown from same, ← get_row_pixel]
    rfl
  refine ⟨?_, ?_, ?_⟩
  · intro dark
    have whole : shown = last.board.lcd.picture := Picture.ext_row fun y => drawn y (.inl dark)
    rw [show other = last.repaint shown from same, whole]
    rfl
  · intro visible
    refine ⟨⟨shown, same⟩, fun x y => ⟨fun below => ?_, fun above => ?_⟩⟩
    · rw [pixels, drawn y (.inr below), get_row_pixel]
    · obtain ⟨first, second⟩ := kept y (by unfold Draws; omega)
      rw [pixels, second, ← get_row_pixel last, first, get_row_pixel]
      exact ⟨rfl, get_row_pixel (c.repaint picture) x y⟩
  · intro before cycles met off stepped
    exact congrArg UInt8.toNat (Machine.line_of_dark_step met.sound off (machine_of_step stepped))

end Console

namespace Spinning

open Program (Runs Has image loaded)

def program : List UInt8 := [
  0x18, 0xFE]  -- JR -2

structure Spins (c : Console) : Prop where
  runs : Runs program 0x0100 c.machine
  off : c.board.timer.enabled = false

variable {c last : Console} {n : Nat}

theorem Spins.step (h : Spins c) (waiting : c.frameReady = false) :
    ∃ next, c.step = (.ok 12, next) ∧ Spins next ∧ Steady c.machine.traffic ∧
      ((next.frameReady = false ∧ next.board.lcd.pace.untilBlank = c.board.lcd.pace.untilBlank - 12) ∨
        (next.frameReady = true ∧
          next.board.lcd.pace.untilBlank = c.board.lcd.pace.untilBlank - 12 + frameCycles)) := by
  obtain ⟨outcome, timer, _, quiet⟩ := h.runs.jumpBy
    (show Has program (0x0100 : UInt16).toNat [0x18, 0xFE] by decide)
  obtain ⟨next, passed⟩ := outcome.passed_of_off (by rw [timer]; exact h.off)
  obtain ⟨_, blank⟩ := Machine.blank_step h.runs.sound h.runs.on waiting passed.done quiet.spares
  exact ⟨{ c with machine := next }, Console.step_of_machine passed.done, ⟨passed.runs, passed.off⟩,
    quiet.spares.steady, blank⟩

theorem Spins.steps (h : Spins c) (waiting : c.frameReady = false) (far : 12 * n < c.board.lcd.pace.untilBlank) :
    let after := c.afterAll (List.replicate n .step)
    Spins after ∧ after.frameReady = false ∧
      after.board.lcd.pace.untilBlank = c.board.lcd.pace.untilBlank - 12 * n ∧
      Steady (c.trafficOfCalls (List.replicate n .step)) := by
  induction n generalizing c with
  | zero => exact ⟨h, waiting, by simp [Console.afterAll], by simp [Console.trafficOfCalls, Steady]⟩
  | succ n ih =>
    obtain ⟨next, done, spins, steady, blank⟩ := h.step waiting
    have soon := (Pace.untilBlank_bounds spins.runs.sound.lcd).2
    change next.board.lcd.pace.untilBlank ≤ frameCycles at soon
    have goesOn : next.frameReady = false ∧
        next.board.lcd.pace.untilBlank = c.board.lcd.pace.untilBlank - 12 := by
      rcases blank with goesOn | ⟨_, reached⟩
      · exact goesOn
      · omega
    obtain ⟨still, late⟩ := goesOn
    obtain ⟨ends, waits, distance, later⟩ := ih spins still (by omega)
    have first : c.after .step = next := congrArg Prod.snd done
    have rest : c.afterAll (List.replicate (n + 1) .step) = next.afterAll (List.replicate n .step) := by
      rw [← first]
      rfl
    have traffic : c.trafficOfCalls (List.replicate (n + 1) .step) =
        c.machine.traffic ++ next.trafficOfCalls (List.replicate n .step) := by
      rw [← first]
      rfl
    simp only [rest, traffic]
    exact ⟨ends, waits, by omega, steady_append.mpr ⟨steady, later⟩⟩

theorem Spins.delivers (h : Spins c) (waiting : c.frameReady = false) (far : 12 * n < c.board.lcd.pace.untilBlank)
    (near : c.board.lcd.pace.untilBlank ≤ 12 * (n + 1)) :
    ∃ last, c.Delivers (List.replicate n .step) last ∧ Spins last ∧
      last.board.lcd.pace.untilBlank = c.board.lcd.pace.untilBlank - 12 * (n + 1) + frameCycles := by
  obtain ⟨spins, waits, distance, steady⟩ := h.steps waiting far
  obtain ⟨last, done, ends, here, blank⟩ := spins.step waits
  have soon := (Pace.untilBlank_bounds ends.runs.sound.lcd).1
  change 0 < last.board.lcd.pace.untilBlank at soon
  have reached : last.frameReady = true ∧
      last.board.lcd.pace.untilBlank = c.board.lcd.pace.untilBlank - 12 * (n + 1) + frameCycles := by
    rcases blank with ⟨_, later⟩ | ⟨ready, later⟩
    · omega
    · exact ⟨ready, by omega⟩
  obtain ⟨ready, later⟩ := reached
  refine ⟨last, ⟨?_, waits, ⟨12, done⟩, ready, ?_⟩, ends, later⟩
  · intro call listed
    rw [List.eq_of_mem_replicate listed]
    rfl
  · rw [Console.trafficOfCalls_append]
    exact steady_append.mpr ⟨steady, by simpa only [Console.trafficOfCalls, List.append_nil] using here⟩

theorem Spins.clearFrame (h : Spins c) : Spins c.clearFrame := ⟨h.runs.clearFrame, h.off⟩

theorem untilBlank_postBoot : Lcd.postBoot.pace.untilBlank = 65664 := by decide

theorem Spins.two_frames (h : Spins c) (lcd : c.board.lcd = Lcd.postBoot) (reachable : c.Reachable) :
    ∃ (mid last : Console) (calls : List Console.Call), mid.Reachable ∧ mid.board.lcd.enabled = true ∧
      screenHeight ≤ mid.board.lcd.line.toNat ∧ mid.clearFrame.Delivers calls last := by
  have first : c.board.lcd.pace.untilBlank = 65664 := by rw [lcd, untilBlank_postBoot]
  have waiting : c.frameReady = false := congrArg Lcd.frameReady lcd
  obtain ⟨mid, run, spins, distance⟩ := h.delivers (n := 5471) waiting (by rw [first]; decide) (by rw [first]; decide)
  have whole : mid.board.lcd.pace.untilBlank = frameCycles := by
    rw [distance, first]
    decide
  obtain ⟨last, next, _⟩ := spins.clearFrame.delivers (n := 5851) rfl
    (by change _ < mid.board.lcd.pace.untilBlank; rw [whole]; decide)
    (by change mid.board.lcd.pace.untilBlank ≤ _; rw [whole]; decide)
  obtain ⟨cycles, stepped⟩ := run.stepped
  have met : mid.Reachable := by
    have after := (reachable.afterAll (List.replicate 5471 .step)).step
    rwa [stepped] at after
  have dark : screenHeight ≤ mid.board.lcd.pace.line.toNat := by
    have late : mid.board.lcd.pace.countdown ≤ Lcd.lineCycles := spins.runs.sound.lcd.le_line
    refine Nat.le_of_not_lt fun visible => ?_
    rw [Pace.untilBlank, if_pos visible, Pace.position] at whole
    simp only [frameCycles, Lcd.lineCycles, screenHeight] at whole late
    omega
  exact ⟨mid, last, List.replicate 5851 .step, met, spins.runs.on, dark, next⟩

theorem Spins.first_frame (h : Spins c) (lcd : c.board.lcd = Lcd.postBoot) :
    ∃ last, c.clearFrame.Delivers (List.replicate 5471 .step) last ∧ last.pixel 0 0 = Lcd.white ∧
      ∀ picture : Picture,
        ((c.repaint picture).clearFrame.afterAll (List.replicate 5471 .step ++ [.step])).pixel 0 0 =
          (c.repaint picture).pixel 0 0 := by
  have first : c.board.lcd.pace.untilBlank = 65664 := by rw [lcd, untilBlank_postBoot]
  obtain ⟨last, run, _⟩ := h.clearFrame.delivers (n := 5471) rfl
    (by change _ < c.board.lcd.pace.untilBlank; rw [first]; decide)
    (by change c.board.lcd.pace.untilBlank ≤ _; rw [first]; decide)
  have top : ¬c.Draws 0 := by
    unfold Console.Draws
    rw [lcd]
    decide
  refine ⟨last, run, ?_, fun picture => ?_⟩
  · obtain ⟨_, _, _, kept⟩ := run.rows h.runs.sound h.runs.on c.board.lcd.picture
    rw [← Console.get_row_pixel, (kept 0 top).1, Console.get_row_pixel, Console.pixel, lcd]
    exact Block.get_filled _ _
  · obtain ⟨shown, same, _, kept⟩ := run.rows h.runs.sound h.runs.on picture
    rw [same, ← Console.get_row_pixel, ← Console.get_row_pixel]
    exact congrArg (Block.get · 0) (kept 0 top).2

theorem spins_loaded : Spins (loaded (image program) {}) ∧ (loaded (image program) {}).board.lcd = Lcd.postBoot := by
  obtain ⟨runs, timer, lcd, _⟩ :=
    Program.runs_loaded (Program.parse_image (show program.length ≤ 0x43 by decide)) rfl {}
  refine ⟨⟨runs, ?_⟩, lcd⟩
  rw [timer]
  decide

end Spinning

namespace Console

open Program (image loaded)

theorem frames_redrawn_spinning : ∃ (c last : Console) (calls : List Call), c.Reachable ∧
    screenHeight ≤ c.board.lcd.line.toNat ∧ c.clearFrame.Delivers calls last ∧
    ∀ picture, (c.repaint picture).clearFrame.afterAll (calls ++ [.step]) = last := by
  obtain ⟨spins, lcd⟩ := Spinning.spins_loaded
  obtain ⟨c, last, calls, reachable, on, dark, run⟩ :=
    spins.two_frames lcd (Program.reachable_loaded (image Spinning.program) {})
  exact ⟨c, last, calls, reachable, dark, run, fun picture => (frames_redrawn reachable on run picture).1 dark⟩

/-- The first picture after the boot lacks its first row: the row shows what was there before. -/
theorem first_frame_lacks_row :
    let c := loaded (image Spinning.program) {}
    let calls := List.replicate 5471 Call.step
    let black : Picture := Block.filled _ 0
    c.Reachable ∧ c.board.lcd.enabled = true ∧ c.board.lcd.line = 0 ∧
      ∃ last, c.clearFrame.Delivers calls last ∧ last.pixel 0 0 = 0xFF ∧
        ((c.repaint black).clearFrame.afterAll (calls ++ [.step])).pixel 0 0 = 0 := by
  obtain ⟨spins, lcd⟩ := Spinning.spins_loaded
  obtain ⟨last, run, above, below⟩ := spins.first_frame lcd
  refine ⟨Program.reachable_loaded (image Spinning.program) {}, ?_, ?_, last, run, above, ?_⟩
  · rw [lcd]
    rfl
  · rw [lcd]
    rfl
  · exact (below (Block.filled _ 0)).trans (Block.get_filled _ _)

end Console
end DotMatrix
