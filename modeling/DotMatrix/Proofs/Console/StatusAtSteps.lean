import DotMatrix.Proofs.Board.History
import DotMatrix.Proofs.Console.Interrupts
import DotMatrix.Proofs.Console.Operations
import DotMatrix.Proofs.Console.Redrawing
import DotMatrix.Proofs.Lcd.Status

/-!
The status of the LCD at the ends of steps. Within a step a program may leave the status behind its place, by
writing to the line, to the line compared with or to the control; the batch of cycles that ends the step sets it
right again. Only a step of a stopped processor has no batch, and it leaves the LCD as the step before did.
-/

namespace DotMatrix

namespace History

def lastStatus : History → UInt8 := last (fun write _ => write.address == 0xFF41) id 0

end History

namespace Board

variable {b : Board} {history : History}

def Selects (history : History) (b : Board) : Prop := b.lcd.status &&& 0x78 = history.lastStatus &&& 0x78

theorem write_status (value : UInt8) (b : Board) :
    b.write 0xFF41 value = { b with lcd := b.lcd.writeStatus value } := by
  have place : Region.ofAddress 0xFF41 = .register .lcdStatus := by decide +kernel
  rw [write, place]
  rfl

theorem selects_writeStatus (value : UInt8) (lcd : Lcd) : (lcd.writeStatus value).status &&& 0x78 = value &&& 0x78 := by
  calc
    (lcd.status &&& 0x87 ||| value &&& 0x78) &&& 0x78
    _ = (lcd.status &&& 0x87) &&& 0x78 ||| (value &&& 0x78) &&& 0x78 := Byte.or_and ..
    _ = lcd.status &&& (0x87 &&& 0x78) ||| value &&& (0x78 &&& 0x78) := by rw [UInt8.and_assoc, UInt8.and_assoc]
    _ = lcd.status &&& 0 ||| value &&& 0x78 := rfl
    _ = value &&& 0x78 := by rw [UInt8.and_zero, UInt8.zero_or]

theorem selects_writeControl (value : UInt8) (lcd : Lcd) :
    (lcd.writeControl value).1.status &&& 0x78 = lcd.status &&& 0x78 := by
  unfold Lcd.writeControl
  split
  next => exact UInt8.and_assoc ..
  next => rfl
  next => rfl

theorem selects_write {address : UInt16} (elsewhere : address ≠ 0xFF41) (value : UInt8) (b : Board) :
    (b.write address value).lcd.status &&& 0x78 = b.lcd.status &&& 0x78 := by
  have outcome := b.write_outcome address value
  generalize b.write address value = after at outcome ⊢
  cases outcome with
  | lcdControl lcd => rw [lcd, selects_writeControl]
  | lcdStatus => exact absurd rfl elsewhere
  | linkControl =>
    simp only [writeLinkControl]
    split <;> rfl
  | other same => exact congrArg (·.status &&& 0x78) same.pace
  | _ => rfl

theorem selects_tick (cycles : Nat) (b : Board) :
    (b.tick cycles).2.lcd.status &&& 0x78 = b.lcd.status &&& 0x78 := by
  simp only [tick]
  split
  next => rfl
  next =>
    split
    next => rw [lcd_advanceLcd, lcd_advanceTimer, Lcd.selects_advance]
    next => rfl

theorem selects_law : Law Selects where
  note h _ _ _ := h
  press h _ := h
  release h _ := h
  clearFrame h := h
  tick h cycles := (selects_tick cycles _).trans h
  write := by
    intro history b h address value
    by_cases status : address = 0xFF41
    · subst status
      rw [Selects, write_status]
      exact selects_writeStatus value b.lcd
    · have kept : History.lastStatus (⟨address, value⟩ :: history) = history.lastStatus :=
        if_neg (by simpa using status)
      rw [Selects, selects_write status, kept]
      exact h

end Board

namespace Machine

variable {m next ready caught : Machine Board} {cycles : Nat}

/-- A batch that takes some time ends with a coherent status. -/
theorem coherent_of_tick (some : cycles ≠ 0) (short : cycles ≤ longestBatch)
    (ticked : ready.tick cycles = (.ok (), caught)) : caught.bus.lcd.Coherent := by
  have outcome := ready.bus.tick_outcome short
  rw [(bus_of_tick ticked).2] at outcome
  generalize caught.bus = after at outcome ⊢
  cases outcome with
  | nothing => exact absurd rfl some
  | taken _ lcd =>
    rw [lcd]
    exact Lcd.coherent_advance _ _

theorem lcd_of_stopped (stopped : m.cpu.stopped = true) (cpu : m.stepCpu = (.ok cycles, ready)) :
    ready.bus.lcd = m.bus.lcd := by
  have rests : m.stepCpu = (.ok 0, m.stepStopped) := if_pos stopped
  rw [rests] at cpu
  cases cpu
  simp only [stepStopped, pendingInterrupts_eq]
  split <;> rfl

/-- Every step ends with a coherent status, if the step of a processor that is already stopped starts with one. -/
theorem coherent_of_step (sound : m.bus.Sound) (before : m.cpu.stopped = true → m.bus.lcd.Coherent)
    (stepped : m.step = (.ok cycles, next)) : next.bus.lcd.Coherent := by
  have outcome := m.step_outcome
  rw [stepped] at outcome
  cases outcome with
  | served _ _ _ entry => exact coherent_of_tick (by decide) (by decide) entry
  | unserved cpu batch service =>
    have short := stepCpu_le (congrArg Prod.fst cpu)
    have kept := stepCpu_keeps Board.sound_invariant.toAccessInvariant sound
    rw [cpu] at kept
    have ticked := (bus_of_tick batch).2
    have bound := (kept.tick short).requests
    rw [ticked] at bound
    have served := serveInterrupt_service bound
    rw [service] at served
    cases served with
    | passes =>
      by_cases none : cycles = 0
      · -- Only a stopped processor takes no time, and then nothing has been written either.
        subst none
        cases stopped : m.cpu.stopped with
        | false => exact absurd (stepCpu_pos stopped (congrArg Prod.fst cpu)) (Nat.lt_irrefl 0)
        | true =>
          have same := (Prod.mk.inj ticked).2
          rw [← same, lcd_of_stopped stopped cpu]
          exact before stopped
      · exact coherent_of_tick none short batch

end Machine

namespace Console

structure StepEnd where
  console : Console
  writes : History

def frameEnds (elapsed : Nat) (c : Console) (history : History) : List StepEnd :=
  match _stepped : c.step with
  | (.error _, _) => []
  | (.ok cycles, next) =>
    let history := Access.record c.machine.traffic history
    ⟨next, history⟩ ::
      if elapsed + cycles ≤ frameLimit then
        if next.endsFrame (elapsed + cycles) then [] else frameEnds (elapsed + cycles) next history
      else []
termination_by frameBudget elapsed c
decreasing_by exact frameBudget_lt (pos_of_step _stepped) ‹_› ‹_›

def callEnds (c : Console) (history : History) : Call → List StepEnd
  | .step =>
    match c.step with
    | (.error _, _) => []
    | (.ok _, next) => [⟨next, Access.record c.machine.traffic history⟩]
  | .runFrame => frameEnds 0 c.clearFrame history
  | _ => []

def fails (c : Console) : Call → Bool
  | .step => !c.step.1.isOk
  | .runFrame => !c.runFrame.1.isOk
  | _ => false

/-- The ends of the steps of some calls, up to the call that fails if one does. -/
def stepEnds : List Call → Console → History → List StepEnd
  | [], _, _ => []
  | call :: rest, c, history =>
    c.callEnds history call ++
      if c.fails call then []
      else stepEnds rest (c.after call) (Access.record (c.accessesOf (.call call)) history)

/-- A step can begin: only a processor that runs may have left the status behind. -/
structure Prepared (history : History) (c : Console) : Prop where
  sound : c.board.Sound
  coherent : c.machine.cpu.stopped = true → c.board.lcd.Coherent
  selects : c.board.Selects history

structure Settled (e : StepEnd) : Prop where
  coherent : e.console.board.lcd.Coherent
  selects : e.console.board.Selects e.writes

variable {c next : Console} {history : History} {cycles elapsed : Nat}

theorem Prepared.step (h : Prepared history c) (stepped : c.step = (.ok cycles, next)) :
    next.board.lcd.Coherent ∧ Prepared (Access.record c.machine.traffic history) next := by
  have coherent := Machine.coherent_of_step h.sound h.coherent (machine_of_step stepped)
  have sound := step_keeps Board.sound_invariant h.sound
  have selects := Board.selects_law.consoleStep h.selects
  rw [stepped] at sound selects
  exact ⟨coherent, sound, fun _ => coherent, selects⟩

theorem Prepared.clearFrame (h : Prepared history c) : Prepared history c.clearFrame :=
  ⟨h.sound.clearFrame, h.coherent, h.selects⟩

theorem frameEnds_error {fault : Fault} (stepped : c.step = (.error fault, next)) :
    c.frameEnds elapsed history = [] := by
  rw [frameEnds]
  split
  next => rfl
  next other => cases stepped.symm.trans other

theorem frameEnds_ok (stepped : c.step = (.ok cycles, next)) :
    c.frameEnds elapsed history = ⟨next, Access.record c.machine.traffic history⟩ ::
      if elapsed + cycles ≤ frameLimit then
        if next.endsFrame (elapsed + cycles) then []
        else next.frameEnds (elapsed + cycles) (Access.record c.machine.traffic history)
      else [] := by
  rw [frameEnds]
  split
  next other => cases stepped.symm.trans other
  next other => cases stepped.symm.trans other; rfl

/-- Every step of a frame ends with the right status. -/
theorem Prepared.frameEnds (h : Prepared history c) : ∀ e ∈ c.frameEnds elapsed history, Settled e := by
  fun_induction Console.continueFrame elapsed c generalizing history with
  | case1 elapsed c fault next stepped =>
    rw [frameEnds_error stepped]
    exact List.forall_mem_nil _
  | case2 elapsed c cycles next stepped within ends =>
    obtain ⟨coherent, prepared⟩ := h.step stepped
    rw [frameEnds_ok stepped, if_pos within, if_pos ends, List.forall_mem_singleton]
    exact ⟨coherent, prepared.selects⟩
  | case3 elapsed c cycles next stepped within goesOn ih =>
    obtain ⟨coherent, prepared⟩ := h.step stepped
    rw [frameEnds_ok stepped, if_pos within, if_neg goesOn, List.forall_mem_cons]
    exact ⟨⟨coherent, prepared.selects⟩, ih prepared⟩
  | case4 elapsed c cycles next stepped beyond =>
    obtain ⟨coherent, prepared⟩ := h.step stepped
    rw [frameEnds_ok stepped, if_neg beyond, List.forall_mem_singleton]
    exact ⟨coherent, prepared.selects⟩

theorem Prepared.continueFrame (h : Prepared history c) (done : (c.continueFrame elapsed).1.isOk = true) :
    (c.continueFrame elapsed).2.board.lcd.Coherent := by
  fun_induction Console.continueFrame elapsed c generalizing history with
  | case1 | case4 => cases done
  | case2 elapsed c cycles next stepped => exact (h.step stepped).1
  | case3 elapsed c cycles next stepped _ _ ih => exact ih (h.step stepped).2 done

theorem Prepared.callEnds (h : Prepared history c) (call : Call) : ∀ e ∈ c.callEnds history call, Settled e := by
  cases call with
  | runFrame => exact h.clearFrame.frameEnds
  | step =>
    simp only [Console.callEnds]
    split
    next => exact List.forall_mem_nil _
    next stepped =>
      obtain ⟨coherent, prepared⟩ := h.step stepped
      rw [List.forall_mem_singleton]
      exact ⟨coherent, prepared.selects⟩
  | _ => exact List.forall_mem_nil _

theorem lcd_after {call : Call} (goesOn : call.goesOn = true) (other : call ≠ .step) (c : Console) :
    (c.after call).board.lcd = c.board.lcd ∧ (c.after call).machine.cpu = c.machine.cpu := by
  refine ⟨(after_repaint goesOn other c.board.lcd.picture c).2, ?_⟩
  cases call with
  | step => exact absurd rfl other
  | save =>
    obtain ⟨_, same⟩ := save_frame c
    rw [show c.after .save = _ from same]
    rfl
  | _ => first | rfl | cases goesOn

theorem Prepared.after (h : Prepared history c) {call : Call} (stays : call ≠ .reset) (through : c.fails call = false) :
    Prepared (Access.record (c.accessesOf (.call call)) history) (c.after call) := by
  have sound := sound_after h.sound call
  by_cases frame : call = .runFrame
  · subst frame
    have done : c.runFrame.1.isOk = true := by simpa [fails] using through
    have coherent := h.clearFrame.continueFrame done
    exact ⟨sound, fun _ => coherent, Board.selects_law.runFrame h.selects⟩
  by_cases single : call = .step
  · subst single
    generalize stepped : c.step = x at through
    obtain ⟨result, next⟩ := x
    cases result with
    | error fault => simp [fails, stepped, Except.isOk, Except.toBool] at through
    | ok cycles =>
      change Prepared (Access.record c.machine.traffic history) c.step.2
      rw [stepped]
      exact (h.step stepped).2
  · have goesOn : call.goesOn = true := by
      cases call with
      | reset => exact absurd rfl stays
      | runFrame => exact absurd rfl frame
      | _ => rfl
    have silent : c.accessesOf (.call call) = [] := by
      cases call with
      | step => exact absurd rfl single
      | runFrame => exact absurd rfl frame
      | _ => rfl
    obtain ⟨lcd, cpu⟩ := lcd_after goesOn single c
    rw [silent]
    refine ⟨sound, ?_, ?_⟩
    · rw [lcd, cpu]
      exact h.coherent
    · exact (congrArg (fun lcd : Lcd => lcd.status &&& 0x78) lcd).trans h.selects

theorem Prepared.stepEnds (h : Prepared history c) {calls : List Call} (stay : ∀ call ∈ calls, call ≠ .reset) :
    ∀ e ∈ c.stepEnds calls history, Settled e := by
  induction calls generalizing c history with
  | nil => exact List.forall_mem_nil _
  | cons call rest ih =>
    obtain ⟨here, later⟩ := List.forall_mem_cons.mp stay
    rw [Console.stepEnds]
    refine List.forall_mem_append.mpr ⟨h.callEnds call, ?_⟩
    cases fails : c.fails call with
    | true => exact List.forall_mem_nil _
    | false => exact ih (h.after here fails) later

theorem prepared_postBoot (journal : Journal) (keeper : Bool) :
    Prepared [] { postBoot journal with hasKeeper := keeper } where
  sound := Board.sound_postBoot journal
  coherent stopped := by cases stopped
  selects := by
    change (0x85 : UInt8) &&& 0x78 = 0 &&& 0x78
    decide

/-- From the boot or a reset on, the status is right at the end of every step, those inside of frames included. If
the LCD is on there, the lowest two bits are the mode of the line and the countdown, bit 2 tells whether the line is
the one compared with, and bits 3 to 6 are those of the last write to the status, whatever the programs that ran
have written, and where. -/
theorem status_right_at_step_ends (journal : Journal) (keeper : Bool) (calls : List Call)
    (stay : ∀ call ∈ calls, call ≠ .reset) :
    ∀ e ∈ stepEnds calls { postBoot journal with hasKeeper := keeper } [],
      let lcd := e.console.board.lcd
      Byte.has lcd.control 0x80 = true →
        lcd.status &&& 0x03 = (if 144 ≤ lcd.line.toNat then 1 else if 376 < lcd.countdown then 2
          else if 204 < lcd.countdown then 3 else 0) ∧
        (Byte.has lcd.status 0x04 = true ↔ lcd.line = lcd.lineCompare) ∧
        lcd.status &&& 0x78 = e.writes.lastStatus &&& 0x78 := by
  intro e listed lcd on
  obtain ⟨coherent, selects⟩ := (prepared_postBoot journal keeper).stepEnds stay e listed
  obtain ⟨mode, coincidence⟩ := coherent on
  refine ⟨?_, ?_, selects⟩
  · exact mode.trans (Lcd.number_modeAt _ _)
  · rw [coincidence, Lcd.coincides, beq_iff_eq]

/-- The boot leaves the mode of the vertical blank behind, and the first step sets it right: line 0 begins with mode
2, and it is the line compared with. -/
theorem status_right_after_boot_step :
    let first := (postBoot {}).step.2
    let writes := Access.record (postBoot {}).machine.traffic []
    (∀ call ∈ [Call.step], call ≠ .reset) ∧
    ⟨first, writes⟩ ∈ stepEnds [.step] { postBoot {} with hasKeeper := false } [] ∧
    Byte.has first.board.lcd.control 0x80 = true ∧
    (postBoot {}).board.lcd.status &&& 0x03 = 1 ∧ first.board.lcd.status &&& 0x03 = 2 ∧
    Byte.has first.board.lcd.status 0x04 = true ∧
    first.board.lcd.status &&& 0x78 = writes.lastStatus &&& 0x78 := by
  intro first writes
  have stay : ∀ call ∈ [Call.step], call ≠ .reset := by simp
  have ended : ⟨first, writes⟩ ∈ stepEnds [.step] { postBoot {} with hasKeeper := false } [] :=
    List.mem_singleton_self _
  have on : Byte.has first.board.lcd.control 0x80 = true := by decide +kernel
  have same : first.board.lcd.line = first.board.lcd.lineCompare := by decide +kernel
  obtain ⟨mode, coincidence, selects⟩ := status_right_at_step_ends {} false [.step] stay _ ended on
  exact ⟨stay, ended, on, rfl, mode.trans (by decide +kernel), coincidence.mpr same, selects⟩

end Console

end DotMatrix
