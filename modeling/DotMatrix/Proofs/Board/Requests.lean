import DotMatrix.Proofs.Board.Soundness
import DotMatrix.Proofs.Bus.Traffic

/-!
Where interrupt requests come from. A write raises one by starting a transfer over the link, and a batch of
cycles raises those that the timer and the LCD ask for. Nothing takes a request back but a write to the
requests themselves.
-/

namespace DotMatrix

namespace Access

/-- The requests that an access raises: a transfer ends as soon as a write has started it. -/
def raised : Access → UInt8
  | write address byte =>
    if address = 0xFF02 ∧ SerialLink.startsTransfer byte then Interrupt.serial.mask else 0
  | _ => 0

def raisedIn (seen : List Access) : UInt8 := seen.foldl (fun requests access => requests ||| access.raised) 0

theorem raisedIn_concat (seen : List Access) (access : Access) :
    raisedIn (seen ++ [access]) = raisedIn seen ||| access.raised := by
  rw [raisedIn, List.foldl_append]
  rfl

end Access

namespace Board

variable {b after : Board}

/-- The requests that a batch raises: that of a counter that has wrapped before, that of a blank that begins
within the batch, and that of the status. -/
def raisedBy (cycles : Nat) (b : Board) : UInt8 :=
  if cycles = 0 then 0
  else
    let asked := (b.lcd.advance (Countdown.batch cycles)).1
    (if b.timer.overflowed then Interrupt.timer.mask else 0)
      ||| (if asked.vblank then Interrupt.vblank.mask else 0)
      ||| (if asked.stat.isSome then Interrupt.stat.mask else 0)

def withdraw (source : Interrupt) (b : Board) : Board := { b with requests := b.requests &&& ~~~source.mask }

theorem write_linkControl (value : UInt8) (b : Board) : b.write 0xFF02 value = b.writeLinkControl value := by
  have place : Region.ofAddress 0xFF02 = .register .linkControl := by decide +kernel
  rw [write, place]
  rfl

theorem write_requests (value : UInt8) (b : Board) :
    b.write 0xFF0F value = { b with requests := value &&& 0x1F } := by
  have place : Region.ofAddress 0xFF0F = .register .requests := by decide +kernel
  rw [write, place]
  rfl

theorem read_requests (b : Board) : b.read 0xFF0F = b.requests ||| 0xE0 := by
  have place : Region.ofAddress 0xFF0F = .register .requests := by decide +kernel
  rw [read, place]
  rfl

theorem read_enables (b : Board) : b.read 0xFFFF = b.enables := by
  have place : Region.ofAddress 0xFFFF = .enables := by decide +kernel
  rw [read, place]
  rfl

/-- A write elsewhere only adds the request that it raises. -/
theorem requests_write {address : UInt16} (elsewhere : address ≠ 0xFF0F) (value : UInt8) (b : Board) :
    (b.write address value).requests = b.requests ||| (Access.write address value).raised := by
  by_cases starts : address = 0xFF02 ∧ SerialLink.startsTransfer value
  · have raised : (Access.write address value).raised = Interrupt.serial.mask := if_pos starts
    obtain ⟨rfl, transfers⟩ := starts
    rw [raised, write_linkControl]
    simp only [writeLinkControl, transfers, if_true]
    rfl
  · have none : (Access.write address value).raised = 0 := if_neg starts
    rw [none, UInt8.or_zero]
    have outcome := b.write_outcome address value
    generalize b.write address value = written at outcome ⊢
    cases outcome with
    | requests => exact absurd rfl elsewhere
    | linkControl =>
      simp only [writeLinkControl]
      rw [if_neg fun transfers => starts ⟨rfl, transfers⟩]
    | lcdControl _ _ requests => exact requests
    | other same => exact same.requests
    | _ => rfl

theorem requests_advanceTimer (cycles : Int) (b : Board) :
    (b.advanceTimer cycles).requests =
      b.requests ||| if b.timer.overflowed then Interrupt.timer.mask else 0 := by
  by_cases wrapped : b.timer.overflowed
  · have asked : b.timer.requestsInterrupt := wrapped
    simp only [advanceTimer, if_pos asked, if_pos wrapped]
    rfl
  · have spared : ¬b.timer.requestsInterrupt := wrapped
    simp only [advanceTimer, if_neg spared, if_neg wrapped, UInt8.or_zero]

theorem requests_advanceLcd (cycles : Int) (b : Board) :
    (b.advanceLcd cycles).requests =
      b.requests ||| (if (b.lcd.advance cycles).1.vblank then Interrupt.vblank.mask else 0)
        ||| (if (b.lcd.advance cycles).1.stat.isSome then Interrupt.stat.mask else 0) := by
  simp only [advanceLcd]
  generalize (b.lcd.advance cycles).1 = asked
  obtain ⟨blank, stat⟩ := asked
  cases blank <;> cases stat <;> simp [request, note]

/-- A batch only adds the requests that it raises. -/
theorem requests_tick {cycles : Nat} (taken : b.tick cycles = (.ok (), after)) :
    after.requests = b.requests ||| b.raisedBy cycles := by
  simp only [Board.tick] at taken
  split at taken
  next none =>
    cases taken
    rw [raisedBy, if_pos none, UInt8.or_zero]
  next some =>
    split at taken
    next =>
      cases taken
      rw [requests_advanceLcd, requests_advanceTimer, lcd_advanceTimer, raisedBy, if_neg some]
      simp only [UInt8.or_assoc]
    next => cases taken

/-- As long as no access writes the requests, they are those of the start and those that accesses raise. -/
def Gathers (start : UInt8) (w : Watched Board) : Prop :=
  Spares [0xFF0F] w.seen → w.bus.requests = start ||| Access.raisedIn w.seen

theorem gathers_invariant (start : UInt8) : Bus.AccessInvariant (Gathers start) where
  read _ _ h := h
  write address byte w h spares := by
    have before := h (spares_append.mp spares).1
    change (w.bus.write address byte).requests = _ ||| Access.raisedIn (w.seen ++ [_])
    rw [requests_write (spares.ne 0xFF0F (by decide)), before, Access.raisedIn_concat, UInt8.or_assoc]
  note event w h spares := by
    have before := h (spares_append.mp spares).1
    change w.bus.requests = _ ||| Access.raisedIn (w.seen ++ [_])
    rw [Access.raisedIn_concat, before]
    exact congrArg (start ||| ·) UInt8.or_zero.symm

end Board
end DotMatrix
