import DotMatrix.Countdown
import DotMatrix.Word

/-!
The timer. The divider counts every 256 cycles; the counter counts at a chosen rate while it is
enabled, and starts over from the modulo after it wraps. Both are driven by batches of cycles.
-/

namespace DotMatrix

structure Timer where
  divider : UInt8
  counter : UInt8
  modulo : UInt8
  /-- The lower three bits: bit 2 enables the counter, bits 0 and 1 choose its rate. -/
  control : UInt8
  /-- Cycles left until the divider counts. -/
  dividerCountdown : Int
  /-- Cycles left until the counter counts. -/
  counterCountdown : Int
  /-- The counter has wrapped; the next batch reloads it and requests the interrupt. -/
  overflowed : Bool

namespace Timer

def dividerPeriod : Nat := 256

def period (control : UInt8) : Nat :=
  match control.toNat % 4 with
  | 0 => 1024
  | 1 => 16
  | 2 => 64
  | _ => 256

theorem period_pos (control : UInt8) : 0 < period control := by
  unfold period
  split <;> decide

def postBoot : Timer where
  divider := 0xAB
  counter := 0
  modulo := 0
  control := 0
  dividerCountdown := dividerPeriod
  counterCountdown := period 0
  overflowed := false

def enabled (t : Timer) : Bool := Byte.has t.control 0x04

/-- The unused bits read as ones. -/
def readControl (t : Timer) : UInt8 := t.control ||| 0xF8

/-- Any write to the divider clears it. -/
def clearDivider (t : Timer) : Timer := { t with divider := 0, dividerCountdown := dividerPeriod }

/-- A new rate starts a new period. -/
def writeControl (value : UInt8) (t : Timer) : Timer :=
  let control := value &&& 0x07
  { t with
    control
    counterCountdown := if period control = period t.control then t.counterCountdown else period control }

/-- How often a countdown has to be wound up by a period to be positive again. -/
def periodsDue (countdown : Int) (period : Nat) : Nat :=
  if 0 < countdown then 0 else (-countdown / period).toNat + 1

theorem periodsDue_of_running {countdown : Int} (running : 0 < countdown) (period : Nat) :
    periodsDue countdown period = 0 := if_pos running

/-- A spent countdown is wound up to between one cycle and one period. -/
theorem rewound_bounds {countdown : Int} {period : Nat} (positive : 0 < period) (spent : countdown ≤ 0) :
    0 < countdown + periodsDue countdown period * period ∧
      countdown + periodsDue countdown period * period ≤ period := by
  have quotient := Int.mul_ediv_add_emod (-countdown) period
  have low := Int.emod_nonneg (-countdown) (show (period : Int) ≠ 0 by omega)
  have high := Int.emod_lt_of_pos (-countdown) (show (0 : Int) < period by omega)
  have whole : 0 ≤ -countdown / (period : Int) := Int.ediv_nonneg (by omega) (by omega)
  rw [periodsDue, if_neg (by omega), Int.natCast_add, Int.toNat_of_nonneg whole, Int.add_mul,
    Int.mul_comm (-countdown / (period : Int))]
  omega

def reload (t : Timer) : Timer :=
  if t.overflowed then { t with overflowed := false, counter := t.modulo } else t

def advanceDivider (cycles : Int) (t : Timer) : Timer :=
  let countdown := t.dividerCountdown - cycles
  let due := periodsDue countdown dividerPeriod
  { t with
    dividerCountdown := countdown + due * dividerPeriod
    divider := t.divider + UInt8.ofNat due }

/-- Counting stops at an overflow; what is still due is left in the countdown. -/
def advanceCounter (cycles : Int) (t : Timer) : Timer :=
  if t.enabled then
    let countdown := t.counterCountdown - cycles
    let room := 256 - t.counter.toNat
    let counts := min (periodsDue countdown (period t.control)) room
    { t with
      counterCountdown := countdown + counts * period t.control
      counter := t.counter + UInt8.ofNat counts
      overflowed := counts = room }
  else t

/-- No count leaves its range in a batch. A counter that is not enabled does not count. -/
def admits (cycles : Int) (t : Timer) : Bool :=
  Countdown.admits t.dividerCountdown cycles
    && (!t.enabled || Countdown.admits t.counterCountdown cycles)

/-- A batch of cycles. An overflow in the batch before is settled first. -/
def advance (cycles : Int) (t : Timer) : Timer :=
  (t.reload.advanceDivider cycles).advanceCounter cycles

def requestsInterrupt (t : Timer) : Bool := t.overflowed

end Timer

end DotMatrix
