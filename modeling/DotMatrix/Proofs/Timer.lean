import DotMatrix.Timer
import Mathlib.Algebra.Order.Ring.Int

/-!
The timer in time. The divider stays within a period of its next count, and every batch of cycles moves
it on by exactly its cycles. The counter is never further than a period from its next count, but it can
fall behind. Both count as if they made their counts one at a time.
-/

namespace DotMatrix.Timer

/-- The cycles that the divider has counted, up to the next time it wraps. -/
def dividerPosition (t : Timer) : Int := 256 * t.divider.toNat + (256 - t.dividerCountdown)

def longestPeriod : Nat := 1024

theorem period_le (control : UInt8) : period control ≤ longestPeriod := by
  unfold period
  split <;> decide

structure Sound (t : Timer) : Prop where
  divider_pos : 0 < t.dividerCountdown
  divider_le : t.dividerCountdown ≤ dividerPeriod
  counter_le : t.counterCountdown ≤ longestPeriod

variable {t : Timer} {cycles : Int}

theorem sound_postBoot : postBoot.Sound :=
  ⟨Int.natCast_pos.mpr (by decide), Int.le_refl _, by decide⟩

theorem Sound.clearDivider (h : t.Sound) : t.clearDivider.Sound :=
  ⟨Int.natCast_pos.mpr (by decide), Int.le_refl _, h.counter_le⟩

theorem Sound.writeControl (h : t.Sound) (value : UInt8) : (t.writeControl value).Sound := by
  refine ⟨h.divider_pos, h.divider_le, ?_⟩
  have bound := period_le (value &&& 0x07)
  simp only [Timer.writeControl]
  split
  next => exact h.counter_le
  next => omega

/-- Winding up by no more periods than are due stays within one period. -/
theorem rewound_le {countdown : Int} {period counts : Nat} (positive : 0 < period)
    (due : counts ≤ periodsDue countdown period) :
    countdown + counts * period ≤ max countdown period := by
  by_cases spent : countdown ≤ 0
  · obtain ⟨_, bound⟩ := rewound_bounds positive spent
    have fewer : (counts : Int) * period ≤ periodsDue countdown period * period :=
      Int.mul_le_mul_of_nonneg_right (Int.ofNat_le.mpr due) (Int.natCast_nonneg period)
    omega
  · rw [periodsDue_of_running (by omega)] at due
    obtain rfl : counts = 0 := by omega
    omega

theorem Sound.advanceDivider (h : t.Sound) (forwards : 0 ≤ cycles) : (t.advanceDivider cycles).Sound := by
  have positive := h.divider_pos
  have small := h.divider_le
  refine ⟨?_, ?_, h.counter_le⟩
  all_goals
    simp only [Timer.advanceDivider]
    by_cases spent : t.dividerCountdown - cycles ≤ 0
    · have bounds := rewound_bounds (show 0 < dividerPeriod by decide) spent
      first | exact bounds.1 | exact bounds.2
    · rw [periodsDue_of_running (by omega)]
      omega

theorem Sound.advanceCounter (h : t.Sound) (forwards : 0 ≤ cycles) : (t.advanceCounter cycles).Sound := by
  unfold Timer.advanceCounter
  split
  next =>
    refine ⟨h.divider_pos, h.divider_le, ?_⟩
    have before := h.counter_le
    have bound := period_le t.control
    have counted := rewound_le (period_pos t.control)
      (Nat.min_le_left (periodsDue (t.counterCountdown - cycles) (period t.control)) (256 - t.counter.toNat))
    simp only
    omega
  next => exact h

theorem Sound.reload (h : t.Sound) : t.reload.Sound := by
  unfold Timer.reload
  split
  next => exact ⟨h.divider_pos, h.divider_le, h.counter_le⟩
  next => exact h

theorem Sound.advance (h : t.Sound) (forwards : 0 ≤ cycles) : (t.advance cycles).Sound :=
  (h.reload.advanceDivider forwards).advanceCounter forwards

theorem overflowed_reload (t : Timer) : t.reload.overflowed = false := by
  unfold reload
  split
  next => rfl
  next settled => exact Bool.eq_false_iff.mpr settled

theorem enabled_advance (cycles : Int) (t : Timer) : (t.advance cycles).enabled = t.enabled := by
  unfold Timer.advance Timer.advanceCounter Timer.reload
  split <;> split <;> rfl

/-- A batch moves the divider on by its cycles, around as often as it wraps. -/
theorem position_advance (cycles : Int) (t : Timer) :
    ∃ turns : Nat, (t.advance cycles).dividerPosition + 65536 * turns = t.dividerPosition + cycles := by
  have counted : (t.advance cycles).dividerPosition = (t.advanceDivider cycles).dividerPosition := by
    unfold Timer.advance Timer.advanceCounter Timer.reload
    split <;> split <;> rfl
  refine ⟨(t.divider.toNat + periodsDue (t.dividerCountdown - cycles) dividerPeriod) / 256, ?_⟩
  have split := Nat.div_add_mod (t.divider.toNat + periodsDue (t.dividerCountdown - cycles) dividerPeriod) 256
  rw [counted]
  simp only [dividerPosition, Timer.advanceDivider]
  rw [UInt8.toNat_add, UInt8.toNat_ofNat', Nat.add_mod_mod]
  simp only [dividerPeriod] at *
  omega

theorem Sound.divider_admits (h : t.Sound) {cycles : Nat} (small : cycles < 2 ^ 30) :
    Countdown.admits t.dividerCountdown cycles = true := by
  have positive := h.divider_pos
  have divider := h.divider_le
  simp only [dividerPeriod] at divider
  exact Countdown.admits_of_pos positive (by omega) (by omega) (by omega)

theorem Sound.behind_of_refusal (h : t.Sound) {cycles : Nat} (small : cycles < 2 ^ 30)
    (refused : t.admits cycles = false) :
    t.enabled = true ∧ t.counterCountdown < (cycles : Int) - 2 ^ 31 := by
  have counter := h.counter_le
  simp only [longestPeriod] at counter
  unfold admits at refused
  rw [h.divider_admits small, Bool.true_and, Bool.or_eq_false_iff] at refused
  obtain ⟨on, full⟩ := refused
  refine ⟨by simpa using on, ?_⟩
  have out : ¬Countdown.inRange (t.counterCountdown - cycles) = true := by
    rw [Countdown.admits] at full
    rw [full]
    exact Bool.false_ne_true
  rw [Countdown.inRange_iff] at out
  omega

/-- A counter at the fastest rate that wraps with every count. It counts once in a batch at most, so
batches of more than sixteen cycles leave it behind. -/
structure Lags (t : Timer) : Prop where
  control : t.control = 5
  modulo : t.modulo = 0xFF
  full : t.overflowed = false → t.counter = 0xFF

theorem Lags.reload (h : t.Lags) :
    t.reload.Lags ∧ t.reload.counter = 0xFF ∧ t.reload.counterCountdown = t.counterCountdown := by
  unfold Timer.reload
  split
  next => exact ⟨⟨h.control, h.modulo, fun _ => h.modulo⟩, h.modulo, rfl⟩
  next pending => exact ⟨h, h.full (Bool.eq_false_iff.mpr pending), rfl⟩

theorem Lags.advanceCounter (h : t.Lags) (top : t.counter = 0xFF) :
    (t.advanceCounter cycles).Lags ∧
    t.counterCountdown - cycles ≤ (t.advanceCounter cycles).counterCountdown ∧
    (t.advanceCounter cycles).counterCountdown ≤ t.counterCountdown - cycles + 16 := by
  have on : t.enabled = true := by
    rw [enabled, h.control]
    rfl
  have room : 256 - t.counter.toNat = 1 := by
    rw [top]
    rfl
  have rate : period t.control = 16 := by
    rw [h.control]
    rfl
  have once : min (periodsDue (t.counterCountdown - cycles) 16) 1 = 0 ∨
      min (periodsDue (t.counterCountdown - cycles) 16) 1 = 1 := by omega
  simp only [Timer.advanceCounter, if_pos on, room, rate]
  rcases once with none | one
  · rw [none]
    refine ⟨⟨h.control, h.modulo, fun _ => by simp [top]⟩, ?_, ?_⟩
    · simp
    · omega
  · rw [one]
    refine ⟨⟨h.control, h.modulo, nofun⟩, ?_, ?_⟩
    · omega
    · simp

/-- A batch leaves such a counter behind by all its cycles but sixteen. -/
theorem Lags.advance (h : t.Lags) :
    (t.advance cycles).Lags ∧
    t.counterCountdown - cycles ≤ (t.advance cycles).counterCountdown ∧
    (t.advance cycles).counterCountdown ≤ t.counterCountdown - cycles + 16 := by
  obtain ⟨lags, top, same⟩ := h.reload
  have ready : (t.reload.advanceDivider cycles).Lags := ⟨lags.control, lags.modulo, lags.full⟩
  have kept : (t.reload.advanceDivider cycles).counterCountdown = t.counterCountdown := same
  rw [← kept]
  exact ready.advanceCounter top

/-! ### Counts one at a time -/

/-- Each count winds a spent countdown up by one period. -/
theorem periodsDue_of_spent {countdown : Int} {period : Nat} (positive : 0 < period) (spent : countdown ≤ 0) :
    periodsDue countdown period = periodsDue (countdown + period) period + 1 := by
  rw [periodsDue, if_neg (by omega), periodsDue]
  split
  next wound =>
    have early : -countdown / (period : Int) = 0 := Int.ediv_eq_zero_of_lt (by omega) (by omega)
    rw [early]
    rfl
  next still =>
    have whole : 0 ≤ -(countdown + period) / (period : Int) := Int.ediv_nonneg (by omega) (by omega)
    have shifted : -countdown = -(countdown + period) + 1 * (period : Int) := by omega
    have later : -countdown / (period : Int) = -(countdown + period) / (period : Int) + 1 := by
      rw [shifted, Int.add_mul_ediv_right _ _ (by omega)]
    omega

def countDivider (t : Timer) : Timer :=
  if t.dividerCountdown ≤ 0 then
    countDivider { t with dividerCountdown := t.dividerCountdown + dividerPeriod, divider := t.divider + 1 }
  else t
termination_by (1 - t.dividerCountdown).toNat
decreasing_by
  simp only [dividerPeriod]
  omega

/-- The counter counts for as long as its countdown is spent and it has not wrapped. -/
def countCounter (t : Timer) : Timer :=
  if t.counterCountdown ≤ 0 ∧ t.overflowed = false then
    countCounter { t with
      counterCountdown := t.counterCountdown + period t.control
      counter := t.counter + 1
      overflowed := t.counter = 0xFF }
  else t
termination_by (1 - t.counterCountdown).toNat
decreasing_by
  have positive := period_pos t.control
  omega

theorem countDivider_eq (t : Timer) : t.countDivider = { t with
    dividerCountdown := t.dividerCountdown + periodsDue t.dividerCountdown dividerPeriod * dividerPeriod
    divider := t.divider + UInt8.ofNat (periodsDue t.dividerCountdown dividerPeriod) } := by
  fun_induction countDivider t with
  | case1 t spent ih =>
    rw [ih, periodsDue_of_spent (show 0 < dividerPeriod by decide) spent]
    simp only [Int.natCast_add, Int.add_mul, UInt8.ofNat_add, UInt8.add_assoc, Int.add_assoc]
    rw [Int.add_comm (dividerPeriod : Int), UInt8.add_comm 1]
    simp
  | case2 t running =>
    rw [periodsDue_of_running (by omega)]
    simp

theorem countCounter_of_overflowed (wrapped : t.overflowed = true) : t.countCounter = t := by
  rw [countCounter, if_neg (by simp [wrapped])]

theorem countCounter_eq (settled : t.overflowed = false) : t.countCounter =
    let counts := min (periodsDue t.counterCountdown (period t.control)) (256 - t.counter.toNat)
    { t with
      counterCountdown := t.counterCountdown + counts * period t.control
      counter := t.counter + UInt8.ofNat counts
      overflowed := counts = 256 - t.counter.toNat } := by
  fun_induction countCounter t with
  | case1 t due ih =>
    have value := t.counter.toNat_lt
    rw [periodsDue_of_spent (period_pos t.control) due.1]
    by_cases top : t.counter = 0xFF
    · have last : 256 - t.counter.toNat = 1 := by rw [top]; rfl
      rw [countCounter_of_overflowed (decide_eq_true top), last, Nat.min_eq_right (by omega)]
      simp [top]
    · have next : (t.counter + 1).toNat = t.counter.toNat + 1 := by
        have other : t.counter.toNat ≠ 255 := UInt8.toNat_inj.not.mpr top
        rw [UInt8.toNat_add, show (1 : UInt8).toNat = 1 from rfl]
        omega
      have room : 256 - t.counter.toNat = 256 - (t.counter + 1).toNat + 1 := by omega
      rw [ih (decide_eq_false top)]
      simp only [room, Nat.add_min_add_right, Int.natCast_add, Int.add_mul, UInt8.ofNat_add, Nat.add_right_cancel_iff]
      rw [Int.add_assoc, Int.add_comm (period t.control : Int), UInt8.add_assoc, UInt8.add_comm 1]
      simp
  | case2 t stops =>
    have running : 0 < t.counterCountdown := by
      by_contra spent
      exact stops ⟨by omega, settled⟩
    have value := t.counter.toNat_lt
    have room : ¬0 = 256 - t.counter.toNat := by omega
    rw [periodsDue_of_running running, Nat.zero_min]
    simp [room, ← settled]

theorem advanceDivider_eq_countDivider (cycles : Int) (t : Timer) :
    t.advanceDivider cycles = countDivider { t with dividerCountdown := t.dividerCountdown - cycles } :=
  (countDivider_eq { t with dividerCountdown := t.dividerCountdown - cycles }).symm

theorem advanceCounter_eq_countCounter (on : t.enabled = true) (settled : t.overflowed = false) (cycles : Int) :
    t.advanceCounter cycles = countCounter { t with counterCountdown := t.counterCountdown - cycles } := by
  rw [advanceCounter, if_pos on]
  exact (@countCounter_eq { t with counterCountdown := t.counterCountdown - cycles } settled).symm

def advanceByCounts (cycles : Int) (t : Timer) : Timer :=
  let counted := countDivider { t.reload with dividerCountdown := t.reload.dividerCountdown - cycles }
  if counted.enabled then countCounter { counted with counterCountdown := counted.counterCountdown - cycles }
  else counted

/-- The closed forms leave the timer as single counts do. -/
theorem advance_eq_advanceByCounts (cycles : Int) (t : Timer) : t.advance cycles = t.advanceByCounts cycles := by
  rw [advance, advanceByCounts, ← advanceDivider_eq_countDivider]
  cases on : (t.reload.advanceDivider cycles).enabled with
  | true => exact advanceCounter_eq_countCounter on t.overflowed_reload cycles
  | false =>
    rw [advanceCounter, on]
    rfl

end DotMatrix.Timer
