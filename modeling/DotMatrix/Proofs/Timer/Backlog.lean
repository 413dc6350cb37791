import DotMatrix.Proofs.Cpu.Outcome
import DotMatrix.Proofs.Timer

/-!
How far the counter can fall behind the cycles that it is given. It stops counting at a wrap, and a wrap
at the fastest rate may come after sixteen cycles, which is less than a batch can have. What is then still
owed is made up for in later batches, unless these find the counter about to wrap again.
-/

namespace DotMatrix.Timer

inductive Input where
  | clearDivider
  | writeCounter (value : UInt8)
  | writeModulo (value : UInt8)
  | writeControl (value : UInt8)
  | batch (cycles : Nat)
  deriving DecidableEq

def Input.cycles : Input → Nat
  | batch cycles => cycles
  | _ => 0

def after (t : Timer) : Input → Timer
  | .clearDivider => t.clearDivider
  | .writeCounter value => { t with counter := value }
  | .writeModulo value => { t with modulo := value }
  | .writeControl value => t.writeControl value
  | .batch cycles => t.advance cycles

def run (inputs : List Input) (t : Timer) : Timer := inputs.foldl after t

def fresh (divider : UInt8) : Timer := { postBoot with divider }

/-- The counter is about to wrap at the fastest rate, so it counts once in a batch at most. -/
def pinched (t : Timer) : Bool := t.enabled && t.control.toNat % 4 == 1 && t.reload.counter == 0xFF

def pinches : List Input → Timer → Nat
  | [], _ => 0
  | .batch cycles :: rest, t => t.pinched.toNat + pinches rest (t.advance cycles)
  | input :: rest, t => pinches rest (t.after input)

variable {t : Timer} {cycles : Nat}

theorem run_append (first second : List Input) (t : Timer) :
    run (first ++ second) t = run second (run first t) := List.foldl_append

theorem pinches_append (first second : List Input) (t : Timer) :
    pinches (first ++ second) t = pinches first t + pinches second (run first t) := by
  induction first generalizing t with
  | nil => exact (Nat.zero_add _).symm
  | cons input rest ih =>
    cases input with
    | batch cycles =>
      simp only [List.cons_append, pinches, ih, Nat.add_assoc]
      rfl
    | _ => exact ih _

/-- What a batch counts makes up for the batch, or is all that the counter has room for. -/
theorem countdown_advanceCounter (cycles : Int) (t : Timer) :
    t.counterCountdown ≤ (t.advanceCounter cycles).counterCountdown ∨
    0 < (t.advanceCounter cycles).counterCountdown ∨
    t.enabled = true ∧ (t.advanceCounter cycles).counterCountdown =
      t.counterCountdown - cycles + ((256 - t.counter.toNat : Nat) : Int) * period t.control := by
  unfold advanceCounter
  split
  next on =>
    right
    simp only
    by_cases due : periodsDue (t.counterCountdown - cycles) (period t.control) ≤ 256 - t.counter.toNat
    · left
      rw [Nat.min_eq_left due]
      by_cases spent : t.counterCountdown - cycles ≤ 0
      · exact (rewound_bounds (period_pos t.control) spent).1
      · rw [periodsDue_of_running (by omega)]
        omega
    · right
      rw [Nat.min_eq_right (by omega)]
      exact ⟨on, rfl⟩
  next => exact .inl (Int.le_refl _)

theorem reload_countdown (t : Timer) : t.reload.counterCountdown = t.counterCountdown := by
  unfold reload
  split <;> rfl

theorem reload_control (t : Timer) : t.reload.control = t.control := by
  unfold reload
  split <;> rfl

theorem longestBatch_le_period {control : UInt8} (slow : ¬control.toNat % 4 = 1) :
    longestBatch ≤ period control := by
  unfold period
  split
  · decide
  · contradiction
  · decide
  · decide

/-- A batch leaves the counter no further behind, but for a pinched one, which it sets back by eight cycles. -/
theorem countdown_advance (short : cycles ≤ longestBatch) (t : Timer) :
    min t.counterCountdown 1 - 8 * (t.pinched.toNat : Int) ≤ (t.advance cycles).counterCountdown := by
  have counted := countdown_advanceCounter cycles (t.reload.advanceDivider cycles)
  have before : (t.reload.advanceDivider cycles).counterCountdown = t.counterCountdown := reload_countdown t
  have control : (t.reload.advanceDivider cycles).control = t.control := reload_control t
  have counter : (t.reload.advanceDivider cycles).counter = t.reload.counter := rfl
  have on : (t.reload.advanceDivider cycles).enabled = t.enabled := congrArg (Byte.has · 0x04) (reload_control t)
  rw [before, control, counter, on] at counted
  change _ ≤ ((t.reload.advanceDivider cycles).advanceCounter cycles).counterCountdown
  generalize ((t.reload.advanceDivider cycles).advanceCounter cycles).counterCountdown = reached at counted ⊢
  rcases counted with further | positive | ⟨enabled, full⟩
  · omega
  · omega
  · have room : 1 ≤ 256 - t.reload.counter.toNat := by
      have := t.reload.counter.toNat_lt
      omega
    by_cases slow : t.control.toNat % 4 = 1
    · have rate : period t.control = 16 := by
        rw [period, slow]
        rfl
      rw [rate] at full
      simp only [longestBatch] at short
      by_cases top : t.reload.counter = 0xFF
      · have one : t.pinched = true := by
          rw [pinched, enabled, slow, top]
          rfl
        rw [one, Bool.toNat_true]
        omega
      · have below : t.reload.counter.toNat ≠ 255 := fun same => top (UInt8.toNat.inj same)
        omega
    · have long := longestBatch_le_period slow
      have least : (longestBatch : Int) ≤ ((256 - t.reload.counter.toNat : Nat) : Int) * period t.control := by
        rw [← Int.natCast_mul]
        exact Int.ofNat_le.mpr (Nat.le_trans long (Nat.le_mul_of_pos_left _ room))
      omega

theorem countdown_writeControl (value : UInt8) (t : Timer) :
    (t.writeControl value).counterCountdown = t.counterCountdown ∨
      0 < (t.writeControl value).counterCountdown := by
  simp only [writeControl]
  split
  next => exact .inl rfl
  next => exact .inr (Int.natCast_pos.mpr (period_pos _))

theorem countdown_run {inputs : List Input} (short : ∀ input ∈ inputs, input.cycles ≤ longestBatch) (t : Timer) :
    min t.counterCountdown 1 - 8 * (pinches inputs t : Int) ≤ (run inputs t).counterCountdown := by
  induction inputs generalizing t with
  | nil =>
    simp only [run, List.foldl_nil, pinches]
    omega
  | cons input rest ih =>
    rw [List.forall_mem_cons] at short
    have later := ih short.2 (t.after input)
    change _ ≤ (run rest (t.after input)).counterCountdown
    cases input with
    | batch cycles =>
      have least : cycles ≤ longestBatch := short.1
      have here := countdown_advance least t
      simp only [pinches]
      rw [Int.natCast_add]
      change min (t.advance cycles).counterCountdown 1 - 8 * (pinches rest (t.advance cycles) : Int) ≤ _ at later
      omega
    | writeControl value =>
      have here := countdown_writeControl value t
      change min (t.writeControl value).counterCountdown 1 - _ ≤ _ at later
      simp only [pinches]
      omega
    | _ => exact later

/-- Writes that make the counter wrap with every count, and then batches in which it counts once. -/
def lagging (batches : Nat) : List Input :=
  [.writeModulo 0xFF, .writeCounter 0xFF, .writeControl 0x05] ++ List.replicate batches (.batch longestBatch)

theorem short_lagging (batches : Nat) : ∀ input ∈ lagging batches, input.cycles ≤ longestBatch := by
  intro input listed
  have writes : ∀ input ∈ [Input.writeModulo 0xFF, .writeCounter 0xFF, .writeControl 0x05],
      input.cycles ≤ longestBatch := by decide
  rcases List.mem_append.mp listed with write | batch
  · exact writes input write
  · rw [(List.mem_replicate.mp batch).2]
    exact Nat.le_refl _

theorem Lags.advance_of_spent (h : t.Lags) (spent : t.counterCountdown ≤ cycles) :
    (t.advance cycles).counterCountdown = t.counterCountdown - cycles + 16 := by
  obtain ⟨lags, top, same⟩ := h.reload
  have on : (t.reload.advanceDivider cycles).enabled = true := congrArg (Byte.has · 0x04) lags.control
  have room : 256 - (t.reload.advanceDivider cycles).counter.toNat = 1 := by
    change 256 - t.reload.counter.toNat = 1
    rw [top]
    rfl
  have rate : period (t.reload.advanceDivider cycles).control = 16 := congrArg period lags.control
  have before : (t.reload.advanceDivider cycles).counterCountdown = t.counterCountdown := same
  change ((t.reload.advanceDivider cycles).advanceCounter cycles).counterCountdown = _
  simp only [Timer.advanceCounter, if_pos on, room, rate, before]
  have due : 1 ≤ periodsDue (t.counterCountdown - cycles) 16 := by
    rw [periodsDue, if_neg (by omega)]
    exact Nat.succ_pos _
  rw [Nat.min_eq_right due]
  rfl

theorem Lags.pinched (h : t.Lags) : t.pinched = true := by
  rw [Timer.pinched, enabled, h.control, h.reload.2.1]
  rfl

theorem run_lagging (divider : UInt8) (batches : Nat) :
    (run (lagging batches) (fresh divider)).Lags ∧
    (run (lagging batches) (fresh divider)).counterCountdown = 16 - 8 * batches ∧
    pinches (lagging batches) (fresh divider) = batches := by
  induction batches with
  | zero => exact ⟨⟨rfl, rfl, fun _ => rfl⟩, rfl, rfl⟩
  | succ n ih =>
    obtain ⟨lags, reached, counted⟩ := ih
    have further : lagging (n + 1) = lagging n ++ [.batch longestBatch] := by
      rw [lagging, List.replicate_succ', ← List.append_assoc]
      rfl
    rw [further, run_append, pinches_append, counted]
    change (Timer.advance longestBatch _).Lags ∧ (Timer.advance longestBatch _).counterCountdown = _ ∧
      n + (Timer.pinched _).toNat = _
    rw [lags.pinched, lags.advance_of_spent (by rw [reached, longestBatch]; omega), reached]
    refine ⟨lags.advance.1, ?_, rfl⟩
    simp only [longestBatch]
    omega

theorem sound_run {inputs : List Input} (h : t.Sound) : (run inputs t).Sound := by
  induction inputs generalizing t with
  | nil => exact h
  | cons input rest ih =>
    apply ih
    cases input with
    | clearDivider => exact h.clearDivider
    | writeCounter | writeModulo => exact ⟨h.divider_pos, h.divider_le, h.counter_le⟩
    | writeControl value => exact h.writeControl value
    | batch cycles => exact h.advance (Int.natCast_nonneg _)

theorem sound_fresh (divider : UInt8) : (fresh divider).Sound :=
  ⟨sound_postBoot.divider_pos, sound_postBoot.divider_le, sound_postBoot.counter_le⟩

/-- A batch is admitted as long as it leaves the counter in range. -/
theorem Sound.admits_iff (h : t.Sound) (on : t.enabled = true) (short : cycles ≤ longestBatch) :
    t.admits cycles = true ↔ -2 ^ 31 ≤ t.counterCountdown - cycles := by
  have counter := h.counter_le
  simp only [longestBatch, longestPeriod] at short counter
  rw [admits, h.divider_admits (by omega), on, Bool.not_true, Bool.false_or, Bool.true_and, Countdown.admits,
    Countdown.inRange_iff]
  omega

/-- The counter owes at most eight cycles for each batch that found it pinched, and there are runs in which
it owes that much but for one period. While fewer than 2²⁸ - 2 batches have, the next one can be counted. -/
theorem backlog_le_pinches (divider : UInt8) {inputs : List Input}
    (short : ∀ input ∈ inputs, input.cycles ≤ 24) :
    1 - 8 * (pinches inputs (fresh divider) : Int) ≤ (run inputs (fresh divider)).counterCountdown ∧
    (pinches inputs (fresh divider) < 2 ^ 28 - 2 →
      ∀ cycles : Nat, cycles ≤ 24 → (run inputs (fresh divider)).admits cycles = true) ∧
    (run (lagging (pinches inputs (fresh divider))) (fresh divider)).counterCountdown =
      16 - 8 * (pinches inputs (fresh divider) : Int) := by
  have behind := countdown_run short (fresh divider)
  have start : min (fresh divider).counterCountdown 1 = 1 := rfl
  rw [start] at behind
  refine ⟨behind, ?_, (run_lagging divider _).2.1⟩
  intro few cycles least
  have sound : (run inputs (fresh divider)).Sound := sound_run (sound_fresh divider)
  cases on : (run inputs (fresh divider)).enabled with
  | false =>
    rw [admits, sound.divider_admits (by omega), on]
    rfl
  | true =>
    rw [sound.admits_iff on least]
    omega

/-- Three batches that find the counter pinched leave eight cycles owed of twenty-three at most. -/
theorem backlog_of_three_pinches :
    (∀ input ∈ lagging 3, input.cycles ≤ 24) ∧ pinches (lagging 3) (fresh 0) = 3 ∧
    1 - 8 * 3 ≤ (run (lagging 3) (fresh 0)).counterCountdown ∧
    (run (lagging 3) (fresh 0)).counterCountdown = -8 ∧ (run (lagging 3) (fresh 0)).admits (24 : Nat) = true := by
  obtain ⟨behind, admitted, _⟩ := backlog_le_pinches 0 (short_lagging 3)
  have three : pinches (lagging 3) (fresh 0) = 3 := rfl
  rw [three] at behind admitted
  exact ⟨short_lagging 3, three, behind, rfl, admitted (by decide) 24 (Nat.le_refl _)⟩

/-- No constant bounds what the counter owes: after 2²⁸ batches that each set it back by eight cycles the next
one takes it out of range, the first batch of the run that does. -/
theorem backlog_unbounded :
    (¬∃ bound : Int, ∀ inputs : List Input, (∀ input ∈ inputs, input.cycles ≤ 24) →
      -bound ≤ (run inputs (fresh 0)).counterCountdown) ∧
    (∀ input ∈ lagging (2 ^ 28), input.cycles ≤ 24) ∧
    (∀ batches < 2 ^ 28, (run (lagging batches) (fresh 0)).admits (24 : Nat) = true) ∧
    (run (lagging (2 ^ 28)) (fresh 0)).admits (24 : Nat) = false := by
  have admitted (batches : Nat) :
      (run (lagging batches) (fresh 0)).admits (24 : Nat) = true ↔ batches < 2 ^ 28 := by
    obtain ⟨lags, reached, _⟩ := run_lagging 0 batches
    have on : (run (lagging batches) (fresh 0)).enabled = true := congrArg (Byte.has · 0x04) lags.control
    have sound : (run (lagging batches) (fresh 0)).Sound := sound_run (sound_fresh 0)
    rw [sound.admits_iff on (show 24 ≤ longestBatch from Nat.le_refl _), reached]
    omega
  refine ⟨?_, short_lagging _, fun batches fewer => (admitted batches).mpr fewer, ?_⟩
  · rintro ⟨bound, all⟩
    have enough := all (lagging (bound.toNat + 3)) (short_lagging _)
    rw [(run_lagging 0 (bound.toNat + 3)).2.1] at enough
    omega
  · exact Bool.eq_false_iff.mpr fun still => Nat.lt_irrefl _ ((admitted _).mp still)

end DotMatrix.Timer
