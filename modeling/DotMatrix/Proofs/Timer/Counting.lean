import DotMatrix.Proofs.Board.Requests
import DotMatrix.Proofs.Timer.Backlog
import Mathlib.Algebra.Order.BigOperators.Group.List
import Mathlib.Algebra.Order.Group.Nat

/-!
What a run of batches leaves in a counter that no write disturbs. A wrap stops the count until the next
batch, which then makes up for what is owed, so the batches change when a count is made but not how many
are. Between two runs of as many cycles that end with nothing pending there is no difference.
-/

namespace DotMatrix

namespace Timer

def room (t : Timer) : Nat := 256 - t.counter.toNat

/-- What the counter shows after some counts: it goes up to the end, and then around from the modulo. -/
def shown (t : Timer) (counts : Nat) : Nat :=
  if t.counter.toNat + counts ≤ 255 then t.counter.toNat + counts
  else t.modulo.toNat + (counts - t.room) % (256 - t.modulo.toNat)

variable {start t : Timer} {total counts more : Nat}

theorem shown_le (t : Timer) (counts : Nat) : t.shown counts ≤ 255 := by
  have last := t.modulo.toNat_lt
  have around := Nat.mod_lt (counts - t.room) (show 0 < 256 - t.modulo.toNat by omega)
  unfold shown
  split <;> omega

theorem sub_room_add (t : Timer) (behind : ¬t.counter.toNat + counts ≤ 255) (more : Nat) :
    counts + more - t.room = counts - t.room + more := by
  unfold room
  omega

theorem shown_add (below : t.shown counts + more ≤ 255) : t.shown (counts + more) = t.shown counts + more := by
  unfold shown at below ⊢
  by_cases first : t.counter.toNat + counts ≤ 255
  · rw [if_pos first] at below ⊢
    rw [if_pos (by omega), Nat.add_assoc]
  · rw [if_neg first] at below ⊢
    rw [if_neg (by omega), t.sub_room_add first, ← Nat.mod_add_mod, Nat.mod_eq_of_lt (by omega), Nat.add_assoc]

theorem shown_add_of_wrap (wraps : t.shown counts + more = 256) : t.shown (counts + more) = t.modulo.toNat := by
  have last := t.modulo.toNat_lt
  unfold shown at wraps ⊢
  by_cases first : t.counter.toNat + counts ≤ 255
  · rw [if_pos first] at wraps
    have none : counts + more - t.room = 0 := by
      unfold room
      omega
    rw [if_neg (by omega), none, Nat.zero_mod, Nat.add_zero]
  · rw [if_neg first] at wraps
    have whole : (counts - t.room) % (256 - t.modulo.toNat) + more = 256 - t.modulo.toNat := by omega
    rw [if_neg (by omega), t.sub_room_add first, ← Nat.mod_add_mod, whole, Nat.mod_self, Nat.add_zero]

def wraps (t : Timer) (counts : Nat) : Bool := t.room ≤ counts

/-- A counter wraps among some further counts if it has room for no more than these, or if it wrapped before. -/
theorem wraps_add (fits : t.shown counts + more ≤ 256) :
    t.wraps (counts + more) = (t.wraps counts || t.shown counts + more = 256) := by
  have value := t.counter.toNat_lt
  unfold wraps shown room at *
  by_cases first : t.counter.toNat + counts ≤ 255
  · rw [if_pos first] at fits ⊢
    rw [decide_eq_false (show ¬256 - t.counter.toNat ≤ counts by omega), Bool.false_or, decide_eq_decide]
    omega
  · rw [decide_eq_true (show 256 - t.counter.toNat ≤ counts by omega), Bool.true_or, decide_eq_true_eq]
    omega

/-- How a counter stands that has got some cycles since the start and has made some counts. -/
structure Counted (start : Timer) (total counts : Nat) (t : Timer) : Prop where
  control : t.control = start.control
  modulo : t.modulo = start.modulo
  countdown : t.counterCountdown = start.counterCountdown - total + counts * period start.control
  within : t.counterCountdown ≤ period start.control
  /-- A counter that has wrapped is as good as reloaded. -/
  shows : t.reload.counter.toNat = start.shown counts

theorem reload_of_settled (settled : t.overflowed = false) : t.reload = t :=
  if_neg (Bool.eq_false_iff.mp settled)

theorem counted_start (settled : t.overflowed = false) (within : t.counterCountdown ≤ period t.control) :
    Counted t 0 0 t := by
  have value := t.counter.toNat_lt
  refine ⟨rfl, rfl, by simp, within, ?_⟩
  rw [reload_of_settled settled, shown, if_pos (by omega), Nat.add_zero]

theorem Counted.reload (h : Counted start total counts t) : Counted start total counts t.reload where
  control := (reload_control t).trans h.control
  modulo := by
    rw [← h.modulo, Timer.reload]
    split <;> rfl
  countdown := (reload_countdown t).trans h.countdown
  within := by
    rw [reload_countdown]
    exact h.within
  shows := by
    rw [reload_of_settled t.overflowed_reload]
    exact h.shows

theorem Counted.advanceDivider (h : Counted start total counts t) (cycles : Int) :
    Counted start total counts (t.advanceDivider cycles) := by
  refine ⟨h.control, h.modulo, h.countdown, h.within, ?_⟩
  have order : (t.advanceDivider cycles).reload = t.reload.advanceDivider cycles := by
    cases pending : t.overflowed <;> simp [Timer.reload, Timer.advanceDivider, pending]
  rw [order]
  exact h.shows

theorem running_advanceCounter (on : t.enabled = true) (cycles : Int)
    (settled : (t.advanceCounter cycles).overflowed = false) : 0 < (t.advanceCounter cycles).counterCountdown := by
  simp only [advanceCounter, if_pos on, decide_eq_false_iff_not] at settled ⊢
  rw [Nat.min_eq_left (by omega)]
  by_cases spent : t.counterCountdown - cycles ≤ 0
  · exact (rewound_bounds (period_pos t.control) spent).1
  · rw [periodsDue_of_running (by omega)]
    omega

/-- A batch makes some counts, and it ends with a wrap if these take all the room that the counter has. -/
theorem Counted.advanceCounter (h : Counted start total counts t) (settled : t.overflowed = false)
    (on : t.enabled = true) (cycles : Nat) :
    ∃ more, Counted start (total + cycles) (counts + more) (t.advanceCounter cycles) ∧
      start.wraps (counts + more) = (start.wraps counts || (t.advanceCounter cycles).overflowed) := by
  have counter : t.counter.toNat = start.shown counts := by
    rw [← h.shows, reload_of_settled settled]
  have top := start.shown_le counts
  have within := h.within
  obtain ⟨more, all_due⟩ :
      ∃ more, more = min (periodsDue (t.counterCountdown - cycles) (period start.control)) (256 - start.shown counts) :=
    ⟨_, rfl⟩
  have fits : more ≤ 256 - start.shown counts := all_due ▸ Nat.min_le_right _ _
  have due : more ≤ periodsDue (t.counterCountdown - cycles) (period start.control) := all_due ▸ Nat.min_le_left _ _
  have rewound := rewound_le (period_pos start.control) due
  have counted : t.advanceCounter cycles = { t with
      counterCountdown := t.counterCountdown - cycles + more * period start.control
      counter := t.counter + UInt8.ofNat more
      overflowed := more = 256 - start.shown counts } := by
    simp only [Timer.advanceCounter, if_pos on, h.control, counter, all_due]
  rw [counted]
  refine ⟨more, ⟨h.control, h.modulo, ?_, by simp only; omega, ?_⟩, ?_⟩
  · simp only [h.countdown, Int.natCast_add, Int.add_mul]
    omega
  · by_cases all : more = 256 - start.shown counts
    · rw [start.shown_add_of_wrap (by omega), ← h.modulo]
      simp only [Timer.reload, all, decide_true, if_true]
    · have below : start.shown counts + more ≤ 255 := by omega
      rw [start.shown_add below]
      simp only [Timer.reload, all, decide_false, Bool.false_eq_true, if_false, UInt8.toNat_add, UInt8.toNat_ofNat',
        counter]
      omega
  · rw [start.wraps_add (by omega)]
    congr 1
    rw [decide_eq_decide]
    omega

theorem Counted.advance (h : Counted start total counts t) (on : start.enabled = true) (cycles : Nat) :
    ∃ more, Counted start (total + cycles) (counts + more) (t.advance cycles) ∧
      start.wraps (counts + more) = (start.wraps counts || (t.advance cycles).overflowed) := by
  have ready := h.reload.advanceDivider cycles
  have enabled : (t.reload.advanceDivider cycles).enabled = true := by
    rw [← on]
    exact congrArg (Byte.has · 0x04) ready.control
  exact ready.advanceCounter t.overflowed_reload enabled cycles

theorem running_advance (on : t.enabled = true) (cycles : Int) (settled : (t.advance cycles).overflowed = false) :
    0 < (t.advance cycles).counterCountdown := by
  apply running_advanceCounter _ cycles settled
  rw [← on]
  exact congrArg (Byte.has · 0x04) (reload_control t)

def periodsIn (total : Nat) (t : Timer) : Nat :=
  ((total + period t.control - t.counterCountdown) / (period t.control : Int)).toNat

/-- Once nothing is owed, the number of counts follows from the cycles. -/
theorem Counted.counts_eq (h : Counted start total counts t) (running : 0 < t.counterCountdown) :
    counts = start.periodsIn total := by
  have positive := period_pos start.control
  have within := h.within
  rw [h.countdown] at running within
  have quotient : (total + period start.control - start.counterCountdown) / (period start.control : Int) = counts := by
    rw [Int.ediv_eq_iff_of_pos (by omega)]
    constructor <;> omega
  rw [periodsIn, quotient, Int.toNat_natCast]

theorem Counted.admits (h : Counted start total counts t) (low : 1 ≤ start.counterCountdown) {cycles : Nat}
    (few : total + cycles < 2 ^ 30) : Countdown.admits t.counterCountdown cycles = true := by
  have bound := period_le start.control
  have within := h.within
  have countdown := h.countdown
  have wound := Int.natCast_nonneg (counts * period start.control)
  rw [Int.natCast_mul] at wound
  simp only [longestPeriod] at bound
  rw [Countdown.admits, Countdown.inRange_iff]
  omega

theorem Counted.reload_of_pending (h : Counted start total counts t) (pending : t.overflowed = true) :
    t.reload = { t with counter := start.modulo, overflowed := false } := by
  rw [Timer.reload, if_pos pending, h.modulo]

structure DividerFits (t : Timer) : Prop where
  low : -2 ^ 30 ≤ t.dividerCountdown
  high : t.dividerCountdown < 2 ^ 31

theorem DividerFits.advance (h : t.DividerFits) (cycles : Nat) : (t.advance cycles).DividerFits := by
  have low := h.low
  have high := h.high
  have same : (t.advance cycles).dividerCountdown = (t.advanceDivider cycles).dividerCountdown := by
    unfold Timer.advance Timer.advanceCounter Timer.reload
    split <;> split <;> rfl
  have bounds : 0 < (t.advanceDivider cycles).dividerCountdown ∧
      (t.advanceDivider cycles).dividerCountdown ≤ max t.dividerCountdown dividerPeriod := by
    simp only [Timer.advanceDivider]
    by_cases spent : t.dividerCountdown - cycles ≤ 0
    · have rewound := rewound_bounds (show 0 < dividerPeriod by decide) spent
      omega
    · rw [periodsDue_of_running (by omega)]
      omega
  simp only [dividerPeriod] at bounds
  constructor <;> omega

theorem DividerFits.admits (h : t.DividerFits) {cycles : Nat} (few : cycles < 2 ^ 30) :
    Countdown.admits t.dividerCountdown cycles = true := by
  have low := h.low
  have high := h.high
  rw [Countdown.admits, Countdown.inRange_iff]
  omega

end Timer

namespace Board

open Timer

variable {start b : Board} {total counts : Nat}

def advanceTimerBy (batches : List Nat) (b : Board) : Board :=
  batches.foldl (fun b cycles => b.advanceTimer (Countdown.batch cycles)) b

/-- How the board stands that has handed on some cycles since the start: the counter has counted them, and it
has asked for an interrupt, or will with the next batch, if it has wrapped. -/
structure Counted (start : Board) (total counts : Nat) (b : Board) : Prop where
  timer : start.timer.Counted total counts b.timer
  running : b.timer.overflowed = false → 0 < b.timer.counterCountdown
  asks : (b.requests ||| if b.timer.overflowed then Interrupt.timer.mask else 0) =
    start.requests ||| if start.timer.wraps counts then Interrupt.timer.mask else 0

theorem or_mask_or_mask (first second : Bool) (requests mask : UInt8) :
    (requests ||| if first then mask else 0) ||| (if second then mask else 0) =
      requests ||| if first || second then mask else 0 := by
  cases first <;> cases second <;> simp [UInt8.or_assoc]

theorem Counted.advance (h : Counted start total counts b) (on : start.timer.enabled = true) (cycles : Nat) :
    ∃ more, Counted start (total + cycles) (counts + more) (b.advanceTimer cycles) := by
  have enabled : b.timer.enabled = true := by
    rw [← on]
    exact congrArg (Byte.has · 0x04) h.timer.control
  obtain ⟨more, counted, wraps⟩ := h.timer.advance on cycles
  refine ⟨more, ?_, ?_, ?_⟩
  · rw [timer_advanceTimer]
    exact counted
  · rw [timer_advanceTimer]
    exact running_advance enabled cycles
  · rw [requests_advanceTimer, timer_advanceTimer, h.asks, or_mask_or_mask, wraps]

theorem Counted.advanceBy (h : Counted start total counts b) (on : start.timer.enabled = true) {batches : List Nat}
    (short : ∀ cycles ∈ batches, cycles < 2 ^ 31) :
    ∃ counts, Counted start (total + batches.sum) counts (b.advanceTimerBy batches) := by
  induction batches generalizing b total counts with
  | nil => exact ⟨counts, h⟩
  | cons cycles rest ih =>
    rw [List.forall_mem_cons] at short
    obtain ⟨more, next⟩ := h.advance on cycles
    have batch : Countdown.batch cycles = cycles := if_pos short.1
    rw [List.sum_cons, ← Nat.add_assoc, advanceTimerBy, List.foldl_cons, batch]
    exact ih next short.2

theorem counted_by (on : b.timer.enabled = true) (settled : b.timer.overflowed = false)
    (low : 1 ≤ b.timer.counterCountdown) (high : b.timer.counterCountdown ≤ period b.timer.control)
    {batches : List Nat} (short : ∀ cycles ∈ batches, cycles < 2 ^ 31) :
    ∃ counts, Counted b batches.sum counts (b.advanceTimerBy batches) := by
  have begun : Counted b 0 0 b := by
    refine ⟨counted_start settled high, fun _ => low, ?_⟩
    have value := b.timer.counter.toNat_lt
    have early : b.timer.wraps 0 = false := decide_eq_false (by unfold room; omega)
    rw [settled, early]
  obtain ⟨counts, counted⟩ := begun.advanceBy on short
  rw [Nat.zero_add] at counted
  exact ⟨counts, counted⟩

theorem Counted.settled (h : Counted start total counts b) (settled : b.timer.overflowed = false) :
    b.timer.counterCountdown =
      start.timer.counterCountdown - total + start.timer.periodsIn total * period start.timer.control ∧
    b.timer.counter.toNat = start.timer.shown (start.timer.periodsIn total) ∧
    b.requests = start.requests |||
      if start.timer.wraps (start.timer.periodsIn total) then Interrupt.timer.mask else 0 := by
  have asks := h.asks
  have shows := h.timer.shows
  rw [settled, if_neg Bool.false_ne_true, UInt8.or_zero] at asks
  rw [reload_of_settled settled] at shows
  rw [← h.timer.counts_eq (h.running settled)]
  exact ⟨h.timer.countdown, shows, asks⟩

theorem dividerFits_advanceBy (h : b.timer.DividerFits) {batches : List Nat}
    (short : ∀ cycles ∈ batches, cycles < 2 ^ 31) : (b.advanceTimerBy batches).timer.DividerFits := by
  induction batches generalizing b with
  | nil => exact h
  | cons cycles rest ih =>
    rw [List.forall_mem_cons] at short
    have batch : Countdown.batch cycles = cycles := if_pos short.1
    rw [advanceTimerBy, List.foldl_cons, batch]
    apply ih _ short.2
    rw [timer_advanceTimer]
    exact h.advance cycles

/-- A counter that is enabled and owes nothing, in a run of batches without writes. If it owes nothing in the end
it has counted once for each period of the cycles it got, and has asked for an interrupt if that made it wrap, so
the same cycles in other batches lead to the same. No batch leaves the range of a countdown. The batch behind a
wrap, and no other, asks for the interrupt, and it first reloads the counter. -/
theorem counter_counts_each_period {batches : List Nat} (on : b.timer.enabled = true)
    (settled : b.timer.overflowed = false) (low : 1 ≤ b.timer.counterCountdown)
    (high : b.timer.counterCountdown ≤ period b.timer.control) (few : batches.sum < 2 ^ 30) :
    let last := b.advanceTimerBy batches
    let counts :=
      ((batches.sum + period b.timer.control - b.timer.counterCountdown) / (period b.timer.control : Int)).toNat
    (last.timer.overflowed = false →
      last.timer.counterCountdown = b.timer.counterCountdown - batches.sum + counts * period b.timer.control ∧
      1 ≤ last.timer.counterCountdown ∧ last.timer.counterCountdown ≤ period b.timer.control ∧
      last.timer.counter.toNat = (if b.timer.counter.toNat + counts ≤ 255 then b.timer.counter.toNat + counts
        else b.timer.modulo.toNat + (counts - (256 - b.timer.counter.toNat)) % (256 - b.timer.modulo.toNat)) ∧
      last.requests =
        b.requests ||| (if 256 - b.timer.counter.toNat ≤ counts then Interrupt.timer.mask else 0)) ∧
    (∀ others : List Nat, others.sum = batches.sum → last.timer.overflowed = false →
      (b.advanceTimerBy others).timer.overflowed = false →
      (b.advanceTimerBy others).timer.counterCountdown = last.timer.counterCountdown ∧
      (b.advanceTimerBy others).timer.counter = last.timer.counter ∧
      (b.advanceTimerBy others).requests = last.requests) ∧
    (∀ done next rest, batches = done ++ next :: rest →
      let before := b.advanceTimerBy done
      let after := before.advanceTimer (Countdown.batch next)
      Countdown.batch next = next ∧ Countdown.admits before.timer.counterCountdown next = true ∧
      (b.timer.DividerFits → before.timer.admits next = true) ∧
      after.requests = before.requests ||| (if before.timer.overflowed then Interrupt.timer.mask else 0) ∧
      (before.timer.overflowed = true →
        after.timer = Timer.advance next { before.timer with counter := b.timer.modulo, overflowed := false })) := by
  have short {cycles : Nat} {list : List Nat} (sum : list.sum ≤ batches.sum) (listed : cycles ∈ list) :
      cycles < 2 ^ 31 := by
    have part := List.le_sum_of_mem listed
    omega
  intro last counts
  have ⟨made, (counted : Counted b batches.sum made last)⟩ :=
    counted_by on settled low high fun cycles => short (Nat.le_refl batches.sum)
  refine ⟨?_, ?_, ?_⟩
  · intro rests
    obtain ⟨countdown, counter, requests⟩ := counted.settled rests
    refine ⟨countdown, counted.running rests, counted.timer.within, counter, ?_⟩
    rw [requests]
    exact congrArg (b.requests ||| ·) (ite_congr (decide_eq_true_eq ..) (fun _ => rfl) (fun _ => rfl))
  · intro others same rests otherRests
    obtain ⟨otherMade, otherCounted⟩ := counted_by on settled low high fun cycles => short (Nat.le_of_eq same)
    obtain ⟨countdown, counter, requests⟩ := counted.settled rests
    obtain ⟨otherCountdown, otherCounter, otherRequests⟩ := otherCounted.settled otherRests
    rw [same] at otherCountdown otherCounter otherRequests
    exact ⟨otherCountdown.trans countdown.symm, UInt8.toNat.inj (otherCounter.trans counter.symm),
      otherRequests.trans requests.symm⟩
  · intro done next rest order before after
    have sums : done.sum + next + rest.sum = batches.sum := by
      rw [order, List.sum_append, List.sum_cons]
      omega
    have batch : Countdown.batch next = next := if_pos (by omega)
    have shortDone : ∀ cycles ∈ done, cycles < 2 ^ 31 := fun cycles => short (by omega)
    have ⟨made, (counted : Counted b done.sum made before)⟩ := counted_by on settled low high shortDone
    have room : Countdown.admits before.timer.counterCountdown next = true := counted.timer.admits low (by omega)
    refine ⟨batch, room, ?_, requests_advanceTimer _ before, ?_⟩
    · intro fits
      have divider : before.timer.DividerFits := dividerFits_advanceBy fits shortDone
      rw [admits, divider.admits (by omega), room, Bool.or_true, Bool.and_true]
    · intro pending
      change (before.advanceTimer _).timer = _
      rw [timer_advanceTimer, batch, Timer.advance, Timer.advance, counted.timer.reload_of_pending pending]
      rfl

/-- A board whose counter wraps with the third count, and from then on with every second one. -/
def nearWrap : Board :=
  { postBoot {} with timer := { Timer.postBoot with
      control := 0x05, counter := 0xFD, modulo := 0xFE, counterCountdown := 16 } }

/-- Six periods lie within 104 cycles. The batches are cut by two wraps here, and by as many there. -/
theorem counter_counts_six_periods :
    nearWrap.timer.enabled = true ∧ nearWrap.timer.overflowed = false ∧ 1 ≤ nearWrap.timer.counterCountdown ∧
    nearWrap.timer.counterCountdown ≤ period nearWrap.timer.control ∧ [40, 40, 20, 4].sum < 2 ^ 30 ∧
    (nearWrap.advanceTimerBy [40, 40, 20, 4]).timer.overflowed = false ∧
    (nearWrap.advanceTimerBy [50, 1, 48, 5]).timer.overflowed = false ∧
    (nearWrap.advanceTimerBy [50, 1, 48, 5]).timer.counterCountdown = 16 - 104 + 6 * 16 ∧
    (nearWrap.advanceTimerBy [50, 1, 48, 5]).timer.counter = 0xFF ∧
    (nearWrap.advanceTimerBy [50, 1, 48, 5]).requests = 0x01 ||| Interrupt.timer.mask := by
  obtain ⟨exact, agree, _⟩ := @counter_counts_each_period nearWrap [40, 40, 20, 4] rfl rfl
    (by decide) (by decide) (by decide)
  obtain ⟨countdown, _, _, counter, requests⟩ := exact rfl
  obtain ⟨sameCountdown, sameCounter, sameRequests⟩ := agree [50, 1, 48, 5] rfl rfl rfl
  refine ⟨rfl, rfl, by decide, by decide, by decide, rfl, rfl, ?_, ?_, ?_⟩
  · exact sameCountdown.trans countdown
  · exact sameCounter.trans (UInt8.toNat.inj counter)
  · exact sameRequests.trans requests

end Board
end DotMatrix
