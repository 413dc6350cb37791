import DotMatrix.Proofs.Board.Requests
import DotMatrix.Proofs.Lcd.Status

/-!
Runs of the LCD with nothing written in between. Each visible line that such a run enters shows the scan, the
transfer and the rest, one after the other, and each vertical blank shows nothing else; the interrupt of a selected
mode is requested once for each of them.
-/

namespace DotMatrix.Board

structure Update where
  before : Board
  cycles : Nat

namespace Update

def after (u : Update) : Board := u.before.advanceLcd u.cycles

def line (u : Update) : Nat := u.after.lcd.line.toNat

def mode (u : Update) : UInt8 := u.after.lcd.shown

def asks (u : Update) : Bool := u.before.lcd.asks u.cycles

end Update

def updates : List Nat → Board → List Update
  | [], _ => []
  | cycles :: rest, b => ⟨b, cycles⟩ :: updates rest (b.advanceLcd cycles)

def updateAll : List Nat → Board → Board
  | [], b => b
  | cycles :: rest, b => updateAll rest (b.advanceLcd cycles)

def Short (batches : List Nat) : Prop := ∀ cycles ∈ batches, 1 ≤ cycles ∧ cycles ≤ 80

structure Visits (part : Nat → Prop) (b : Board) (batches : List Nat) : Prop where
  outside : ¬part b.lcd.line.toNat
  enters : batches ≠ []
  inside : ∀ u ∈ b.updates batches, part u.line

def Leaves (part : Nat → Prop) (b : Board) (batches : List Nat) : Prop :=
  ∃ u ∈ (b.updates batches).head?, ¬part u.line

variable {b : Board} {batches : List Nat} {cycles : Nat}

theorem tracks_advanceLcd (h : b.lcd.Tracks) (short : 1 ≤ cycles ∧ cycles ≤ 80) : (b.advanceLcd cycles).lcd.Tracks := by
  rw [lcd_advanceLcd]
  exact h.advance (by omega) (by omega)

theorem turn_advanceLcd (h : b.lcd.Tracks) (short : 1 ≤ cycles ∧ cycles ≤ 80) :
    b.lcd.Turn (b.advanceLcd cycles).lcd := by
  rw [lcd_advanceLcd]
  exact h.turn (by omega) (by omega)

theorem selects_advanceLcd (cycles : Nat) (b : Board) :
    (b.advanceLcd cycles).lcd.status &&& 0x78 = b.lcd.status &&& 0x78 := by
  rw [lcd_advanceLcd]
  exact Lcd.selects_advance _ _

theorem tracks_updates (h : b.lcd.Tracks) (short : Short batches) {u : Update} (listed : u ∈ b.updates batches) :
    u.before.lcd.Tracks ∧ (1 ≤ u.cycles ∧ u.cycles ≤ 80) ∧ u.before.lcd.status &&& 0x78 = b.lcd.status &&& 0x78 := by
  induction batches generalizing b with
  | nil => cases listed
  | cons cycles rest ih =>
    obtain ⟨first, later⟩ := List.forall_mem_cons.mp short
    rcases List.mem_cons.mp listed with rfl | listed
    · exact ⟨h, first, rfl⟩
    · obtain ⟨tracks, batch, selects⟩ := ih (tracks_advanceLcd h first) later listed
      exact ⟨tracks, batch, selects.trans (selects_advanceLcd cycles b)⟩

theorem tracks_updateAll (h : b.lcd.Tracks) (short : Short batches) : (b.updateAll batches).lcd.Tracks := by
  induction batches generalizing b with
  | nil => exact h
  | cons cycles rest ih =>
    obtain ⟨first, later⟩ := List.forall_mem_cons.mp short
    exact ih (tracks_advanceLcd h first) later

theorem selects_updateAll (batches : List Nat) (b : Board) :
    (b.updateAll batches).lcd.status &&& 0x78 = b.lcd.status &&& 0x78 := by
  induction batches generalizing b with
  | nil => rfl
  | cons cycles rest ih => exact (ih _).trans (selects_advanceLcd cycles b)

/-- An update requests what begins, if it is selected. -/
theorem asks_iff (h : b.lcd.Tracks) (unlinked : Byte.has b.lcd.status 0x40 = false) (cycles : Nat) :
    Update.asks ⟨b, cycles⟩ = true ↔
      (b.advanceLcd cycles).lcd.shown ≠ b.lcd.shown ∧ Lcd.Selected b.lcd.status (b.advanceLcd cycles).lcd.shown := by
  rw [lcd_advanceLcd]
  exact h.asks_iff unlinked cycles

theorem asks_eq_false (h : b.lcd.Tracks) (unlinked : Byte.has b.lcd.status 0x40 = false)
    (same : (b.advanceLcd cycles).lcd.shown = b.lcd.shown) : Update.asks ⟨b, cycles⟩ = false :=
  Bool.eq_false_iff.mpr fun asked => ((asks_iff h unlinked cycles).mp asked).1 same

theorem asks_of_entry (h : b.lcd.Tracks) (unlinked : Byte.has b.lcd.status 0x40 = false) {mode mask : UInt8}
    (next : (b.advanceLcd cycles).lcd.shown = mode) (before : b.lcd.shown ≠ mode)
    (meaning : Lcd.Selected b.lcd.status mode ↔ Byte.has b.lcd.status mask = true) :
    Update.asks ⟨b, cycles⟩ = Byte.has b.lcd.status mask := by
  apply Bool.eq_iff_iff.mpr
  rw [asks_iff h unlinked, next, ← meaning]
  exact and_iff_right before.symm

theorem countP_updates (cycles : Nat) (batches : List Nat) (b : Board) :
    (b.updates (cycles :: batches)).countP Update.asks =
      ((b.advanceLcd cycles).updates batches).countP Update.asks + (Update.asks ⟨b, cycles⟩).toNat := by
  rw [updates, List.countP_cons]
  cases Update.asks ⟨b, cycles⟩ <;> rfl

theorem has_advanceLcd {mask : UInt8} (select : 0x78 &&& mask = mask) (cycles : Nat) (b : Board) :
    Byte.has (b.advanceLcd cycles).lcd.status mask = Byte.has b.lcd.status mask :=
  Lcd.has_of_selects (selects_advanceLcd cycles b) select

/-- What the updates on one visible line show, from a mode of the line on. -/
structure OnLine (b : Board) (batches : List Nat) (scan transfer rest : Nat) : Prop where
  modes : (b.updates batches).map Update.mode =
    List.replicate scan 2 ++ List.replicate transfer 3 ++ List.replicate rest 0
  noScan : b.lcd.shown ≠ 2 → scan = 0
  noTransfer : b.lcd.shown = 0 → transfer = 0
  inOrder : 0 < rest → b.lcd.shown = 2 → 0 < transfer
  ends : (b.updateAll batches).lcd.shown = 0 → b.lcd.shown ≠ 0 → 0 < rest
  requests : Byte.has b.lcd.status 0x40 = false → (b.updates batches).countP Update.asks =
    if 0 < rest ∧ b.lcd.shown ≠ 0 then (Byte.has b.lcd.status 0x08).toNat else 0

namespace OnLine

variable {scan transfer rest : Nat}

theorem nil (b : Board) : b.OnLine [] 0 0 0 where
  modes := rfl
  noScan _ := rfl
  noTransfer _ := rfl
  inOrder some := absurd some (Nat.lt_irrefl 0)
  ends zero other := absurd zero other
  requests _ := rfl

theorem requests_cons (tail : (b.advanceLcd cycles).OnLine batches scan transfer rest)
    (unlinked : Byte.has b.lcd.status 0x40 = false) :
    (b.updates (cycles :: batches)).countP Update.asks =
      (if 0 < rest ∧ (b.advanceLcd cycles).lcd.shown ≠ 0 then (Byte.has b.lcd.status 0x08).toNat else 0) +
        (Update.asks ⟨b, cycles⟩).toNat := by
  rw [countP_updates, tail.requests ((has_advanceLcd rfl cycles b).trans unlinked), has_advanceLcd rfl]

theorem scanned (tail : (b.advanceLcd cycles).OnLine batches scan transfer rest) (h : b.lcd.Tracks)
    (before : b.lcd.shown = 2) (next : (b.advanceLcd cycles).lcd.shown = 2) :
    b.OnLine (cycles :: batches) (scan + 1) transfer rest where
  modes := congrArg₂ List.cons next tail.modes
  noScan other := absurd before other
  noTransfer zero := absurd (before.symm.trans zero) (by decide)
  inOrder some _ := tail.inOrder some next
  ends zero _ := tail.ends zero (by rw [next]; decide)
  requests unlinked := by
    have quiet := asks_eq_false h unlinked (next.trans before.symm)
    rw [tail.requests_cons unlinked, quiet, next, before]
    rfl

theorem transferred (tail : (b.advanceLcd cycles).OnLine batches scan transfer rest) (h : b.lcd.Tracks)
    (before : b.lcd.shown ≠ 0) (next : (b.advanceLcd cycles).lcd.shown = 3) :
    b.OnLine (cycles :: batches) 0 (transfer + 1) rest where
  modes := by
    have none : scan = 0 := tail.noScan (by rw [next]; decide)
    have modes := tail.modes
    rw [none] at modes
    exact congrArg₂ List.cons next modes
  noScan _ := rfl
  noTransfer zero := absurd zero before
  inOrder _ _ := Nat.succ_pos _
  ends zero _ := tail.ends zero (by rw [next]; decide)
  requests unlinked := by
    have quiet : Update.asks ⟨b, cycles⟩ = false := by
      apply Bool.eq_false_iff.mpr
      intro asked
      exact Lcd.not_selected_transfer _ (next ▸ ((asks_iff h unlinked cycles).mp asked).2)
    rw [tail.requests_cons unlinked, quiet, next]
    simp [before]

theorem rested (tail : (b.advanceLcd cycles).OnLine batches scan transfer rest) (h : b.lcd.Tracks)
    (before : b.lcd.shown ≠ 2) (next : (b.advanceLcd cycles).lcd.shown = 0) :
    b.OnLine (cycles :: batches) 0 0 (rest + 1) where
  modes := by
    have noScan : scan = 0 := tail.noScan (by rw [next]; decide)
    have noTransfer : transfer = 0 := tail.noTransfer next
    have modes := tail.modes
    rw [noScan, noTransfer] at modes
    exact congrArg₂ List.cons next modes
  noScan _ := rfl
  noTransfer _ := rfl
  inOrder _ scan := absurd scan before
  ends _ _ := Nat.succ_pos _
  requests unlinked := by
    rw [tail.requests_cons unlinked, next]
    by_cases zero : b.lcd.shown = 0
    · rw [asks_eq_false h unlinked (next.trans zero.symm)]
      simp [zero]
    · rw [asks_of_entry h unlinked next zero (Lcd.selected_rest _)]
      simp [zero]

end OnLine

theorem exists_onLine (h : b.lcd.Tracks) (visible : b.lcd.line.toNat ≤ 143) (short : Short batches)
    (here : ∀ u ∈ b.updates batches, u.line = b.lcd.line.toNat) :
    ∃ scan transfer rest, b.OnLine batches scan transfer rest := by
  induction batches generalizing b with
  | nil => exact ⟨0, 0, 0, .nil b⟩
  | cons cycles batches ih =>
    obtain ⟨first, later⟩ := List.forall_mem_cons.mp short
    obtain ⟨line, here⟩ := List.forall_mem_cons.mp here
    change (b.advanceLcd cycles).lcd.line.toNat = b.lcd.line.toNat at line
    -- The stretches of the later updates are there first; this update goes in front of the one that it shows.
    obtain ⟨scan, transfer, rest, tail⟩ := ih (tracks_advanceLcd h first) (line ▸ visible) later (line ▸ here)
    cases turn_advanceLcd h first with
    | stays mode =>
      rcases h.shown_of_visible (by omega) with two | three | zero
      · exact ⟨_, _, _, tail.scanned h two (mode.trans two)⟩
      · exact ⟨_, _, _, tail.transferred h (by rw [three]; decide) (mode.trans three)⟩
      · exact ⟨_, _, _, tail.rested h (by rw [zero]; decide) (mode.trans zero)⟩
    | transfer before next => exact ⟨_, _, _, tail.transferred h (by rw [before]; decide) next⟩
    | rest before next => exact ⟨_, _, _, tail.rested h (by rw [before]; decide) next⟩
    | blankLine _ _ late => omega
    | nextLine _ _ _ next => omega
    | blank _ _ last next => omega
    | top _ _ last next => omega

/-- A visit to a visible line shows the modes in their order, each in one stretch and none left out if the line is
left again, and it requests those that are selected. -/
structure LineShown (status : UInt8) (b : Board) (batches later : List Nat) (line : Nat)
    (scan transfer rest : Nat) : Prop where
  modes : (b.updates batches).map Update.mode =
    List.replicate scan 2 ++ List.replicate transfer 3 ++ List.replicate rest 0
  scanned : 0 < scan
  inOrder : 0 < rest → 0 < transfer
  whole : (b.updateAll batches).Leaves (· = line) later → 0 < rest
  requests : Byte.has status 0x40 = false → (b.updates batches).countP Update.asks =
    (Byte.has status 0x20).toNat + if 0 < rest then (Byte.has status 0x08).toNat else 0

theorem shown_of_leaves (h : b.lcd.Tracks) (visible : b.lcd.line.toNat ≤ 143) {later : List Nat} (short : Short later)
    (leaves : b.Leaves (· = b.lcd.line.toNat) later) : b.lcd.shown = 0 := by
  obtain ⟨u, first, elsewhere⟩ := leaves
  cases later with
  | nil => cases first
  | cons cycles later =>
    obtain rfl : Update.mk b cycles = u := Option.some.inj first
    have line : (b.advanceLcd cycles).lcd.line ≠ b.lcd.line := fun same => elsewhere (congrArg UInt8.toNat same)
    cases turn_advanceLcd h (short cycles List.mem_cons_self) with
    | stays _ same => exact absurd same line
    | transfer _ _ same => exact absurd same line
    | rest _ _ same => exact absurd same line
    | nextLine zero => exact zero
    | blank zero => exact zero
    | blankLine _ _ late => omega
    | top _ _ last => omega

theorem scan_of_entry (h : b.lcd.Tracks) (first : 1 ≤ cycles ∧ cycles ≤ 80)
    (visible : (b.advanceLcd cycles).lcd.line.toNat ≤ 143)
    (enters : (b.advanceLcd cycles).lcd.line.toNat ≠ b.lcd.line.toNat) :
    b.lcd.shown ≠ 2 ∧ (b.advanceLcd cycles).lcd.shown = 2 := by
  cases turn_advanceLcd h first with
  | stays _ same => exact absurd (congrArg UInt8.toNat same) enters
  | transfer _ _ same => exact absurd (congrArg UInt8.toNat same) enters
  | rest _ _ same => exact absurd (congrArg UInt8.toNat same) enters
  | nextLine zero two => exact ⟨by rw [zero]; decide, two⟩
  | top one two => exact ⟨by rw [one]; decide, two⟩
  | blank _ _ _ line => omega
  | blankLine _ _ late line => omega

theorem updateAll_line {line : Nat} (here : ∀ u ∈ b.updates batches, u.line = line) (start : b.lcd.line.toNat = line) :
    (b.updateAll batches).lcd.line.toNat = line := by
  induction batches generalizing b with
  | nil => exact start
  | cons cycles batches ih =>
    obtain ⟨first, later⟩ := List.forall_mem_cons.mp here
    exact ih later first

theorem exists_lineShown (h : b.lcd.Tracks) {status : UInt8} (same : b.lcd.status &&& 0x78 = status &&& 0x78)
    (short : Short batches) {later : List Nat} (short' : Short later) {line : Nat} (visible : line ≤ 143)
    (visit : b.Visits (· = line) batches) :
    ∃ scan transfer rest, LineShown status b batches later line scan transfer rest := by
  obtain ⟨outside, enters, inside⟩ := visit
  cases batches with
  | nil => exact absurd rfl enters
  | cons cycles batches =>
    obtain ⟨first, others⟩ := List.forall_mem_cons.mp short
    obtain ⟨entered, here⟩ := List.forall_mem_cons.mp inside
    change (b.advanceLcd cycles).lcd.line.toNat = line at entered
    obtain ⟨before, scan⟩ := scan_of_entry h first (entered ▸ visible) (entered ▸ Ne.symm outside)
    have next := tracks_advanceLcd h first
    obtain ⟨scans, transfer, rest, shown⟩ := exists_onLine next (entered ▸ visible) others (entered ▸ here)
    have last : ((b.advanceLcd cycles).updateAll batches).lcd.line.toNat = line := updateAll_line here entered
    refine ⟨scans + 1, transfer, rest, ?_, Nat.succ_pos _, fun some => shown.inOrder some scan, ?_, ?_⟩
    · exact congrArg₂ List.cons scan shown.modes
    · intro leaves
      -- The update that leaves the line is behind the visit, and it can only leave from mode 0.
      have zero := shown_of_leaves (tracks_updateAll next others) (by rw [← last] at visible; exact visible) short'
        (by rw [← last] at leaves; exact leaves)
      exact shown.ends zero (by rw [scan]; decide)
    · rw [← Lcd.has_of_selects same rfl, ← Lcd.has_of_selects same rfl, ← Lcd.has_of_selects same rfl]
      intro unlinked
      rw [shown.requests_cons unlinked, asks_of_entry h unlinked scan before (Lcd.selected_scan _), scan, Nat.add_comm]
      simp

theorem blank_goes_on (h : b.lcd.Tracks) (late : 144 ≤ b.lcd.line.toNat) (short : Short batches)
    (here : ∀ u ∈ b.updates batches, 144 ≤ u.line) :
    (∀ u ∈ b.updates batches, u.mode = 1) ∧
      (Byte.has b.lcd.status 0x40 = false → (b.updates batches).countP Update.asks = 0) := by
  induction batches generalizing b with
  | nil => exact ⟨fun u listed => absurd listed List.not_mem_nil, fun _ => rfl⟩
  | cons cycles batches ih =>
    obtain ⟨first, later⟩ := List.forall_mem_cons.mp short
    obtain ⟨stays, others⟩ := List.forall_mem_cons.mp here
    change 144 ≤ (b.advanceLcd cycles).lcd.line.toNat at stays
    have next := tracks_advanceLcd h first
    obtain ⟨modes, quiet⟩ := ih next stays later others
    refine ⟨List.forall_mem_cons.mpr ⟨next.shown_of_blank stays, modes⟩, ?_⟩
    intro unlinked
    have silent := asks_eq_false h unlinked ((next.shown_of_blank stays).trans (h.shown_of_blank late).symm)
    rw [countP_updates, silent, quiet ((has_advanceLcd rfl cycles b).trans unlinked)]
    rfl

/-- A vertical blank requests the interrupt once, when it is entered, if that is selected. -/
theorem blank_visit (h : b.lcd.Tracks) {status : UInt8} (same : b.lcd.status &&& 0x78 = status &&& 0x78)
    (short : Short batches) (visit : b.Visits (144 ≤ ·) batches) :
    (∀ u ∈ b.updates batches, u.mode = 1) ∧ (Byte.has status 0x40 = false →
      (b.updates batches).countP Update.asks = (Byte.has status 0x10).toNat) := by
  rw [← Lcd.has_of_selects same rfl, ← Lcd.has_of_selects same rfl]
  obtain ⟨outside, enters, inside⟩ := visit
  cases batches with
  | nil => exact absurd rfl enters
  | cons cycles batches =>
    obtain ⟨first, others⟩ := List.forall_mem_cons.mp short
    obtain ⟨entered, here⟩ := List.forall_mem_cons.mp inside
    change 144 ≤ (b.advanceLcd cycles).lcd.line.toNat at entered
    have next := tracks_advanceLcd h first
    have one := next.shown_of_blank entered
    have before : b.lcd.shown ≠ 1 := fun shown => outside (h.shown_eq_one.mp shown)
    obtain ⟨modes, quiet⟩ := blank_goes_on next entered others here
    refine ⟨List.forall_mem_cons.mpr ⟨one, modes⟩, ?_⟩
    intro unlinked
    rw [countP_updates, quiet ((has_advanceLcd rfl cycles b).trans unlinked),
      asks_of_entry h unlinked one before (Lcd.selected_blank _), Nat.zero_add]

/-- The flag of the status interrupt is set by the updates that ask for it. -/
theorem requests_after (u : Update) :
    Byte.has u.after.requests Interrupt.stat.mask = (Byte.has u.before.requests Interrupt.stat.mask || u.asks) := by
  rw [Update.after, requests_advanceLcd, Update.asks, Lcd.asks]
  generalize (u.before.lcd.advance u.cycles).1 = asked
  obtain ⟨vblank, stat⟩ := asked
  simp only [Byte.has, Byte.or_and]
  have apart : (if vblank then Interrupt.vblank.mask else 0) &&& Interrupt.stat.mask = 0 := by cases vblank <;> rfl
  rw [apart, UInt8.or_zero]
  cases stat with
  | none => simp
  | some event =>
    have set : u.before.requests &&& Interrupt.stat.mask ||| Interrupt.stat.mask = Interrupt.stat.mask := by
      rw [UInt8.or_comm]
      exact Byte.or_and_self _ _
    simp only [Option.isSome_some, if_true, UInt8.and_self, set, Bool.or_true]
    rfl

/-- Updates of at most 80 cycles take a board that is in step with its place through the modes in their order. The
mode only stays or goes from 2 to 3, from 3 to 0, from 0 to 2 on the next line or to 1 behind the last visible one,
and from 1 to 2 at the top. A visible line that is entered shows 2, 3 and 0, each in one stretch, and the blank
shows 1 only. Without the interrupt of the line, an update requests the status interrupt exactly when it begins a
selected mode: once in a line for the modes 2 and 0, and once in a blank for the mode 1. -/
theorem modes_take_turns {b : Board} (tracks : b.lcd.Tracks) (batches : List Nat) (short : Short batches) :
    (∀ u ∈ b.updates batches, u.before.lcd.Turn u.after.lcd ∧ (u.mode = 1 ↔ 144 ≤ u.line) ∧
      Byte.has u.after.requests Interrupt.stat.mask = (Byte.has u.before.requests Interrupt.stat.mask || u.asks)) ∧
    (Byte.has b.lcd.status 0x40 = false → ∀ u ∈ b.updates batches,
      (u.asks = true ↔ u.mode ≠ u.before.lcd.shown ∧ Lcd.Selected b.lcd.status u.mode)) ∧
    ∀ earlier visit later, batches = earlier ++ visit ++ later →
      let start := b.updateAll earlier
      (∀ line ≤ 143, start.Visits (· = line) visit →
        ∃ scan transfer rest, LineShown b.lcd.status start visit later line scan transfer rest) ∧
      (start.Visits (144 ≤ ·) visit → (∀ u ∈ start.updates visit, u.mode = 1) ∧
        (Byte.has b.lcd.status 0x40 = false →
          (start.updates visit).countP Update.asks = (Byte.has b.lcd.status 0x10).toNat)) := by
  refine ⟨?_, ?_, ?_⟩
  · intro u listed
    obtain ⟨before, batch, _⟩ := tracks_updates tracks short listed
    exact ⟨turn_advanceLcd before batch, (tracks_advanceLcd before batch).shown_eq_one, requests_after u⟩
  · intro unlinked u listed
    obtain ⟨before, batch, same⟩ := tracks_updates tracks short listed
    have asked := asks_iff before ((Lcd.has_of_selects same rfl).trans unlinked) u.cycles
    rw [Lcd.Selected, Lcd.has_of_selects same rfl, Lcd.has_of_selects same rfl, Lcd.has_of_selects same rfl] at asked
    exact asked
  · rintro earlier visit later rfl start
    obtain ⟨begun, short'⟩ := List.forall_mem_append.mp short
    obtain ⟨first, middle⟩ := List.forall_mem_append.mp begun
    have here := tracks_updateAll tracks first
    have same := selects_updateAll earlier b
    refine ⟨?_, blank_visit here same middle⟩
    intro line visible visit
    exact exists_lineShown here same middle short' visible visit

/-- The last visible line and the blank behind it, in batches of 57 cycles with all modes selected. -/
theorem modes_take_turns_to_blank :
    let b : Board := { postBoot {} with lcd := { Lcd.postBoot with status := 0xBA, line := 142 } }
    let line := List.replicate 8 57
    let entry := List.replicate 7 57
    b.lcd.Tracks ∧ Short (entry ++ line ++ line) ∧
      (∃ scan transfer rest, LineShown 0xBA (b.updateAll entry) line line 143 scan transfer rest ∧ 0 < rest) ∧
      ((b.updateAll (entry ++ line)).updates line).countP Update.asks = 1 := by
  intro b line entry
  have tracks : b.lcd.Tracks :=
    ⟨by decide +kernel, by decide +kernel, by decide +kernel, by decide +kernel, by decide +kernel⟩
  have short : Short (entry ++ line ++ line) := by
    unfold Short
    decide
  obtain ⟨_, _, visits⟩ := modes_take_turns tracks (entry ++ line ++ line) short
  have visit : (b.updateAll entry).Visits (· = 143) line := ⟨by decide +kernel, by decide, by decide +kernel⟩
  have blank : (b.updateAll (entry ++ line)).Visits (144 ≤ ·) line := ⟨by decide +kernel, by decide, by decide +kernel⟩
  obtain ⟨scan, transfer, rest, shown⟩ := (visits entry line line rfl).1 143 (by decide) visit
  have leaves : ((b.updateAll entry).updateAll line).Leaves (· = 143) line :=
    ⟨⟨(b.updateAll entry).updateAll line, 57⟩, rfl, by decide +kernel⟩
  have once := ((visits (entry ++ line) line [] (by rw [List.append_nil])).2 blank).2 (by decide +kernel)
  exact ⟨tracks, short, ⟨scan, transfer, rest, shown, shown.whole leaves⟩, once.trans (by decide +kernel)⟩

end DotMatrix.Board
