import DotMatrix.Cartridge.Basic
import DotMatrix.Proofs.Board.History
import DotMatrix.Proofs.Byte

/-!
The control registers of a cartridge, read off what has been written. Each controller keeps a few bits of the last
write to each part of the ROM area, and the first controller sends the upper bits to the bank that the mode of the
time has named.
-/

namespace DotMatrix

namespace History

def ramEnabled : History → Bool := last (fun write _ => write.into 0x0000 0x1FFF) (·.toNat % 16 == 0xA) false

def ramMode : History → Bool := last (fun write _ => write.into 0x6000 0x7FFF) (· != 0) false

/-- The lower bits of a bank number: bank zero becomes bank one, which is also the first. -/
def lowBank (modulus : Nat) : History → Nat :=
  last (fun write _ => write.into 0x2000 0x3FFF)
    (fun byte => if byte.toNat % modulus = 0 then 1 else byte.toNat % modulus) 1

/-- The two bits of the first controller that have last been written in a mode. -/
def upperBits (inRamMode : Bool) : History → Nat :=
  last (fun write earlier => write.into 0x4000 0x5FFF && earlier.ramMode == inRamMode) (·.toNat % 4) 0

def selects (byte : UInt8) : Bool := byte.toNat ≤ 0x03 || 0x08 ≤ byte.toNat && byte.toNat ≤ 0x0C

/-- The last selector that has been written; other values are passed over. -/
def selector : History → Nat :=
  last (fun write _ => write.into 0x4000 0x5FFF && selects write.byte) (·.toNat) 0

def romBank (history : History) : Controller → Nat
  | .plain => 1
  | .mbc1 => 32 * history.upperBits false + history.lowBank 32
  | .mbc3 => history.lowBank 128

variable {α : Type} {history : History} {write : Write} {meets : Write → History → Bool} {value : UInt8 → α}
  {initial : α}

theorem last_miss_part {first last' : Nat} {also : Write → History → Bool}
    (outside : write.into first last' = false) :
    last (fun write earlier => write.into first last' && also write earlier) value initial (write :: history) =
      last (fun write earlier => write.into first last' && also write earlier) value initial history :=
  last_miss (by rw [outside, Bool.false_and])

theorem ramEnabled_hit (hit : write.into 0x0000 0x1FFF = true) :
    ramEnabled (write :: history) = (write.byte.toNat % 16 == 0xA) := last_hit hit

theorem ramMode_hit (hit : write.into 0x6000 0x7FFF = true) : ramMode (write :: history) = (write.byte != 0) :=
  last_hit hit

theorem lowBank_hit {modulus : Nat} (hit : write.into 0x2000 0x3FFF = true) :
    lowBank modulus (write :: history) =
      if write.byte.toNat % modulus = 0 then 1 else write.byte.toNat % modulus := last_hit hit

theorem upperBits_hit {inRamMode : Bool} (hit : write.into 0x4000 0x5FFF = true)
    (current : history.ramMode = inRamMode) :
    upperBits inRamMode (write :: history) = write.byte.toNat % 4 :=
  last_hit (by rw [hit, current, Bool.true_and, beq_self_eq_true])

theorem upperBits_other {inRamMode : Bool} (current : history.ramMode ≠ inRamMode) :
    upperBits inRamMode (write :: history) = history.upperBits inRamMode :=
  last_miss (by rw [beq_false_of_ne current, Bool.and_false])

theorem selector_hit (hit : write.into 0x4000 0x5FFF = true) (chosen : selects write.byte = true) :
    selector (write :: history) = write.byte.toNat := last_hit (by rw [hit, chosen, Bool.true_and])

theorem selector_other (passed : selects write.byte = false) : selector (write :: history) = history.selector :=
  last_miss (by rw [passed, Bool.and_false])

theorem lowBank_lt {modulus : Nat} (large : 1 < modulus) (history : History) : history.lowBank modulus < modulus := by
  apply last_keeps (P := (· < modulus)) large
  intro write _ _
  split
  next => exact large
  next => exact Nat.mod_lt _ (by omega)

theorem upperBits_lt (inRamMode : Bool) (history : History) : history.upperBits inRamMode < 4 := by
  apply last_keeps (P := (· < 4)) (by decide)
  intro write _ _
  exact Nat.mod_lt _ (by decide)

end History

theorem Write.into_parts {write : Write} {register : Nat} (part : write.address.toNat / 0x2000 = register) :
    write.into 0x0000 0x1FFF = decide (register = 0) ∧ write.into 0x2000 0x3FFF = decide (register = 1) ∧
      write.into 0x4000 0x5FFF = decide (register = 2) ∧ write.into 0x6000 0x7FFF = decide (register = 3) := by
  simp only [Write.into, ← Bool.decide_and, decide_eq_decide]
  omega

theorem Write.into_none {write : Write} (high : 0x8000 ≤ write.address.toNat) :
    write.into 0x0000 0x1FFF = false ∧ write.into 0x2000 0x3FFF = false ∧ write.into 0x4000 0x5FFF = false ∧
      write.into 0x6000 0x7FFF = false := by
  simp only [Write.into, Bool.and_eq_false_iff, decide_eq_false_iff_not]
  omega

theorem opensRam_eq (byte : UInt8) : opensRam byte = (byte.toNat % 16 == 0xA) := by
  have low : (byte &&& 0x0F).toNat = byte.toNat % 16 := Byte.toNat_and_mask byte 4 (by decide)
  rw [opensRam, ← low]
  apply Bool.eq_iff_iff.mpr
  rw [beq_iff_eq, beq_iff_eq, ← UInt8.toNat_inj]
  rfl

theorem toNat_nonzeroBank (byte : UInt8) (bits : Nat) (small : bits ≤ 8) :
    (nonzeroBank (byte &&& UInt8.ofNat (2 ^ bits - 1))).toNat =
      if byte.toNat % 2 ^ bits = 0 then 1 else byte.toNat % 2 ^ bits := by
  have masked := Byte.toNat_and_mask byte bits small
  generalize byte &&& UInt8.ofNat (2 ^ bits - 1) = bank at masked ⊢
  have zero : bank = 0 ↔ bank.toNat = 0 := UInt8.toNat_inj.symm
  rw [nonzeroBank, ← masked]
  simp only [zero]
  split <;> rfl

open History

namespace Mbc1

structure Packed (state : Mbc1) : Prop where
  low : state.lowBits.toNat < 32
  high : state.highBits.toNat < 4

theorem byte_parts : ∀ high : UInt8, high.toNat < 4 → ∀ low : UInt8, low.toNat < 32 →
    (high <<< (5 : UInt8) ||| low) &&& 0x60 = high <<< (5 : UInt8) ∧
      (high <<< (5 : UInt8) ||| low) &&& 0x1F = low := by
  decide +kernel

/-- A write to one part leaves the other part of the byte as it is. -/
theorem Packed.romBank_write {state : Mbc1} (h : state.Packed) (register : Fin 4) (value : UInt8) :
    (state.write register value).1.romBank =
      match register with
      | 1 => state.romBank &&& 0x60 ||| nonzeroBank (value &&& 0x1F)
      | 2 => if state.mode = .rom then (value &&& 0x03) <<< 5 ||| state.romBank &&& 0x1F else state.romBank
      | _ => state.romBank := by
  obtain ⟨upper, lower⟩ := byte_parts _ h.high _ h.low
  match register with
  | 0 | 3 => rfl
  | 1 =>
    simp only [romBank, upper]
    rfl
  | 2 =>
    simp only [romBank, lower, Mbc1.write]
    cases state.mode <;> rfl

structure Follows (history : History) (state : Mbc1) : Prop where
  lowBits : state.lowBits.toNat = history.lowBank 32
  highBits : state.highBits.toNat = history.upperBits false
  ramBank : state.ramBank.toNat = history.upperBits true
  ramEnabled : state.ramEnabled = history.ramEnabled
  mode : (state.mode == .ram) = history.ramMode

variable {history : History} {last : Write} {state : Mbc1}

theorem follows_initial : ({} : Mbc1).Follows [] := ⟨rfl, rfl, rfl, rfl, rfl⟩

/-- The upper bits go where the mode sends them. -/
theorem Follows.writeUpper (h : state.Follows history) (part : last.address.toNat / 0x2000 = 2) :
    (state.write 2 last.byte).1.Follows (last :: history) := by
  obtain ⟨lock, low, upper, mode⟩ := Write.into_parts part
  -- One of the two registers takes the bits; for the other this write was made in the wrong mode.
  have bits : (last.byte &&& 0x03).toNat = last.byte.toNat % 4 := Byte.toNat_and_mask last.byte 2 (by decide)
  have current := h.mode
  cases chosen : state.mode with
  | rom =>
    have same : (state.write 2 last.byte).1 = { state with highBits := last.byte &&& 0x03 } := by
      simp only [Mbc1.write, chosen]
    replace current : history.ramMode = false := by rw [← current, chosen]; rfl
    rw [same]
    exact ⟨h.lowBits.trans (last_miss low).symm, bits.trans (upperBits_hit upper current).symm,
      h.ramBank.trans (upperBits_other (by rw [current]; decide)).symm, h.ramEnabled.trans (last_miss lock).symm,
      h.mode.trans (last_miss mode).symm⟩
  | ram =>
    have same : (state.write 2 last.byte).1 = { state with ramBank := last.byte &&& 0x03 } := by
      simp only [Mbc1.write, chosen]
    replace current : history.ramMode = true := by rw [← current, chosen]; rfl
    rw [same]
    exact ⟨h.lowBits.trans (last_miss low).symm,
      h.highBits.trans (upperBits_other (by rw [current]; decide)).symm,
      bits.trans (upperBits_hit upper current).symm, h.ramEnabled.trans (last_miss lock).symm,
      h.mode.trans (last_miss mode).symm⟩

theorem Follows.write (h : state.Follows history) {register : Fin 4}
    (part : last.address.toNat / 0x2000 = register.val) :
    (state.write register last.byte).1.Follows (last :: history) := by
  obtain ⟨lock, low, upper, mode⟩ := Write.into_parts part
  match register with
  | 0 =>
    exact ⟨h.lowBits.trans (last_miss low).symm, h.highBits.trans (last_miss_part upper).symm,
      h.ramBank.trans (last_miss_part upper).symm, (opensRam_eq _).trans (ramEnabled_hit lock).symm,
      h.mode.trans (last_miss mode).symm⟩
  | 1 =>
    exact ⟨(toNat_nonzeroBank _ 5 (by decide)).trans (lowBank_hit low).symm,
      h.highBits.trans (last_miss_part upper).symm, h.ramBank.trans (last_miss_part upper).symm,
      h.ramEnabled.trans (last_miss lock).symm, h.mode.trans (last_miss mode).symm⟩
  | 2 => exact h.writeUpper part
  | 3 =>
    refine ⟨h.lowBits.trans (last_miss low).symm, h.highBits.trans (last_miss_part upper).symm,
      h.ramBank.trans (last_miss_part upper).symm, h.ramEnabled.trans (last_miss lock).symm, ?_⟩
    rw [ramMode_hit mode, bne]
    simp only [Mbc1.write]
    by_cases zero : last.byte = 0
    · rw [if_pos zero, zero]; rfl
    · rw [if_neg zero, beq_false_of_ne zero]; rfl

theorem Follows.pass (h : state.Follows history) (high : 0x8000 ≤ last.address.toNat) :
    state.Follows (last :: history) := by
  obtain ⟨lock, low, upper, mode⟩ := Write.into_none high
  exact ⟨h.lowBits.trans (last_miss low).symm, h.highBits.trans (last_miss_part upper).symm,
    h.ramBank.trans (last_miss_part upper).symm, h.ramEnabled.trans (last_miss lock).symm,
    h.mode.trans (last_miss mode).symm⟩

theorem Follows.packed (h : state.Follows history) : state.Packed where
  low := h.lowBits ▸ lowBank_lt (by decide) history
  high := h.highBits ▸ upperBits_lt false history

theorem Follows.romBank (h : state.Follows history) : state.romBank.toNat = history.romBank .mbc1 := by
  obtain ⟨low, high⟩ := h.packed
  have shifted : state.highBits.toNat <<< 5 < 2 ^ 8 := by
    rw [Nat.shiftLeft_eq]
    omega
  calc
    state.romBank.toNat = state.highBits.toNat <<< 5 ||| state.lowBits.toNat := by
      rw [Mbc1.romBank, UInt8.toNat_or, UInt8.toNat_shiftLeft]
      exact congrArg (· ||| state.lowBits.toNat) (Nat.mod_eq_of_lt shifted)
    _ = state.highBits.toNat <<< 5 + state.lowBits.toNat := (Nat.shiftLeft_add_eq_or_of_lt low _).symm
    _ = history.romBank .mbc1 := by
      rw [History.romBank, ← h.lowBits, ← h.highBits, Nat.shiftLeft_eq, Nat.mul_comm]

end Mbc1

inductive Window.Shows : Window → Nat → Prop
  | bank {number : UInt8} (small : number.toNat ≤ 3) : Shows (.bank number) number.toNat
  | clock (register : Fin 5) : Shows (.clock register) (8 + register.val)

namespace Mbc3

structure Follows (history : History) (state : Mbc3) : Prop where
  romBank : state.romBank.toNat = history.lowBank 128
  window : state.window.Shows history.selector
  ramEnabled : state.ramEnabled = history.ramEnabled

variable {history : History} {last : Write} {state : Mbc3}

theorem follows_initial : ({} : Mbc3).Follows [] := ⟨rfl, .bank (by decide), rfl⟩

theorem windowOf?_of_selects {byte : UInt8} (chosen : selects byte = true) :
    ∃ window, windowOf? byte = some window ∧ window.Shows byte.toNat := by
  simp only [selects, Bool.or_eq_true, Bool.and_eq_true, decide_eq_true_eq] at chosen
  by_cases small : byte ≤ 0x03
  · exact ⟨.bank byte, if_pos small, .bank (UInt8.le_iff_toNat_le.mp small)⟩
  · have clock : 8 ≤ byte.toNat ∧ byte.toNat < 13 := by
      have := UInt8.le_iff_toNat_le.not.mp small
      rw [show (0x03 : UInt8).toNat = 3 from rfl] at this
      omega
    refine ⟨.clock ⟨byte.toNat - 8, by omega⟩, ?_, ?_⟩
    · rw [windowOf?, if_neg small, dif_pos clock]
    · have shown := Window.Shows.clock ⟨byte.toNat - 8, by omega⟩
      rwa [show 8 + (byte.toNat - 8) = byte.toNat by omega] at shown

theorem windowOf?_of_passed {byte : UInt8} (passed : selects byte = false) : windowOf? byte = none := by
  simp only [selects, Bool.or_eq_false_iff, Bool.and_eq_false_iff, decide_eq_false_iff_not] at passed
  have large : ¬byte ≤ 0x03 := fun small => passed.1 (UInt8.le_iff_toNat_le.mp small)
  rw [windowOf?, if_neg large, dif_neg (by omega)]

theorem Follows.writeWindow (h : state.Follows history) (part : last.address.toNat / 0x2000 = 2) :
    ((windowOf? last.byte).getD state.window).Shows (selector (last :: history)) := by
  obtain ⟨_, _, upper, _⟩ := Write.into_parts part
  cases chosen : selects last.byte with
  | true =>
    obtain ⟨window, found, shows'⟩ := windowOf?_of_selects chosen
    rw [found, selector_hit upper chosen]
    exact shows'
  | false =>
    rw [windowOf?_of_passed chosen, selector_other chosen]
    exact h.window

theorem Follows.write (h : state.Follows history) {register : Fin 4}
    (part : last.address.toNat / 0x2000 = register.val) :
    (state.write register last.byte).1.Follows (last :: history) := by
  obtain ⟨lock, low, upper, _⟩ := Write.into_parts part
  have window (other : last.into 0x4000 0x5FFF = false) : state.window.Shows (selector (last :: history)) := by
    rw [selector, last_miss_part other]
    exact h.window
  match register with
  | 0 => exact ⟨h.romBank.trans (last_miss low).symm, window upper, (opensRam_eq _).trans (ramEnabled_hit lock).symm⟩
  | 1 =>
    exact ⟨(toNat_nonzeroBank _ 7 (by decide)).trans (lowBank_hit low).symm, window upper,
      h.ramEnabled.trans (last_miss lock).symm⟩
  | 2 =>
    exact ⟨h.romBank.trans (last_miss low).symm, h.writeWindow part, h.ramEnabled.trans (last_miss lock).symm⟩
  | 3 =>
    exact ⟨h.romBank.trans (last_miss low).symm, window upper, h.ramEnabled.trans (last_miss lock).symm⟩

theorem Follows.pass (h : state.Follows history) (high : 0x8000 ≤ last.address.toNat) :
    state.Follows (last :: history) := by
  obtain ⟨lock, low, upper, _⟩ := Write.into_none high
  refine ⟨h.romBank.trans (last_miss low).symm, ?_, h.ramEnabled.trans (last_miss lock).symm⟩
  rw [selector, last_miss_part upper]
  exact h.window

end Mbc3

namespace Mapper

inductive Follows (history : History) : Controller → Mapper → Prop
  | plain : Follows history .plain .plain
  | mbc1 {state : Mbc1} (registers : state.Follows history) : Follows history .mbc1 (.mbc1 state)
  | mbc3 {state : Mbc3} (registers : state.Follows history) : Follows history .mbc3 (.mbc3 state)

variable {history : History} {last : Write} {controller : Controller} {mapper : Mapper}

theorem follows_initial (controller : Controller) : (initial controller).Follows [] controller := by
  cases controller with
  | plain => exact .plain
  | mbc1 => exact .mbc1 Mbc1.follows_initial
  | mbc3 => exact .mbc3 Mbc3.follows_initial

theorem Follows.write (h : mapper.Follows history controller) {register : Fin 4}
    (part : last.address.toNat / 0x2000 = register.val) :
    (mapper.write register last.byte).1.Follows (last :: history) controller := by
  cases h with
  | plain => exact .plain
  | mbc1 registers => exact .mbc1 (registers.write part)
  | mbc3 registers => exact .mbc3 (registers.write part)

theorem Follows.pass (h : mapper.Follows history controller) (high : 0x8000 ≤ last.address.toNat) :
    mapper.Follows (last :: history) controller := by
  cases h with
  | plain => exact .plain
  | mbc1 registers => exact .mbc1 (registers.pass high)
  | mbc3 registers => exact .mbc3 (registers.pass high)

theorem Follows.setClockByte (h : mapper.Follows history controller) (register : Fin 5) (value : UInt8) :
    (mapper.setClockByte register value).Follows history controller := by
  cases h with
  | plain => exact .plain
  | mbc1 registers => exact .mbc1 registers
  | mbc3 registers => exact .mbc3 ⟨registers.romBank, registers.window, registers.ramEnabled⟩

theorem Follows.romBank (h : mapper.Follows history controller) : mapper.romBank = history.romBank controller := by
  cases h with
  | plain => rfl
  | mbc1 registers => exact registers.romBank
  | mbc3 registers => exact registers.romBank

end Mapper

end DotMatrix
