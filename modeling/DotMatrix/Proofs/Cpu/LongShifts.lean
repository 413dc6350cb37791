import DotMatrix.Proofs.Byte
import DotMatrix.Proofs.Cpu.Execution
import DotMatrix.Proofs.Cpu.Numerals
import Mathlib.Tactic.LinearCombination

/-!
Shifts of numbers that take several bytes. A program moves such a number byte by byte, to the left from the lowest
byte on and to the right from the highest, and the carry flag hands the bit that leaves one byte to the next. Twice
the number, or half of it, remains exactly if nothing in between touches the carry.
-/

namespace DotMatrix

namespace ShiftOp

def goesLeft : ShiftOp → Bool
  | rlc | rl | sla => true
  | _ => false

def goesRight : ShiftOp → Bool
  | rrc | rr | sra | srl => true
  | _ => false

def entering (op : ShiftOp) (byte : UInt8) (carry : Bool) : Bool :=
  match op with
  | rl | rr => carry
  | rlc | sra => Byte.has byte 0x80
  | rrc => Byte.has byte 0x01
  | sla | srl | swap => false

def opcode : ShiftOp → UInt8
  | rlc => 0x00 | rrc => 0x08 | rl => 0x10 | rr => 0x18 | sla => 0x20 | sra => 0x28 | swap => 0x30 | srl => 0x38

theorem decodeSecond_opcode (op : ShiftOp) : Opcode.decodeSecond op.opcode = .shift op (.register .b) := by
  cases op <;> rfl

end ShiftOp

namespace Arithmetic

/-- A byte that moves to the left, with the bit that leaves it above. -/
theorem tally_left {op : ShiftOp} (left : op.goesLeft = true) (x : UInt8) (carry : Bool) :
    (shift op x carry).1.toNat + 256 * (shift op x carry).2.carry.toNat =
      2 * x.toNat + (op.entering x carry).toNat := by
  revert x
  cases op with
  | rlc | rl | sla => cases carry <;> decide +kernel
  | rrc | rr | sra | swap | srl => cases left

/-- A byte that moves to the right, with the bit that leaves it below. -/
theorem tally_right {op : ShiftOp} (right : op.goesRight = true) (x : UInt8) (carry : Bool) :
    2 * (shift op x carry).1.toNat + (shift op x carry).2.carry.toNat =
      x.toNat + 256 * (op.entering x carry).toNat := by
  revert x
  cases op with
  | rrc | rr | sra | srl => cases carry <;> decide +kernel
  | rlc | rl | sla | swap => cases right

end Arithmetic

namespace Numerals

variable {xs : List UInt8}

/-- The number that bytes make in two's complement. -/
def signedValue (bytes : List UInt8) : Int := Int.bmod (binary.value bytes) (256 ^ bytes.length)

theorem binary_cons (x : UInt8) (rest : List UInt8) :
    binary.value (x :: rest) = x.toNat + 256 * binary.value rest := rfl

theorem binary_snoc (x : UInt8) (rest : List UInt8) :
    binary.value (rest ++ [x]) = binary.value rest + 256 ^ rest.length * x.toNat := value_append

theorem all_valid (bytes : List UInt8) : ∀ x ∈ bytes, binary.valid x := fun _ _ => trivial

theorem signedValue_eq (bytes : List UInt8) :
    signedValue bytes = binary.value bytes -
      if 256 ^ bytes.length ≤ 2 * binary.value bytes then ((256 ^ bytes.length : Nat) : Int) else 0 := by
  have below := value_lt (all_valid bytes)
  have same : ((binary.value bytes : Nat) : Int) % ((256 ^ bytes.length : Nat) : Int) = binary.value bytes := by
    rw [← Int.natCast_emod]
    exact congrArg Nat.cast (Nat.mod_eq_of_lt below)
  rw [signedValue, Int.bmod_def, same]
  split <;> split <;> omega

theorem highest_has_iff (xs : List UInt8) :
    Byte.has (xs.headD 0) 0x80 = true ↔ 256 ^ xs.length ≤ 2 * binary.value xs.reverse := by
  cases xs with
  | nil => decide
  | cons x rest =>
    have bit : Byte.has x 0x80 = true ↔ 128 ≤ x.toNat := by
      revert x
      decide +kernel
    have below := value_lt (all_valid rest.reverse)
    rw [List.length_reverse] at below
    have whole : binary.value (x :: rest).reverse = binary.value rest.reverse + 256 ^ rest.length * x.toNat := by
      rw [List.reverse_cons, binary_snoc, List.length_reverse]
    rw [List.headD_cons, bit, whole, List.length_cons, Nat.pow_succ]
    change binary.value rest.reverse < 256 ^ rest.length at below
    constructor
    · intro high
      have := Nat.mul_le_mul_left (256 ^ rest.length) high
      omega
    · intro beyond
      by_contra low
      have := Nat.mul_le_mul_left (256 ^ rest.length) (show x.toNat ≤ 127 by omega)
      omega

theorem testBit_top (filled : xs ≠ []) :
    (binary.value xs).testBit (8 * xs.length - 1) = true ↔ 256 ^ xs.length ≤ 2 * binary.value xs := by
  have below : binary.value xs < 2 ^ (8 * xs.length) := by
    rw [Nat.pow_mul]
    exact value_lt (all_valid xs)
  have size : 8 * xs.length = (8 * xs.length - 1) + 1 := by
    have := List.length_pos_iff.mpr filled
    omega
  have range : (256 : Nat) ^ xs.length = 2 * 2 ^ (8 * xs.length - 1) := by
    rw [show (256 : Nat) = 2 ^ 8 from rfl, ← Nat.pow_mul, size, Nat.pow_succ, Nat.mul_comm, ← size]
  rw [size, Nat.pow_succ] at below
  rw [range]
  constructor
  · intro set
    have := Nat.ge_two_pow_of_testBit set
    omega
  · intro beyond
    exact Nat.testBit_of_two_pow_le_and_two_pow_add_one_gt (by omega) (by rw [Nat.pow_succ]; exact below)

theorem testBit_of_halves {half whole : Nat} {bit : Bool} (tally : 2 * half + bit.toNat = whole) :
    half = whole / 2 ∧ bit = whole.testBit 0 := by
  rw [Nat.testBit_zero]
  cases bit with
  | false =>
    rw [Bool.toNat_false] at tally
    exact ⟨by omega, (decide_eq_false (by omega)).symm⟩
  | true =>
    rw [Bool.toNat_true] at tally
    exact ⟨by omega, (decide_eq_true (by omega)).symm⟩

end Numerals

namespace Machine

variable {β : Type} [Bus β] {m : Machine β} {op : ShiftOp}

/-- What is stored in the operand can be read back. -/
def Keeps (target : Operand) (m : Machine β) : Prop :=
  ∀ byte, ((m.writeOperand target byte).readOperand target).1 = byte

theorem keeps_register (name : ByteRegister) (m : Machine β) : m.Keeps (.register name) := by
  intro byte
  change (m.cpu.registers.setByte name byte).byte name = byte
  rw [Registers.byte_setByte, if_pos rfl]

theorem keeps_memory (target : Operand) (m : Machine FlatMemory) : m.Keeps target := by
  cases target with
  | register name => exact keeps_register name m
  | atHL =>
    intro byte
    change (m.bus.put m.cpu.registers.hl byte).get m.cpu.registers.hl = byte
    rw [FlatMemory.get_put, if_pos rfl]

theorem Keeps.setFlags {target : Operand} (h : m.Keeps target) (flags : Flags) :
    (m.mapRegisters (·.setFlags flags)).Keeps target := by
  cases target with
  | register name => exact keeps_register name _
  | atHL => exact h

theorem flags_writeOperand (target : Operand) (byte : UInt8) (m : Machine β) :
    (m.writeOperand target byte).flags = m.flags := by
  cases target with
  | register name => exact congrArg Flags.ofByte (Registers.f_setByte _ name byte)
  | atHL => rfl

theorem Keeps.updateOperand {target : Operand} (h : (m.readOperand target).2.Keeps target)
    (f : UInt8 → Flags → UInt8 × Flags) :
    ((m.updateOperand target f).readOperand target).1 = (f (m.readOperand target).1 m.flags).1 ∧
    (m.updateOperand target f).flags = (f (m.readOperand target).1 m.flags).2 := by
  have same : (m.readOperand target).2.flags = m.flags :=
    congrArg (fun cpu => cpu.registers.flags) (cpu_readOperand target m)
  refine ⟨?_, ?_⟩
  · rw [Machine.updateOperand, ← same]
    exact h.setFlags _ _
  · rw [Machine.updateOperand, flags_writeOperand, ← same]
    exact Registers.flags_setFlags _ _

/-- The work on one byte: an operand holds it and is shifted, and another byte is left in it. Whatever happens before
leaves the carry alone. -/
inductive ShiftStep (op : ShiftOp) (m : Machine β) (x : UInt8) : UInt8 → Machine β → Prop where
  | done {start ready : Machine β} {target : Operand} (carried : start.flags.carry = m.flags.carry)
      (shifts : start.Performs (.shift op target) ready) (held : (ready.readOperand target).1 = x)
      (keeps : (ready.readOperand target).2.Keeps target) :
      ShiftStep op m x (start.stepCpu.2.readOperand target).1 start.stepCpu.2

theorem ShiftStep.result {x z : UInt8} {after : Machine β} (h : ShiftStep op m x z after) :
    z = (Arithmetic.shift op x m.flags.carry).1 ∧ after.flags = (Arithmetic.shift op x m.flags.carry).2 := by
  obtain @⟨start, ready, target, carried, shifts, held, keeps⟩ := h
  rw [shifts.stepCpu, ← carried, ← shifts.flags, ← held]
  exact keeps.updateOperand fun byte flags => Arithmetic.shift op byte flags.carry

theorem ShiftStep.tally_left {x z : UInt8} {after : Machine β} (h : ShiftStep op m x z after)
    (left : op.goesLeft = true) :
    z.toNat + 256 * after.flags.carry.toNat = 2 * x.toNat + (op.entering x m.flags.carry).toNat := by
  obtain ⟨rfl, flags⟩ := h.result
  rw [flags]
  exact Arithmetic.tally_left left x _

theorem ShiftStep.tally_right {x z : UInt8} {after : Machine β} (h : ShiftStep op m x z after)
    (right : op.goesRight = true) :
    2 * z.toNat + after.flags.carry.toNat = x.toNat + 256 * (op.entering x m.flags.carry).toNat := by
  obtain ⟨rfl, flags⟩ := h.result
  rw [flags]
  exact Arithmetic.tally_right right x _

/-- The work on all bytes of a number, in the order in which they are shifted. The first operation may be another one
than the rest. -/
inductive ShiftChain (next : ShiftOp) : ShiftOp → Machine β → List UInt8 → List UInt8 → Machine β → Prop where
  | last {op m x z last} (byte : ShiftStep op m x z last) : ShiftChain next op m [x] [z] last
  | more {op m x between xs z zs last} (byte : ShiftStep op m x z between)
      (rest : ShiftChain next next between xs zs last) : ShiftChain next op m (x :: xs) (z :: zs) last

section Chains

variable {xs zs : List UInt8} {last : Machine β} {next : ShiftOp}

open Numerals (binary signedValue)

theorem ShiftChain.filled (h : ShiftChain next op m xs zs last) : xs ≠ [] := by
  cases h <;> exact List.cons_ne_nil _ _

theorem ShiftChain.length_eq (h : ShiftChain next op m xs zs last) : zs.length = xs.length := by
  induction h with
  | last => rfl
  | more _ _ ih => exact congrArg (· + 1) ih

/-- Bytes shifted to the left, the lowest first, with the bit that leaves the highest above. -/
theorem ShiftChain.tally_left (h : ShiftChain .rl op m xs zs last) (left : op.goesLeft = true) :
    binary.value zs + 256 ^ xs.length * last.flags.carry.toNat =
      2 * binary.value xs + (op.entering (xs.headD 0) m.flags.carry).toNat := by
  induction h with
  | last byte => exact byte.tally_left left
  | more byte _ ih =>
    have tally := byte.tally_left left
    have others := ih rfl
    simp only [ShiftOp.entering] at others
    rw [Numerals.binary_cons, Numerals.binary_cons, List.length_cons, List.headD_cons, Nat.pow_succ]
    linear_combination tally + 256 * others

/-- Bytes shifted to the right, the highest first, with the bit that leaves the lowest below. -/
theorem ShiftChain.tally_right (h : ShiftChain .rr op m xs zs last) (right : op.goesRight = true) :
    2 * binary.value zs.reverse + last.flags.carry.toNat =
      binary.value xs.reverse + 256 ^ xs.length * (op.entering (xs.headD 0) m.flags.carry).toNat := by
  induction h with
  | last byte => exact byte.tally_right right
  | @more _ _ _ _ xs _ _ _ byte rest ih =>
    have tally := byte.tally_right right
    have others := ih rfl
    simp only [ShiftOp.entering] at others
    rw [List.reverse_cons, List.reverse_cons, Numerals.binary_snoc, Numerals.binary_snoc, List.length_reverse,
      List.length_reverse, rest.length_eq, List.length_cons, List.headD_cons, Nat.pow_succ]
    linear_combination others + 256 ^ xs.length * tally

/-- Twice a number remains if nothing comes in. -/
theorem ShiftChain.doubles (h : ShiftChain .rl .sla m xs zs last) :
    zs = binary.bytes xs.length (2 * binary.value xs % 256 ^ xs.length) ∧
    last.flags.carry = (binary.value xs).testBit (8 * xs.length - 1) := by
  obtain ⟨exact, carried⟩ := Numerals.sum_eq (Numerals.all_valid zs) h.length_eq (h.tally_left rfl)
  exact ⟨exact, Bool.eq_iff_iff.mpr (carried.trans (Numerals.testBit_top h.filled).symm)⟩

theorem ShiftChain.halves (h : ShiftChain .rr .srl m xs.reverse zs.reverse last) :
    zs = binary.bytes xs.length (binary.value xs / 2) ∧ last.flags.carry = (binary.value xs).testBit 0 := by
  have size := h.length_eq
  have tally := h.tally_right rfl
  simp only [List.length_reverse] at size
  simp only [List.reverse_reverse, ShiftOp.entering, Bool.toNat_false, Nat.mul_zero, Nat.add_zero] at tally
  obtain ⟨half, bit⟩ := Numerals.testBit_of_halves tally
  exact ⟨Numerals.eq_bytes (Numerals.all_valid zs) size half, bit⟩

/-- With the top bit kept, half of the number in two's complement remains, rounded down. -/
theorem ShiftChain.halves_signed (h : ShiftChain .rr .sra m xs.reverse zs.reverse last) :
    zs.length = xs.length ∧ signedValue zs = signedValue xs / 2 ∧
    last.flags.carry = (binary.value xs).testBit 0 := by
  have size := h.length_eq
  have tally := h.tally_right rfl
  have top := Numerals.highest_has_iff xs.reverse
  have even : 2 ∣ 256 ^ xs.length := dvd_pow (by decide) (by simpa using h.filled)
  simp only [List.length_reverse, List.reverse_reverse, ShiftOp.entering] at size tally top
  have bit := last.flags.carry.toNat_le
  rw [Numerals.signedValue_eq, Numerals.signedValue_eq, size]
  generalize 256 ^ xs.length = range at tally top even
  refine ⟨rfl, ?_⟩
  by_cases high : range ≤ 2 * binary.value xs
  · rw [top.mpr high, Bool.toNat_true, Nat.mul_one] at tally
    refine ⟨?_, ?_⟩
    · rw [if_pos high, if_pos (by omega)]
      omega
    · rw [(Numerals.testBit_of_halves tally).2, Nat.testBit_zero, Nat.testBit_zero]
      congr 2
      omega
  · rw [Bool.eq_false_iff.mpr fun set => high (top.mp set), Bool.toNat_false, Nat.mul_zero] at tally
    refine ⟨?_, (Numerals.testBit_of_halves tally).2⟩
    rw [if_neg high, if_neg (by omega)]
    omega

/-- Shifting through the carry to the right undoes shifting through it to the left. -/
theorem ShiftChain.restores {ws : List UInt8} {start final : Machine β} (h : ShiftChain .rl .rl m xs zs last)
    (kept : start.flags.carry = last.flags.carry) (back : ShiftChain .rr .rr start zs.reverse ws.reverse final) :
    ws = xs ∧ final.flags.carry = m.flags.carry := by
  have size := back.length_eq
  have moved := h.tally_left rfl
  have undone := back.tally_right rfl
  simp only [List.length_reverse, h.length_eq] at size
  simp only [List.reverse_reverse, List.length_reverse, ShiftOp.entering, kept, h.length_eq] at moved undone
  rw [moved] at undone
  -- The number and the bit below it, before and after.
  obtain ⟨half, bit⟩ := Numerals.testBit_of_halves undone
  obtain ⟨first, carry⟩ := @Numerals.testBit_of_halves (binary.value xs) _ m.flags.carry rfl
  refine ⟨?_, bit.trans carry.symm⟩
  rw [Numerals.eq_bytes (Numerals.all_valid ws) size (half.trans first.symm),
    Numerals.bytes_value (Numerals.all_valid xs)]

end Chains

section Memory

variable {m : Machine FlatMemory}

def stagedShift (op : ShiftOp) (x : UInt8) (m : Machine FlatMemory) : Machine FlatMemory where
  cpu := { m.cpu with registers := { m.cpu.registers.setByte .b x with pc := 0 } }
  bus := (m.bus.put 0 0xCB).put 1 op.opcode

theorem exists_shiftStep (running : m.cpu.stopped = false) (awake : m.cpu.halted = false) (op : ShiftOp) (x : UInt8) :
    ∃ z after, ShiftStep op m x z after ∧ after.cpu.stopped = false ∧ after.cpu.halted = false := by
  have bytes : (m.stagedShift op x).bus.get 0 = 0xCB ∧ (m.stagedShift op x).bus.get 1 = op.opcode := by
    simp [stagedShift, FlatMemory.get_put]
  obtain ⟨ready, shifts⟩ := performs_of_decodeSecond (m := m.stagedShift op x) (.shift op (.register .b))
    running awake (congrArg Opcode.decode bytes.1) ((congrArg Opcode.decodeSecond bytes.2).trans op.decodeSecond_opcode)
  have held : (ready.readOperand (.register .b)).1 = x := by
    change ready.cpu.registers.byte .b = x
    rw [shifts.registers]
    exact Word.high_ofBytes _ _
  have carried : (m.stagedShift op x).flags.carry = m.flags.carry := rfl
  refine ⟨_, _, .done carried shifts held (keeps_memory _ _), ?_⟩
  rw [shifts.stepCpu]
  change ready.cpu.stopped = false ∧ ready.cpu.halted = false
  rw [shifts.cpu]
  exact ⟨running, awake⟩

theorem exists_shiftChain (next : ShiftOp) (running : m.cpu.stopped = false) (awake : m.cpu.halted = false)
    (op : ShiftOp) {xs : List UInt8} (filled : xs ≠ []) : ∃ zs last, ShiftChain next op m xs zs last ∧
      last.cpu.stopped = false ∧ last.cpu.halted = false := by
  obtain ⟨x, rest, rfl⟩ := List.exists_cons_of_ne_nil filled
  obtain ⟨z, after, byte, runs, wakes⟩ := exists_shiftStep running awake op x
  induction rest generalizing m op x z after with
  | nil => exact ⟨[z], after, .last byte, runs, wakes⟩
  | cons x' rest ih =>
    obtain ⟨z', further, byte', runs', wakes'⟩ := exists_shiftStep runs wakes next x'
    obtain ⟨zs, last, chain, still⟩ := ih runs wakes next x' (List.cons_ne_nil _ _) z' further byte' runs' wakes'
    exact ⟨z :: zs, last, .more byte chain, still⟩

end Memory

/-- A program works its way through the bytes of a number. If it shifts the lowest to the left and the others in turn
through the carry, twice the number remains as far as it fits, and the carry is the top bit. If it shifts the highest to
the right and the others in turn through the carry, half of the number remains, rounded down, and the carry is the
lowest bit; with the top bit kept this is so of the number in two's complement. Through the carry to the left and back
to the right, the number and the carry are what they were. -/
theorem long_shifts_exact {m last : Machine β} {xs zs : List UInt8} :
    (ShiftChain .rl .sla m xs zs last →
      zs = Numerals.binary.bytes xs.length (2 * Numerals.binary.value xs % 256 ^ xs.length) ∧
      last.flags.carry = (Numerals.binary.value xs).testBit (8 * xs.length - 1)) ∧
    (ShiftChain .rr .srl m xs.reverse zs.reverse last →
      zs = Numerals.binary.bytes xs.length (Numerals.binary.value xs / 2) ∧
      last.flags.carry = (Numerals.binary.value xs).testBit 0) ∧
    (ShiftChain .rr .sra m xs.reverse zs.reverse last →
      zs.length = xs.length ∧ Numerals.signedValue zs = Numerals.signedValue xs / 2 ∧
      last.flags.carry = (Numerals.binary.value xs).testBit 0) ∧
    (ShiftChain .rl .rl m xs zs last → ∀ (start final : Machine β) (ws : List UInt8),
      start.flags.carry = last.flags.carry → ShiftChain .rr .rr start zs.reverse ws.reverse final →
      ws = xs ∧ final.flags.carry = m.flags.carry) := by
  refine ⟨?_, ?_, ?_, ?_⟩
  · exact fun left => left.doubles
  · exact fun right => right.halves
  · exact fun right => right.halves_signed
  · exact fun left start final ws kept back => left.restores kept back

/-- 81FF doubles to 03FE and halves to 40FF, or to C0FF in two's complement, each time with a carry; through the carry
to the left and back it stays. -/
theorem long_shifts_of_two_bytes :
    let m : Machine FlatMemory := ⟨.postBoot, .blank⟩
    (∃ zs last, ShiftChain .rl .sla m [0xFF, 0x81] zs last ∧ zs = [0xFE, 0x03] ∧ last.flags.carry = true) ∧
    (∃ zs last, ShiftChain .rr .srl m [0x81, 0xFF] zs last ∧ zs.reverse = [0xFF, 0x40] ∧ last.flags.carry = true) ∧
    (∃ zs last, ShiftChain .rr .sra m [0x81, 0xFF] zs last ∧ Numerals.signedValue zs.reverse = -16129 ∧
      last.flags.carry = true) ∧
    ∃ zs last, ShiftChain .rl .rl m [0xFF, 0x81] zs last ∧
      ∃ ws final, ShiftChain .rr .rr last zs.reverse ws final ∧ ws.reverse = [0xFF, 0x81] ∧
        final.flags.carry = m.flags.carry := by
  intro m
  refine ⟨?_, ?_, ?_, ?_⟩
  · obtain ⟨zs, last, chain, _⟩ := exists_shiftChain .rl (m := m) rfl rfl .sla (List.cons_ne_nil 0xFF [0x81])
    obtain ⟨exact, carry⟩ := long_shifts_exact.1 chain
    exact ⟨zs, last, chain, exact, carry⟩
  · obtain ⟨zs, last, chain, _⟩ := exists_shiftChain .rr (m := m) rfl rfl .srl (List.cons_ne_nil 0x81 [0xFF])
    have down : ShiftChain .rr .srl m [0xFF, 0x81].reverse zs.reverse.reverse last := by rwa [List.reverse_reverse]
    obtain ⟨exact, carry⟩ := long_shifts_exact.2.1 down
    exact ⟨zs, last, chain, exact, carry⟩
  · obtain ⟨zs, last, chain, _⟩ := exists_shiftChain .rr (m := m) rfl rfl .sra (List.cons_ne_nil 0x81 [0xFF])
    have down : ShiftChain .rr .sra m [0xFF, 0x81].reverse zs.reverse.reverse last := by rwa [List.reverse_reverse]
    obtain ⟨_, half, carry⟩ := long_shifts_exact.2.2.1 down
    have value : Numerals.signedValue [0xFF, 0x81] / 2 = -16129 := by decide
    exact ⟨zs, last, chain, half.trans value, carry⟩
  · obtain ⟨zs, last, left, runs, wakes⟩ := exists_shiftChain .rl (m := m) rfl rfl .rl (List.cons_ne_nil 0xFF [0x81])
    have filled : zs.reverse ≠ [] := by
      intro none
      cases List.reverse_eq_nil_iff.mp none ▸ left.length_eq
    obtain ⟨ws, final, right, _⟩ := exists_shiftChain .rr runs wakes .rr filled
    have back : ShiftChain .rr .rr last zs.reverse ws.reverse.reverse final := by rwa [List.reverse_reverse]
    obtain ⟨restored, carry⟩ := long_shifts_exact.2.2.2 left last final ws.reverse rfl back
    exact ⟨zs, last, left, ws, final, right, restored, carry⟩

end Machine
end DotMatrix
