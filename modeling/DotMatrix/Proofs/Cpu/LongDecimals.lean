import DotMatrix.Proofs.Cpu.LongArithmetic

/-!
Sums and differences of packed decimals. The operation on a byte works in base 256; the correction behind it
makes two decimal digits of what it leaves, and a carry that counts hundreds.
-/

namespace DotMatrix

open Numerals (IsPacked packed)

namespace Arithmetic

theorem toNat_correction (units tens : Bool) :
    ((if units then 0x06 else 0) ||| (if tens then 0x60 else 0) : UInt8).toNat = 6 * units.toNat + 96 * tens.toNat ∧
    Byte.has ((if units then 0x06 else 0) ||| (if tens then 0x60 else 0)) 0x60 = tens := by
  cases units <;> cases tens <;> exact ⟨rfl, rfl⟩

/-- Behind a sum the units are corrected if they exceed a digit, and the tens if the byte exceeds two. -/
theorem decimalAdjust_sum (a : UInt8) (flags : Flags) (adds : flags.subtract = false) {units tens : Bool}
    (low : (flags.halfCarry || decide (9 < a.toNat % 16)) = units)
    (high : (flags.carry || decide (0x99 < a.toNat)) = tens) :
    (decimalAdjust a flags).1.toNat = (a.toNat + 6 * units.toNat + 96 * tens.toNat) % 256 ∧
    (decimalAdjust a flags).2.carry = tens := by
  obtain ⟨size, told⟩ := toNat_correction units tens
  simp only [decimalAdjust, decimalCorrection, adds, Bool.not_false, Bool.true_and, low, high, Bool.false_eq_true,
    if_false, UInt8.toNat_add]
  rw [size, Nat.add_assoc]
  exact ⟨rfl, told⟩

/-- Behind a difference the borrows alone tell what has to be corrected. -/
theorem decimalAdjust_difference (a : UInt8) (flags : Flags) (subtracts : flags.subtract = true) :
    (decimalAdjust a flags).1.toNat = (a.toNat + 256 - 6 * flags.halfCarry.toNat - 96 * flags.carry.toNat) % 256 ∧
    (decimalAdjust a flags).2.carry = flags.carry := by
  obtain ⟨size, told⟩ := toNat_correction flags.halfCarry flags.carry
  have low := flags.halfCarry.toNat_le
  have high := flags.carry.toNat_le
  simp only [decimalAdjust, decimalCorrection, subtracts, Bool.not_true, Bool.false_and, Bool.or_false, if_true,
    UInt8.toNat_sub]
  rw [size]
  exact ⟨congrArg (· % 256) (by omega), told⟩

theorem tally_adjust_add {x y : UInt8} (first : IsPacked x) (second : IsPacked y) (carry : Bool) :
    IsPacked (decimalAdjust (add x y carry).1 (add x y carry).2).1 ∧
    packed.digit (decimalAdjust (add x y carry).1 (add x y carry).2).1 +
        100 * (decimalAdjust (add x y carry).1 (add x y carry).2).2.carry.toNat =
      packed.digit x + packed.digit y + carry.toNat := by
  obtain ⟨xTens, xUnits⟩ := first
  obtain ⟨yTens, yUnits⟩ := second
  have bit := carry.toNat_le
  -- Both conditions come down to the sum of the units, and to the sum of the bytes.
  have low : ((add x y carry).2.halfCarry || decide (9 < (add x y carry).1.toNat % 16)) =
      decide (9 < x.toNat % 16 + y.toNat % 16 + carry.toNat) := by
    simp only [add, UInt8.toNat_ofNat', ← Bool.decide_or, decide_eq_decide]
    omega
  have high : ((add x y carry).2.carry || decide (0x99 < (add x y carry).1.toNat)) =
      decide (0x99 < x.toNat + y.toNat + carry.toNat) := by
    simp only [add, UInt8.toNat_ofNat', ← Bool.decide_or, decide_eq_decide]
    omega
  obtain ⟨result, carried⟩ := decimalAdjust_sum _ (add x y carry).2 rfl low high
  have sum : (add x y carry).1.toNat = (x.toNat + y.toNat + carry.toNat) % 256 := UInt8.toNat_ofNat'
  rw [sum, Nat.add_assoc, Nat.mod_add_mod] at result
  simp only [IsPacked, packed, carried, result]
  by_cases units : 9 < x.toNat % 16 + y.toNat % 16 + carry.toNat <;>
    by_cases tens : 0x99 < x.toNat + y.toNat + carry.toNat <;>
      simp only [units, tens, decide_true, decide_false, Bool.toNat_true, Bool.toNat_false] <;> omega

theorem tally_adjust_sub {x y : UInt8} (first : IsPacked x) (second : IsPacked y) (borrow : Bool) :
    IsPacked (decimalAdjust (sub x y borrow).1 (sub x y borrow).2).1 ∧
    packed.digit (decimalAdjust (sub x y borrow).1 (sub x y borrow).2).1 + packed.digit y + borrow.toNat =
      packed.digit x + 100 * (decimalAdjust (sub x y borrow).1 (sub x y borrow).2).2.carry.toNat := by
  obtain ⟨xTens, xUnits⟩ := first
  obtain ⟨yTens, yUnits⟩ := second
  have bit := borrow.toNat_le
  obtain ⟨result, carried⟩ := decimalAdjust_difference (sub x y borrow).1 (sub x y borrow).2 rfl
  have difference : (sub x y borrow).1.toNat = (x.toNat + 512 - y.toNat - borrow.toNat) % 256 := toNat_minus x y borrow
  have low : (sub x y borrow).2.halfCarry = decide (x.toNat % 16 < y.toNat % 16 + borrow.toNat) := rfl
  have high : (sub x y borrow).2.carry = decide (x.toNat < y.toNat + borrow.toNat) := rfl
  rw [difference] at result
  simp only [IsPacked, packed, carried, result, low, high]
  by_cases units : x.toNat % 16 < y.toNat % 16 + borrow.toNat <;>
    by_cases tens : x.toNat < y.toNat + borrow.toNat <;>
      simp only [units, tens, decide_true, decide_false, Bool.toNat_true, Bool.toNat_false] <;> omega

theorem decimalAdjust_packed {x : UInt8} (h : IsPacked x) (zero : Bool) :
    decimalAdjust x ⟨zero, false, false, false⟩ = (x, ⟨isZero x, false, false, false⟩) := by
  obtain ⟨tens, units⟩ := h
  have low : ¬9 < x.toNat % 16 := by omega
  have high : ¬0x99 < x.toNat := by omega
  simp [decimalAdjust, decimalCorrection, low, high, Byte.has]

end Arithmetic

namespace Machine

variable {β : Type} [Bus β] {m : Machine β} {op : AluOp}

/-- The work on one byte of decimals: behind the operation, and whatever leaves A and the flags alone, A is
corrected. -/
inductive DecimalStep (op : AluOp) (m : Machine β) (x y : UInt8) : Machine β → Prop where
  | done {after next ready : Machine β} (byte : ByteStep op m x y after)
      (same : next.cpu.registers.a = after.cpu.registers.a) (kept : next.flags = after.flags)
      (adjusts : next.Performs .daa ready) : DecimalStep op m x y next.stepCpu.2

theorem Performs.adjusted {ready : Machine β} (h : m.Performs .daa ready) :
    m.stepCpu.2.cpu.registers.a = (Arithmetic.decimalAdjust m.cpu.registers.a m.flags).1 ∧
    m.stepCpu.2.flags = (Arithmetic.decimalAdjust m.cpu.registers.a m.flags).2 := by
  rw [h.stepCpu, ← h.a, ← h.flags]
  exact ⟨a_setAccumulator _ _, flags_setAccumulator _ _⟩

theorem accounts_decimal_sum : Accounts (β := β) packed 1 DecimalStep .adc := by
  intro m x y after first second step
  obtain ⟨byte, same, kept, adjusts⟩ := step
  obtain ⟨a, flags⟩ := byte.sum (.inr rfl)
  obtain ⟨result, corrected⟩ := adjusts.adjusted
  rw [same, kept, a, flags] at result corrected
  obtain ⟨valid, tally⟩ := Arithmetic.tally_adjust_add first second (AluOp.adc.takesCarry && m.flags.carry)
  rw [result, corrected]
  refine ⟨valid, ?_⟩
  simp only [show packed.base = 100 from rfl]
  omega

theorem accounts_decimal_difference : Accounts (β := β) packed (-1) DecimalStep .sbc := by
  intro m x y after first second step
  obtain ⟨byte, same, kept, adjusts⟩ := step
  obtain ⟨a, flags⟩ := byte.difference (.inr rfl)
  obtain ⟨result, corrected⟩ := adjusts.adjusted
  rw [same, kept, a, flags] at result corrected
  obtain ⟨valid, tally⟩ := Arithmetic.tally_adjust_sub first second (AluOp.sbc.takesCarry && m.flags.carry)
  rw [result, corrected]
  refine ⟨valid, ?_⟩
  simp only [show packed.base = 100 from rfl]
  omega

/-- A is ORed with itself, and behind that, and whatever leaves A and the flags alone, corrected. -/
inductive TestStep (m : Machine β) : Machine β → Prop where
  | done {tested next ready : Machine β} (tests : m.Performs (.alu .or (.register .a)) tested)
      (same : next.cpu.registers.a = m.stepCpu.2.cpu.registers.a) (kept : next.flags = m.stepCpu.2.flags)
      (adjusts : next.Performs .daa ready) : TestStep m next.stepCpu.2

theorem TestStep.result {after : Machine β} (h : TestStep m after) (packs : IsPacked m.cpu.registers.a) :
    after.cpu.registers.a = m.cpu.registers.a ∧
    after.flags = ⟨Arithmetic.isZero m.cpu.registers.a, false, false, false⟩ := by
  obtain @⟨tested, next, ready, tests, same, kept, adjusts⟩ := h
  have takes : Operates .or tested (.alu .or (.register .a)) tested.cpu.registers.a := .operand _
  have operates := takes.execute
  simp only [Arithmetic.apply, UInt8.or_self, tests.a] at operates
  rw [tests.stepCpu] at same kept
  obtain ⟨result, flags⟩ := adjusts.adjusted
  rw [same, kept, operates.1, operates.2, Arithmetic.decimalAdjust_packed packs] at result flags
  exact ⟨result, flags⟩

section Memory

variable {m : Machine FlatMemory} {op : AluOp}

theorem exists_decimalStep (running : m.cpu.stopped = false) (awake : m.cpu.halted = false) (op : AluOp) (x y : UInt8) :
    ∃ after, DecimalStep op m x y after ∧ after.cpu.stopped = false ∧ after.cpu.halted = false := by
  obtain ⟨after, byte, runs, wakes, adjust⟩ := exists_byteStep running awake op x y
  obtain ⟨ready, adjusts⟩ := performs_of_decode .daa runs wakes (congrArg Opcode.decode adjust)
  refine ⟨_, .done byte rfl rfl adjusts, ?_⟩
  rw [adjusts.stepCpu]
  change ready.cpu.stopped = false ∧ ready.cpu.halted = false
  rw [adjusts.cpu]
  exact ⟨runs, wakes⟩

theorem exists_testStep (z : UInt8) :
    ∃ start after : Machine FlatMemory, start.cpu.registers.a = z ∧ TestStep start after := by
  let start : Machine FlatMemory :=
    ⟨⟨Registers.cleared.setA z, false, false, false⟩, (FlatMemory.blank.put 0 0xB7).put 1 0x27⟩
  have bytes : start.bus.get 0 = 0xB7 ∧ start.bus.get 1 = 0x27 := by
    simp [start, FlatMemory.get_put]
  obtain ⟨tested, tests⟩ := performs_of_decode (m := start) (.alu .or (.register .a)) rfl rfl
    (congrArg Opcode.decode bytes.1)
  have next : start.stepCpu.2.bus.get start.stepCpu.2.cpu.registers.pc = 0x27 := by
    rw [tests.stepCpu]
    change tested.bus.get tested.cpu.registers.pc = 0x27
    rw [tests.get, tests.cpu]
    exact bytes.2
  have rests : start.stepCpu.2.cpu.stopped = false ∧ start.stepCpu.2.cpu.halted = false := by
    rw [tests.stepCpu]
    change tested.cpu.stopped = false ∧ tested.cpu.halted = false
    rw [tests.cpu]
    exact ⟨rfl, rfl⟩
  obtain ⟨ready, adjusts⟩ := performs_of_decode .daa rests.1 rests.2 (congrArg Opcode.decode next)
  exact ⟨start, _, Word.high_ofBytes _ _, .done tests rfl rfl adjusts⟩

end Memory

/-- A program works its way through two packed numbers of as many bytes, and no carry comes in. If it adds each two
bytes with the carry and corrects the result, the digits of the sum remain, and the carry tells that the sum did not
fit; if it subtracts each two with the carry and corrects the result, the digits of the difference remain, and the
carry tells that the second number is the greater one. All bytes that remain are packed, and none changes if it is
tested and corrected again. -/
theorem decimal_arithmetic_exact {m last : Machine β} {xs ys zs : List UInt8} (fresh : m.flags.carry = false)
    (whole : ∀ x ∈ xs, IsPacked x) (also : ∀ y ∈ ys, IsPacked y) :
    (Chain DecimalStep .adc .adc m xs ys zs last →
      zs = packed.bytes xs.length ((packed.value xs + packed.value ys) % 100 ^ xs.length) ∧
      (last.flags.carry = true ↔ 100 ^ xs.length ≤ packed.value xs + packed.value ys)) ∧
    (Chain DecimalStep .sbc .sbc m xs ys zs last →
      zs = packed.bytes xs.length ((packed.value xs + 100 ^ xs.length - packed.value ys) % 100 ^ xs.length) ∧
      (last.flags.carry = true ↔ packed.value xs < packed.value ys)) ∧
    (Chain DecimalStep .adc .adc m xs ys zs last ∨ Chain DecimalStep .sbc .sbc m xs ys zs last →
      ∀ z ∈ zs, IsPacked z ∧ ∀ start after : Machine β, start.cpu.registers.a = z → TestStep start after →
        after.cpu.registers.a = z ∧ after.flags = ⟨Arithmetic.isZero z, false, false, false⟩) := by
  have unset : (AluOp.adc.takesCarry && m.flags.carry) = false ∧ (AluOp.sbc.takesCarry && m.flags.carry) = false := by
    rw [fresh]
    exact ⟨rfl, rfl⟩
  refine ⟨?_, ?_, ?_⟩
  · exact fun sums => sums.sum accounts_decimal_sum accounts_decimal_sum rfl unset.1 whole also
  · exact fun differences =>
      differences.difference accounts_decimal_difference accounts_decimal_difference rfl unset.2 whole also
  · intro either z remains
    have valid : IsPacked z := by
      cases either with
      | inl sums => exact (sums.accounts accounts_decimal_sum accounts_decimal_sum rfl whole also).1 z remains
      | inr differences =>
        exact (differences.accounts accounts_decimal_difference accounts_decimal_difference rfl whole also).1 z remains
    refine ⟨valid, ?_⟩
    rintro start after rfl tests
    exact tests.result valid

/-- 0199 and 0001 make 0200, taking 0201 from 0199 leaves 9998 and a borrow, and 02 stays 02. -/
theorem decimal_sum_of_two_bytes :
    let m : Machine FlatMemory := ⟨⟨.cleared, false, false, false⟩, .blank⟩
    (∃ zs last, Chain DecimalStep .adc .adc m [0x99, 0x01] [0x01, 0x00] zs last ∧
      zs = [0x00, 0x02] ∧ last.flags.carry = false ∧
      ∃ start after : Machine FlatMemory, start.cpu.registers.a = 0x02 ∧ TestStep start after ∧
        after.cpu.registers.a = 0x02) ∧
    ∃ zs last, Chain DecimalStep .sbc .sbc m [0x99, 0x01] [0x01, 0x02] zs last ∧
      zs = [0x98, 0x99] ∧ last.flags.carry = true := by
  intro m
  have starts : m.flags.carry = false := show Registers.cleared.flags.carry = false by decide
  have pair {x y : UInt8} (first : IsPacked x) (second : IsPacked y) : ∀ z ∈ [x, y], IsPacked z :=
    List.forall_mem_cons.mpr ⟨first, List.forall_mem_singleton.mpr second⟩
  have whole : ∀ x ∈ [0x99, 0x01], IsPacked x := pair (by decide) (by decide)
  refine ⟨?_, ?_⟩
  · obtain ⟨zs, last, sums⟩ := exists_chain exists_decimalStep .adc (m := m) rfl rfl .adc 0x99 0x01 [0x01] [0x00]
      rfl
    obtain ⟨added, _, stays⟩ := @decimal_arithmetic_exact FlatMemory _ m last [0x99, 0x01] [0x01, 0x00] zs starts
      whole (pair (by decide) (by decide))
    obtain ⟨exact, fits⟩ := added sums
    obtain rfl : zs = [0x00, 0x02] := exact
    obtain ⟨start, after, a, tests⟩ := exists_testStep 0x02
    have same := ((stays (.inl sums) 0x02 (by simp)).2 start after a tests).1
    refine ⟨_, last, sums, rfl, ?_, start, after, a, tests, same⟩
    exact Bool.eq_false_iff.mpr fun carry => absurd (fits.mp carry) (by decide)
  · obtain ⟨zs, last, differences⟩ := exists_chain exists_decimalStep .sbc (m := m) rfl rfl .sbc 0x99 0x01 [0x01] [0x02]
      rfl
    obtain ⟨exact, borrows⟩ := (decimal_arithmetic_exact starts whole (pair (by decide) (by decide))).2.1 differences
    exact ⟨zs, last, differences, exact, borrows.mpr (by decide)⟩

end Machine
end DotMatrix
