import DotMatrix.Proofs.Cpu.LongArithmetic
import DotMatrix.Proofs.Cpu.LongShifts

/-!
Sums of words, and of words and signed bytes. Their carries are worked out apart from those of the sums of bytes, and
agree with them: a word is the sum of its bytes with the carry between, and an offset is added to a low byte.
-/

namespace DotMatrix

theorem Byte.toNat_signExtend (byte : UInt8) : ((signExtend byte).toNat : Int) = byte.toInt8.toInt % 65536 := by
  revert byte
  decide +kernel

def Word.bytes (word : UInt16) : List UInt8 := [Word.low word, Word.high word]

theorem Word.bytes_injective {a b : UInt16} (same : bytes a = bytes b) : a = b := by
  obtain ⟨low, high⟩ := List.cons.inj same
  rw [← Word.ofBytes_high_low a, ← Word.ofBytes_high_low b, low, List.head_eq_of_cons_eq high]

/-- Two bytes that make a total, with the carry behind: they are the bytes of the word that is left of it. -/
theorem Word.bytes_of_tally {word : UInt16} {lower upper : UInt8} {carry : Bool} {total : Nat}
    (tally : lower.toNat + 256 * upper.toNat + 65536 * carry.toNat = total) (left : word.toNat = total % 65536) :
    bytes word = [lower, upper] ∧ carry = decide (65535 < total) := by
  have low := lower.toNat_lt
  have high := upper.toNat_lt
  have first : Word.low word = lower := by
    apply UInt8.toNat.inj
    rw [toNat_low, left]
    omega
  have second : Word.high word = upper := by
    apply UInt8.toNat.inj
    rw [toNat_high, left]
    omega
  refine ⟨by rw [bytes, first, second], ?_⟩
  cases carry with
  | false =>
    rw [Bool.toNat_false] at tally
    exact (decide_eq_false (by omega)).symm
  | true =>
    rw [Bool.toNat_true] at tally
    exact (decide_eq_true (by omega)).symm

namespace Arithmetic

theorem addWords_bytes (a b : UInt16) (zero : Bool) :
    let lower := add (Word.low a) (Word.low b) false
    let upper := add (Word.high a) (Word.high b) lower.2.carry
    Word.bytes (addWords a b zero).1 = [lower.1, upper.1] ∧
    (addWords a b zero).2 = ⟨zero, false, upper.2.halfCarry, upper.2.carry⟩ := by
  intro lower upper
  have low : lower.1.toNat + 256 * lower.2.carry.toNat = _ := tally_add (Word.low a) (Word.low b) false
  have high : upper.1.toNat + 256 * upper.2.carry.toNat = _ := tally_add (Word.high a) (Word.high b) lower.2.carry
  have half : upper.2.halfCarry =
      decide (15 < (Word.high a).toNat % 16 + (Word.high b).toNat % 16 + lower.2.carry.toNat) := rfl
  have small := lower.1.toNat_lt
  rw [Word.toNat_low, Word.toNat_low, Bool.toNat_false] at low
  rw [Word.toNat_high, Word.toNat_high] at high half
  have tally : lower.1.toNat + 256 * upper.1.toNat + 65536 * upper.2.carry.toNat = a.toNat + b.toNat := by omega
  obtain ⟨bytes, carry⟩ := Word.bytes_of_tally tally (UInt16.toNat_add a b)
  refine ⟨bytes, ?_⟩
  rw [carry, half]
  simp only [addWords, Flags.mk.injEq, true_and, and_true, decide_eq_decide]
  omega

theorem addWords_self (a : UInt16) (zero carry : Bool) :
    let lower := shift .sla (Word.low a) carry
    let upper := shift .rl (Word.high a) lower.2.carry
    Word.bytes (addWords a a zero).1 = [lower.1, upper.1] ∧ (addWords a a zero).2.carry = upper.2.carry := by
  intro lower upper
  have low : lower.1.toNat + 256 * lower.2.carry.toNat = _ := tally_left rfl (Word.low a) carry
  have high : upper.1.toNat + 256 * upper.2.carry.toNat = _ := tally_left rfl (Word.high a) lower.2.carry
  rw [Word.toNat_low] at low
  rw [Word.toNat_high] at high
  simp only [ShiftOp.entering, Bool.toNat_false] at low high
  have tally : lower.1.toNat + 256 * upper.1.toNat + 65536 * upper.2.carry.toNat = a.toNat + a.toNat := by omega
  obtain ⟨bytes, full⟩ := Word.bytes_of_tally tally (UInt16.toNat_add a a)
  exact ⟨bytes, full.symm⟩

/-- The flags of an offset are those of the sum of the low bytes, but Z is clear. -/
theorem addOffset_flags (base : UInt16) (offset : UInt8) :
    (addOffset base offset).2 = { (add (Word.low base) offset false).2 with zero := false } := by
  have nibble : base.toNat % 256 % 16 = base.toNat % 16 := Nat.mod_mod_of_dvd _ (by decide)
  simp only [addOffset, add, Word.toNat_low, nibble, Bool.toNat_false, Nat.add_zero]

theorem toNat_addOffset (base : UInt16) (offset : UInt8) :
    ((addOffset base offset).1.toNat : Int) = (base.toNat + offset.toInt8.toInt) % 65536 := by
  have sum : (addOffset base offset).1.toNat = (base.toNat + (Byte.signExtend offset).toNat) % 65536 :=
    UInt16.toNat_add _ _
  have value := Byte.toNat_signExtend offset
  omega

/-- An offset and its opposite cancel each other, unless the byte has no opposite. -/
theorem addOffset_neg (base : UInt16) (offset : UInt8) :
    (addOffset (addOffset base offset).1 (-offset)).1 = base ↔ offset ≠ 0x80 := by
  have cancels : ∀ offset, Byte.signExtend offset + Byte.signExtend (-offset) = 0 ↔ offset ≠ 0x80 := by
    decide +kernel
  change base + Byte.signExtend offset + Byte.signExtend (-offset) = base ↔ _
  rw [UInt16.add_assoc, UInt16.add_eq_left, cancels]

end Arithmetic

theorem Registers.byte_setFlags (r : Registers) (flags : Flags) (name : ByteRegister) :
    (r.setFlags flags).byte name = r.byte name := by
  cases name with
  | a => exact Word.high_ofBytes _ _
  | b | c | d | e | h | l => rfl

namespace Machine

variable {β : Type} [Bus β] {m ready : Machine β}

theorem Performs.addHL {source : WordRegister} (h : m.Performs (.addHL source) ready) :
    m.stepCpu.2.cpu.registers.hl =
      (Arithmetic.addWords m.cpu.registers.hl (m.cpu.registers.word source) m.flags.zero).1 ∧
    m.stepCpu.2.flags =
      (Arithmetic.addWords m.cpu.registers.hl (m.cpu.registers.word source) m.flags.zero).2 := by
  have word : ready.cpu.registers.word source = m.cpu.registers.word source := by
    rw [h.registers]
    cases source <;> rfl
  have hl : ready.cpu.registers.hl = m.cpu.registers.hl := by rw [h.registers]
  rw [h.stepCpu, ← word, ← hl, ← h.flags]
  exact ⟨rfl, Registers.flags_setFlags _ _⟩

theorem Performs.addSP (h : m.Performs .addSP ready) :
    m.stepCpu.2.cpu.registers.sp = (Arithmetic.addOffset m.cpu.registers.sp ready.immediate.1).1 ∧
    m.stepCpu.2.flags = (Arithmetic.addOffset m.cpu.registers.sp ready.immediate.1).2 := by
  have sp : ready.cpu.registers.sp = m.cpu.registers.sp := by rw [h.registers]
  rw [h.stepCpu, ← sp]
  exact ⟨rfl, Registers.flags_setFlags _ _⟩

theorem Performs.ldHLSP (h : m.Performs .ldHLSP ready) :
    m.stepCpu.2.cpu.registers.hl = (Arithmetic.addOffset m.cpu.registers.sp ready.immediate.1).1 ∧
    m.stepCpu.2.flags = (Arithmetic.addOffset m.cpu.registers.sp ready.immediate.1).2 ∧
    m.stepCpu.2.cpu.registers.sp = m.cpu.registers.sp := by
  have sp : ready.cpu.registers.sp = m.cpu.registers.sp := by rw [h.registers]
  rw [h.stepCpu, ← sp]
  exact ⟨rfl, Registers.flags_setFlags _ _, rfl⟩

/-- A program that adds the bytes of two words, the low ones first, is left with the bytes of their sum. -/
theorem Chain.word {k last : Machine β} {a b : UInt16} {zs : List UInt8}
    (h : Chain ByteStep .adc .add k (Word.bytes a) (Word.bytes b) zs last) (zero : Bool) :
    zs = Word.bytes (Arithmetic.addWords a b zero).1 ∧
    last.flags.halfCarry = (Arithmetic.addWords a b zero).2.halfCarry ∧
    last.flags.carry = (Arithmetic.addWords a b zero).2.carry := by
  obtain ⟨bytes, flags⟩ := Arithmetic.addWords_bytes a b zero
  cases h with
  | more first rest =>
    cases rest with
    | last second =>
      obtain ⟨low, between⟩ := first.result
      obtain ⟨high, after⟩ := second.result
      rw [bytes, flags, low, high, after, between]
      exact ⟨rfl, rfl, rfl⟩
    | more _ none => cases none

theorem byte_updateOperand (name other : ByteRegister) (f : UInt8 → Flags → UInt8 × Flags) (m : Machine β) :
    (m.updateOperand (.register name) f).cpu.registers.byte other =
      if name = other then (f (m.cpu.registers.byte name) m.flags).1 else m.cpu.registers.byte other := by
  refine (Registers.byte_setByte _ _ _ _).trans ?_
  congr 1
  exact Registers.byte_setFlags _ _ _

theorem Performs.shiftRegister {op : ShiftOp} {name : ByteRegister}
    (h : m.Performs (.shift op (.register name)) ready) :
    (∀ other, m.stepCpu.2.cpu.registers.byte other =
      if name = other then (Arithmetic.shift op (m.cpu.registers.byte name) m.flags.carry).1
      else m.cpu.registers.byte other) ∧
    m.stepCpu.2.flags = (Arithmetic.shift op (m.cpu.registers.byte name) m.flags.carry).2 := by
  have kept : ∀ other, ready.cpu.registers.byte other = m.cpu.registers.byte other := by
    intro other
    rw [h.registers]
    cases other <;> rfl
  rw [h.stepCpu, ← kept name, ← h.flags]
  refine ⟨?_, ?_⟩
  · intro other
    rw [← kept other]
    exact byte_updateOperand name other (fun byte flags => Arithmetic.shift op byte flags.carry) ready
  · exact ((keeps_register name ready).updateOperand fun byte flags => Arithmetic.shift op byte flags.carry).2

theorem Performs.doubled {low high : Machine β} (first : m.Performs (.shift .sla (.register .l)) low)
    (second : m.stepCpu.2.Performs (.shift .rl (.register .h)) high) (zero : Bool) :
    m.stepCpu.2.stepCpu.2.cpu.registers.hl =
      (Arithmetic.addWords m.cpu.registers.hl m.cpu.registers.hl zero).1 ∧
    m.stepCpu.2.stepCpu.2.flags.carry =
      (Arithmetic.addWords m.cpu.registers.hl m.cpu.registers.hl zero).2.carry := by
  obtain ⟨bytes, carry⟩ := Arithmetic.addWords_self m.cpu.registers.hl zero m.flags.carry
  obtain ⟨lower, between⟩ := first.shiftRegister
  obtain ⟨upper, after⟩ := second.shiftRegister
  have low := (upper .l).trans (lower .l)
  have high := upper .h
  rw [lower .h, between] at high after
  refine ⟨Word.bytes_injective ?_, (congrArg Flags.carry after).trans carry.symm⟩
  rw [bytes]
  exact congrArg₂ (fun low high => [low, high]) low high

/-- A word is the sum of SP and a signed byte, with the carries of the sum of the low byte of SP and that byte. -/
structure SumsOffset (m : Machine β) (offset : UInt8) (sum : UInt16) (flags : Flags) : Prop where
  value : (sum.toNat : Int) = (m.cpu.registers.sp.toNat + offset.toInt8.toInt) % 65536
  zero : flags.zero = false
  subtract : flags.subtract = false
  carries : ∀ k after : Machine β, ByteStep .add k (Word.low m.cpu.registers.sp) offset after →
    flags.halfCarry = after.flags.halfCarry ∧ flags.carry = after.flags.carry

theorem sumsOffset (m : Machine β) (offset : UInt8) :
    m.SumsOffset offset (Arithmetic.addOffset m.cpu.registers.sp offset).1
      (Arithmetic.addOffset m.cpu.registers.sp offset).2 where
  value := Arithmetic.toNat_addOffset _ _
  zero := rfl
  subtract := rfl
  carries := by
    intro k after byte
    rw [byte.result.2, Arithmetic.addOffset_flags]
    exact ⟨rfl, rfl⟩

/-- A word added to HL leaves there what a program leaves that adds the bytes of both, and the same half carry and
carry; Z is kept and N is clear. HL added to itself is HL shifted to the left, byte by byte. A signed byte added to SP
leaves the sum as far as it fits, and the half carry and carry of a sum of bytes, with Z and N clear. So does a sum that
HL takes up, and SP is kept then. A byte added to SP and its opposite added next restore SP, if the byte has one. -/
theorem word_sums_as_bytes {m ready : Machine β} :
    (∀ source, m.Performs (.addHL source) ready →
      m.stepCpu.2.flags.zero = m.flags.zero ∧ m.stepCpu.2.flags.subtract = false ∧
      ∀ (k last : Machine β) (zs : List UInt8), Chain ByteStep .adc .add k (Word.bytes m.cpu.registers.hl)
          (Word.bytes (m.cpu.registers.word source)) zs last →
        Word.bytes m.stepCpu.2.cpu.registers.hl = zs ∧
        m.stepCpu.2.flags.halfCarry = last.flags.halfCarry ∧ m.stepCpu.2.flags.carry = last.flags.carry) ∧
    (m.Performs (.addHL .hl) ready → ∀ k low high : Machine β, k.cpu.registers.hl = m.cpu.registers.hl →
      k.Performs (.shift .sla (.register .l)) low → k.stepCpu.2.Performs (.shift .rl (.register .h)) high →
      m.stepCpu.2.cpu.registers.hl = k.stepCpu.2.stepCpu.2.cpu.registers.hl ∧
      m.stepCpu.2.flags.carry = k.stepCpu.2.stepCpu.2.flags.carry) ∧
    (m.Performs .addSP ready →
      m.SumsOffset ready.immediate.1 m.stepCpu.2.cpu.registers.sp m.stepCpu.2.flags ∧
      (ready.immediate.1 ≠ 0x80 → ∀ k back : Machine β, k.cpu.registers.sp = m.stepCpu.2.cpu.registers.sp →
        k.Performs .addSP back → back.immediate.1 = -ready.immediate.1 →
        k.stepCpu.2.cpu.registers.sp = m.cpu.registers.sp)) ∧
    (m.Performs .ldHLSP ready →
      m.SumsOffset ready.immediate.1 m.stepCpu.2.cpu.registers.hl m.stepCpu.2.flags ∧
      m.stepCpu.2.cpu.registers.sp = m.cpu.registers.sp) := by
  refine ⟨?_, ?_, ?_, ?_⟩
  · intro source adds
    obtain ⟨sum, flags⟩ := adds.addHL
    rw [sum, flags]
    refine ⟨rfl, rfl, ?_⟩
    intro k last zs chain
    obtain ⟨bytes, half, carry⟩ := chain.word m.flags.zero
    exact ⟨bytes.symm, half.symm, carry.symm⟩
  · intro adds k low high same first second
    obtain ⟨sum, flags⟩ := adds.addHL
    obtain ⟨double, carry⟩ := first.doubled second m.flags.zero
    rw [sum, flags, double, carry, same]
    exact ⟨rfl, rfl⟩
  · intro adds
    obtain ⟨sum, flags⟩ := adds.addSP
    refine ⟨?_, ?_⟩
    · rw [sum, flags]
      exact m.sumsOffset _
    · intro reversible k back same addsBack opposite
      rw [addsBack.addSP.1, same, sum, opposite]
      exact (Arithmetic.addOffset_neg _ _).mpr reversible
  · intro loads
    obtain ⟨sum, flags, kept⟩ := loads.ldHLSP
    rw [sum, flags]
    exact ⟨m.sumsOffset _, kept⟩

def wordProgram : FlatMemory :=
  (((FlatMemory.blank.putAll 0x0100 [0x19]).putAll 0x0110 [0x29]).putAll 0x0120 [0xCB, 0x25, 0xCB, 0x14]).putAll 0x0130
    [0xE8, 0x02, 0xE8, 0xFE, 0xF8, 0xFE]

/-- 8A23 and 06FD make 9120 as their bytes do, with the half carry; 8A23 doubles to 1446 either way. From 0001 two
up and two down lead back, and two down leads to FFFF. -/
theorem word_sums_of_registers :
    let start (pc : UInt16) : Machine FlatMemory :=
      ⟨⟨{ Registers.postBoot with hl := 0x8A23, de := 0x06FD, sp := 0x0001, pc := pc }, false, false, false⟩,
        wordProgram⟩
    (∃ zs last, Chain ByteStep .adc .add (start 0x0100) (Word.bytes 0x8A23) (Word.bytes 0x06FD) zs last ∧
      zs = [0x20, 0x91] ∧ Word.bytes (start 0x0100).stepCpu.2.cpu.registers.hl = zs ∧
      (start 0x0100).stepCpu.2.flags.halfCarry = last.flags.halfCarry) ∧
    (start 0x0110).stepCpu.2.cpu.registers.hl = (start 0x0120).stepCpu.2.stepCpu.2.cpu.registers.hl ∧
    (start 0x0130).stepCpu.2.cpu.registers.sp.toNat = 0x0003 ∧
    (start 0x0130).stepCpu.2.stepCpu.2.cpu.registers.sp = 0x0001 ∧
    (start 0x0134).stepCpu.2.cpu.registers.hl.toNat = 0xFFFF := by
  have bytes : wordProgram.get 0x0100 = 0x19 ∧ wordProgram.get 0x0110 = 0x29 ∧
      (wordProgram.get 0x0120 = 0xCB ∧ wordProgram.get 0x0121 = 0x25 ∧
        wordProgram.get 0x0122 = 0xCB ∧ wordProgram.get 0x0123 = 0x14) ∧
      (wordProgram.get 0x0130 = 0xE8 ∧ wordProgram.get 0x0131 = 0x02 ∧
        wordProgram.get 0x0132 = 0xE8 ∧ wordProgram.get 0x0133 = 0xFE) ∧
      wordProgram.get 0x0134 = 0xF8 ∧ wordProgram.get 0x0135 = 0xFE := by
    simp [wordProgram, FlatMemory.putAll, FlatMemory.get_put]
  generalize wordProgram = bus at bytes ⊢
  obtain ⟨sums, doubles, ⟨escapes, shiftsL, escapesNext, shiftsH⟩, ⟨adds, offset, addsBack, opposite⟩, loads, down⟩ :=
    bytes
  intro start
  refine ⟨?_, ?_, ?_⟩
  · obtain ⟨ready, performs⟩ := performs_of_decode (m := start 0x0100) (.addHL .de) rfl rfl
      (congrArg Opcode.decode sums)
    obtain ⟨zs, last, chain⟩ := exists_byteChain .adc (m := start 0x0100) rfl rfl .add (Word.low 0x8A23)
      (Word.low 0x06FD) [Word.high 0x8A23] [Word.high 0x06FD] rfl
    obtain ⟨_, _, agrees⟩ := word_sums_as_bytes.1 .de performs
    obtain ⟨same, half, _⟩ := agrees (start 0x0100) last zs chain
    have sum : zs = [0x20, 0x91] := by
      rw [← same, performs.addHL.1]
      exact (by decide : Word.bytes (0x8A23 + 0x06FD) = [0x20, 0x91])
    exact ⟨zs, last, chain, sum, same, half⟩
  · obtain ⟨ready, performs⟩ := performs_of_decode (m := start 0x0110) (.addHL .hl) rfl rfl
      (congrArg Opcode.decode doubles)
    obtain ⟨low, first⟩ := performs_of_decodeSecond (m := start 0x0120) (.shift .sla (.register .l)) rfl rfl
      (congrArg Opcode.decode escapes) (congrArg Opcode.decodeSecond shiftsL)
    obtain ⟨runs, wakes, pc, get⟩ := first.behind rfl rfl
    obtain ⟨high, second⟩ := performs_of_decodeSecond (m := (start 0x0120).stepCpu.2) (.shift .rl (.register .h))
      runs wakes (by rw [pc]; exact congrArg Opcode.decode ((get _).trans escapesNext))
      (by rw [pc]; exact congrArg Opcode.decodeSecond ((get _).trans shiftsH))
    exact (word_sums_as_bytes.2.1 performs (start 0x0120) low high rfl first second).1
  · obtain ⟨ready, performs⟩ := performs_of_decode (m := start 0x0130) .addSP rfl rfl (congrArg Opcode.decode adds)
    obtain ⟨runs, wakes, pc, get⟩ := performs.behind rfl rfl
    obtain ⟨back, second⟩ := performs_of_decode (m := (start 0x0130).stepCpu.2) .addSP runs wakes
      (by rw [pc]; exact congrArg Opcode.decode ((get _).trans addsBack))
    have up : ready.immediate.1 = 0x02 := (performs.immediate rfl).trans offset
    have opposed : back.immediate.1 = 0xFE := by
      rw [second.immediate rfl, get, pc]
      exact opposite
    obtain ⟨sum, restores⟩ := word_sums_as_bytes.2.2.1 performs
    have value := sum.value
    rw [up] at value restores
    refine ⟨Int.ofNat.inj value, restores (by decide) _ back rfl second opposed, ?_⟩
    obtain ⟨ready, performs⟩ := performs_of_decode (m := start 0x0134) .ldHLSP rfl rfl (congrArg Opcode.decode loads)
    have taken : ready.immediate.1 = 0xFE := (performs.immediate rfl).trans down
    have value := (word_sums_as_bytes.2.2.2 performs).1.value
    rw [taken] at value
    exact Int.ofNat.inj value

end Machine
end DotMatrix
