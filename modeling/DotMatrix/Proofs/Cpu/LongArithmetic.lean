import DotMatrix.Proofs.Cpu.Execution
import DotMatrix.Proofs.Cpu.Numerals
import Mathlib.Tactic.LinearCombination

/-!
Sums and differences of numbers that take several bytes. A program works on them byte by byte, the lowest
byte first, and the carry flag hands on from one byte to the next what does not fit. Whatever the program
does in between, the result is exact as long as it leaves the carry alone.
-/

namespace DotMatrix

def AluOp.takesCarry : AluOp → Bool
  | adc | sbc => true
  | _ => false

def AluOp.opcode : AluOp → UInt8
  | add => 0x81 | adc => 0x89 | sub => 0x91 | sbc => 0x99 | and => 0xA1 | xor => 0xA9 | or => 0xB1 | cp => 0xB9

theorem AluOp.decode_opcode (op : AluOp) : Opcode.decode op.opcode = .instruction (.alu op (.register .c)) := by
  cases op <;> rfl

namespace Arithmetic

theorem tally_add (x y : UInt8) (carry : Bool) :
    (add x y carry).1.toNat + 256 * (add x y carry).2.carry.toNat = x.toNat + y.toNat + carry.toNat := by
  have small := x.toNat_lt
  have also := y.toNat_lt
  have bit := carry.toNat_le
  simp only [add, UInt8.toNat_ofNat']
  by_cases beyond : 255 < x.toNat + y.toNat + carry.toNat
  · rw [decide_eq_true beyond, Bool.toNat_true]
    omega
  · rw [decide_eq_false beyond, Bool.toNat_false]
    omega

theorem toNat_minus (x y : UInt8) (borrow : Bool) :
    (x - y - borrow.toUInt8).toNat = (x.toNat + 512 - y.toNat - borrow.toNat) % 256 := by
  have small := x.toNat_lt
  have also := y.toNat_lt
  have bit := borrow.toNat_le
  have same : borrow.toUInt8.toNat = borrow.toNat := by cases borrow <;> rfl
  rw [UInt8.toNat_sub, UInt8.toNat_sub, same]
  omega

theorem tally_sub (x y : UInt8) (borrow : Bool) :
    (sub x y borrow).1.toNat + y.toNat + borrow.toNat = x.toNat + 256 * (sub x y borrow).2.carry.toNat := by
  have small := x.toNat_lt
  have also := y.toNat_lt
  have bit := borrow.toNat_le
  simp only [sub, toNat_minus]
  by_cases below : x.toNat < y.toNat + borrow.toNat
  · rw [decide_eq_true below, Bool.toNat_true]
    omega
  · rw [decide_eq_false below, Bool.toNat_false]
    omega

end Arithmetic

namespace Machine

variable {β : Type} [Bus β] {m : Machine β} {op : AluOp}

inductive LoadsA : Instruction → Prop where
  | operand (source : Operand) : LoadsA (.ld (.register .a) source)
  | immediate : LoadsA (.ldByte (.register .a))
  | place (place : Location) : LoadsA (.loadA place)

omit [Bus β] in
theorem flags_eq_of_f {other : Machine β} (same : m.cpu.registers.f = other.cpu.registers.f) : m.flags = other.flags :=
  congrArg Flags.ofByte same

theorem LoadsA.flags {load : Instruction} (h : LoadsA load) (m : Machine β) : (m.execute load).flags = m.flags := by
  cases h with
  | operand source => cases source <;> exact flags_eq_of_f (Registers.f_setByte _ _ _)
  | immediate => exact flags_eq_of_f (Registers.f_setByte _ _ _)
  | place place => cases place <;> exact flags_eq_of_f (Registers.f_setByte _ _ _)

/-- The instructions that operate on A, with the other byte that they take from a machine. -/
inductive Operates (op : AluOp) (m : Machine β) : Instruction → UInt8 → Prop where
  | operand (source : Operand) : Operates op m (.alu op source) (m.readOperand source).1
  | immediate : Operates op m (.aluByte op) m.immediate.1

omit [Bus β] in
theorem a_setAccumulator (result : UInt8 × Flags) (m : Machine β) :
    (m.setAccumulator result).cpu.registers.a = result.1 := by
  change Registers.byte (Registers.setByte _ .a result.1) .a = _
  rw [Registers.byte_setByte, if_pos rfl]

omit [Bus β] in
theorem flags_setAccumulator (result : UInt8 × Flags) (m : Machine β) :
    (m.setAccumulator result).flags = result.2 := by
  change Registers.flags (Registers.setA (Registers.setFlags _ result.2) result.1) = _
  rw [Registers.flags, Registers.f_setA]
  exact Registers.flags_setFlags _ _

theorem Operates.execute {operate : Instruction} {y : UInt8} (h : Operates op m operate y) :
    (m.execute operate).cpu.registers.a = (Arithmetic.apply op m.cpu.registers.a y m.flags.carry).1 ∧
    (m.execute operate).flags = (Arithmetic.apply op m.cpu.registers.a y m.flags.carry).2 := by
  cases h with
  | operand source =>
    have cpu : (m.readOperand source).2.cpu = m.cpu := cpu_readOperand source m
    have flags : (m.readOperand source).2.flags = m.flags := congrArg (fun cpu => cpu.registers.flags) cpu
    simp only [Machine.execute, a_setAccumulator, flags_setAccumulator, cpu, flags, and_self]
  | immediate => exact ⟨a_setAccumulator _ _, flags_setAccumulator _ _⟩

/-- The work on one byte: A is loaded with a byte, and an instruction operates on it with another. Whatever
happens before leaves the carry alone, and what happens in between A as well. -/
inductive ByteStep (op : AluOp) (m : Machine β) (x y : UInt8) : Machine β → Prop where
  | done {start loading next ready : Machine β} {load operate : Instruction}
      (carried : start.flags.carry = m.flags.carry)
      (first : start.Performs load loading) (loads : LoadsA load) (loaded : start.stepCpu.2.cpu.registers.a = x)
      (same : next.cpu.registers.a = start.stepCpu.2.cpu.registers.a)
      (kept : next.flags.carry = start.stepCpu.2.flags.carry)
      (second : next.Performs operate ready) (operates : Operates op ready operate y) :
      ByteStep op m x y next.stepCpu.2

theorem ByteStep.result {x y : UInt8} {after : Machine β} (h : ByteStep op m x y after) :
    after.cpu.registers.a = (Arithmetic.apply op x y m.flags.carry).1 ∧
    after.flags = (Arithmetic.apply op x y m.flags.carry).2 := by
  obtain @⟨start, loading, next, ready, _, _, carried, first, loads, loaded, same, kept, second, operates⟩ := h
  have a : ready.cpu.registers.a = x := by
    rw [second.a, same, loaded]
  have carry : ready.flags.carry = m.flags.carry := by
    rw [second.flags, kept, first.stepCpu, loads.flags, first.flags, carried]
  rw [second.stepCpu, ← a, ← carry]
  exact operates.execute

/-- The work on all bytes of two numbers, the lowest first. The first operation may be another one than the
rest, and the bytes that A is left with make the result. -/
inductive Chain (step : AluOp → Machine β → UInt8 → UInt8 → Machine β → Prop) (next : AluOp) :
    AluOp → Machine β → List UInt8 → List UInt8 → List UInt8 → Machine β → Prop where
  | last {op m x y last} (byte : step op m x y last) : Chain step next op m [x] [y] [last.cpu.registers.a] last
  | more {op m x y between xs ys zs last} (byte : step op m x y between)
      (rest : Chain step next next between xs ys zs last) :
      Chain step next op m (x :: xs) (y :: ys) (between.cpu.registers.a :: zs) last

/-- How the work on one byte takes the carry into account: it is added or taken away with the second byte, and what
the result lacks or exceeds is in the carry behind. -/
def Accounts (s : Numerals) (sign : Int) (step : AluOp → Machine β → UInt8 → UInt8 → Machine β → Prop) (op : AluOp) :
    Prop :=
  ∀ {m x y after}, s.valid x → s.valid y → step op m x y after →
    s.valid after.cpu.registers.a ∧
    (s.digit after.cpu.registers.a : Int) + sign * (s.base * after.flags.carry.toNat) =
      s.digit x + sign * (s.digit y + (op.takesCarry && m.flags.carry).toNat)

omit [Bus β] in
/-- What holds of each byte holds of the whole number. -/
theorem Chain.accounts {s : Numerals} {sign : Int} {step : AluOp → Machine β → UInt8 → UInt8 → Machine β → Prop}
    {next : AluOp} {xs ys zs : List UInt8} {last : Machine β} (h : Chain step next op m xs ys zs last)
    (first : Accounts s sign step op) (others : Accounts s sign step next) (chained : next.takesCarry = true)
    (whole : ∀ x ∈ xs, s.valid x) (also : ∀ y ∈ ys, s.valid y) :
    (∀ z ∈ zs, s.valid z) ∧ zs.length = xs.length ∧ ys.length = xs.length ∧
    (s.value zs : Int) + sign * (s.base ^ xs.length * last.flags.carry.toNat : Nat) =
      s.value xs + sign * (s.value ys + (op.takesCarry && m.flags.carry).toNat : Nat) := by
  induction h with
  | last byte =>
    rw [List.forall_mem_singleton] at whole also
    obtain ⟨valid, exact⟩ := first whole also byte
    refine ⟨by rwa [List.forall_mem_singleton], rfl, rfl, ?_⟩
    simp only [Numerals.value, List.length_singleton]
    push_cast
    linear_combination exact
  | more byte rest ih =>
    rw [List.forall_mem_cons] at whole also
    obtain ⟨valid, exact⟩ := first whole.1 also.1 byte
    obtain ⟨validRest, size, sizeAlso, exactRest⟩ := ih others whole.2 also.2
    rw [chained, Bool.true_and] at exactRest
    refine ⟨List.forall_mem_cons.mpr ⟨valid, validRest⟩, congrArg (· + 1) size, congrArg (· + 1) sizeAlso, ?_⟩
    simp only [Numerals.value, List.length_cons]
    push_cast at exactRest ⊢
    linear_combination exact + s.base * exactRest

/-- Of the four operations two add, and two count the carry in. -/
theorem ByteStep.sum {x y : UInt8} {after : Machine β} (sums : op = .add ∨ op = .adc) (h : ByteStep op m x y after) :
    after.cpu.registers.a = (Arithmetic.add x y (op.takesCarry && m.flags.carry)).1 ∧
    after.flags = (Arithmetic.add x y (op.takesCarry && m.flags.carry)).2 := by
  rcases sums with rfl | rfl <;> exact h.result

theorem ByteStep.difference {x y : UInt8} {after : Machine β} (subtracts : op = .sub ∨ op = .sbc)
    (h : ByteStep op m x y after) :
    after.cpu.registers.a = (Arithmetic.sub x y (op.takesCarry && m.flags.carry)).1 ∧
    after.flags = (Arithmetic.sub x y (op.takesCarry && m.flags.carry)).2 := by
  rcases subtracts with rfl | rfl <;> exact h.result

theorem accounts_sum (sums : op = .add ∨ op = .adc) : Accounts (β := β) .binary 1 ByteStep op := by
  intro m x y after _ _ byte
  obtain ⟨a, flags⟩ := byte.sum sums
  have tally := Arithmetic.tally_add x y (op.takesCarry && m.flags.carry)
  refine ⟨trivial, ?_⟩
  rw [a, flags]
  simp only [Numerals.binary]
  omega

theorem accounts_difference (subtracts : op = .sub ∨ op = .sbc) : Accounts (β := β) .binary (-1) ByteStep op := by
  intro m x y after _ _ byte
  obtain ⟨a, flags⟩ := byte.difference subtracts
  have tally := Arithmetic.tally_sub x y (op.takesCarry && m.flags.carry)
  refine ⟨trivial, ?_⟩
  rw [a, flags]
  simp only [Numerals.binary]
  omega

section Chains

variable {s : Numerals} {step : AluOp → Machine β → UInt8 → UInt8 → Machine β → Prop} {next first : AluOp}
  {xs ys zs ws : List UInt8} {last : Machine β}

omit [Bus β] in
theorem Chain.sum (h : Chain step next op m xs ys zs last) (first : Accounts s 1 step op)
    (others : Accounts s 1 step next) (chained : next.takesCarry = true)
    (fresh : (op.takesCarry && m.flags.carry) = false) (whole : ∀ x ∈ xs, s.valid x) (also : ∀ y ∈ ys, s.valid y) :
    zs = s.bytes xs.length ((s.value xs + s.value ys) % s.base ^ xs.length) ∧
    (last.flags.carry = true ↔ s.base ^ xs.length ≤ s.value xs + s.value ys) := by
  obtain ⟨valid, size, _, tally⟩ := h.accounts first others chained whole also
  rw [fresh, Bool.toNat_false] at tally
  exact Numerals.sum_eq valid size (by omega)

omit [Bus β] in
theorem Chain.difference (h : Chain step next op m xs ys zs last) (first : Accounts s (-1) step op)
    (others : Accounts s (-1) step next) (chained : next.takesCarry = true)
    (fresh : (op.takesCarry && m.flags.carry) = false) (whole : ∀ x ∈ xs, s.valid x) (also : ∀ y ∈ ys, s.valid y) :
    zs = s.bytes xs.length ((s.value xs + s.base ^ xs.length - s.value ys) % s.base ^ xs.length) ∧
    (last.flags.carry = true ↔ s.value xs < s.value ys) := by
  obtain ⟨valid, size, sizeAlso, tally⟩ := h.accounts first others chained whole also
  have less := Numerals.value_lt also
  rw [sizeAlso] at less
  rw [fresh, Bool.toNat_false] at tally
  exact Numerals.difference_eq valid size whole less (by omega)

omit [Bus β] in
/-- A chain of differences takes away what a chain of sums has added. -/
theorem Chain.restores {back : AluOp} {start final : Machine β} (h : Chain step next op m xs ys zs last)
    (away : Chain step back first start zs ys ws final)
    (sums : Accounts s 1 step op) (sumsNext : Accounts s 1 step next) (chained : next.takesCarry = true)
    (subtracts : Accounts s (-1) step first) (subtractsNext : Accounts s (-1) step back)
    (chainedBack : back.takesCarry = true) (fresh : (op.takesCarry && m.flags.carry) = false)
    (freshBack : (first.takesCarry && start.flags.carry) = false)
    (whole : ∀ x ∈ xs, s.valid x) (also : ∀ y ∈ ys, s.valid y) : ws = xs := by
  obtain ⟨valid, size, _, tally⟩ := h.accounts sums sumsNext chained whole also
  obtain ⟨validBack, sizeBack, _, tallyBack⟩ := away.accounts subtracts subtractsNext chainedBack valid also
  rw [fresh, Bool.toNat_false] at tally
  rw [freshBack, Bool.toNat_false, size] at tallyBack
  apply Numerals.eq_of_tally validBack whole (sizeBack.trans size) last.flags.carry final.flags.carry
  omega

end Chains

section Memory

variable {m : Machine FlatMemory} {op : AluOp}

def staged (op : AluOp) (x y : UInt8) (m : Machine FlatMemory) : Machine FlatMemory where
  cpu := { m.cpu with registers := { (m.cpu.registers.setByte .b x).setByte .c y with pc := 0 } }
  bus := ((m.bus.put 0 0x78).put 1 op.opcode).put 2 0x27

theorem get_staged (op : AluOp) (x y : UInt8) (m : Machine FlatMemory) :
    (m.staged op x y).bus.get 0 = 0x78 ∧ (m.staged op x y).bus.get 1 = op.opcode ∧
      (m.staged op x y).bus.get 2 = 0x27 := by
  simp [staged, FlatMemory.get_put]

theorem load_staged (running : m.cpu.stopped = false) (awake : m.cpu.halted = false) (op : AluOp) (x y : UInt8) :
    ∃ loading, (m.staged op x y).Performs (.ld (.register .a) (.register .b)) loading ∧
      (m.staged op x y).stepCpu.2.cpu = { m.cpu with registers :=
        { ((m.cpu.registers.setByte .b x).setByte .c y).setByte .a x with pc := 1 } } ∧
      ∀ address, (m.staged op x y).stepCpu.2.bus.get address = (m.staged op x y).bus.get address := by
  obtain ⟨loading, first⟩ := performs_of_decode (m := m.staged op x y) (.ld (.register .a) (.register .b))
    running awake (congrArg Opcode.decode (m.get_staged op x y).1)
  refine ⟨loading, first, ?_, ?_⟩
  · rw [first.stepCpu]
    change { loading.cpu with registers := loading.cpu.registers.setByte .a (loading.cpu.registers.byte .b) } = _
    rw [first.cpu]
    simp [staged, Registers.setByte, Registers.byte, Instruction.length]
  · rw [first.stepCpu]
    exact first.get

theorem exists_byteStep (running : m.cpu.stopped = false) (awake : m.cpu.halted = false) (op : AluOp) (x y : UInt8) :
    ∃ after, ByteStep op m x y after ∧ after.cpu.stopped = false ∧ after.cpu.halted = false ∧
      after.bus.get after.cpu.registers.pc = 0x27 := by
  obtain ⟨loading, first, cpu, memory⟩ := load_staged running awake op x y
  obtain ⟨_, operate, adjust⟩ := m.get_staged op x y
  have found : Opcode.decode ((m.staged op x y).stepCpu.2.bus.get (m.staged op x y).stepCpu.2.cpu.registers.pc) =
      .instruction (.alu op (.register .c)) := by
    rw [cpu, memory, operate]
    exact op.decode_opcode
  obtain ⟨ready, second⟩ := performs_of_decode (m := (m.staged op x y).stepCpu.2) (.alu op (.register .c))
    (by rw [cpu]; exact running)
    (by rw [cpu]; exact awake) found
  have loaded : (m.staged op x y).stepCpu.2.cpu.registers.a = x := by
    rw [cpu]
    exact Word.high_ofBytes _ _
  have taken : ready.cpu.registers.byte .c = y := by
    rw [second.registers, cpu]
    exact Word.low_ofBytes _ _
  have carried : (m.staged op x y).flags.carry = m.flags.carry := rfl
  have operates : Operates op ready (.alu op (.register .c)) y := taken ▸ Operates.operand (.register .c)
  refine ⟨_, ByteStep.done carried first (.operand _) loaded rfl rfl second operates, ?_⟩
  rw [second.stepCpu]
  change ready.cpu.stopped = false ∧ ready.cpu.halted = false ∧ ready.bus.get ready.cpu.registers.pc = 0x27
  rw [second.get, second.cpu, cpu, memory]
  exact ⟨running, awake, adjust⟩

/-- Two numbers of as many bytes can be worked on from any state. -/
theorem exists_chain {step : AluOp → Machine FlatMemory → UInt8 → UInt8 → Machine FlatMemory → Prop}
    (steps : ∀ {m : Machine FlatMemory}, m.cpu.stopped = false → m.cpu.halted = false → ∀ op x y,
      ∃ after, step op m x y after ∧ after.cpu.stopped = false ∧ after.cpu.halted = false)
    (next : AluOp) (running : m.cpu.stopped = false) (awake : m.cpu.halted = false) (op : AluOp) (x y : UInt8)
    (xs ys : List UInt8) (same : xs.length = ys.length) :
    ∃ zs last, Chain step next op m (x :: xs) (y :: ys) zs last := by
  obtain ⟨after, byte, runs, wakes⟩ := steps running awake op x y
  induction xs generalizing m op x y ys after with
  | nil =>
    obtain rfl : ys = [] := List.eq_nil_of_length_eq_zero same.symm
    exact ⟨_, after, .last byte⟩
  | cons x' rest ih =>
    cases ys with
    | nil => exact absurd same (Nat.succ_ne_zero _)
    | cons y' others =>
      obtain ⟨further, byte', runs', wakes'⟩ := steps runs wakes next x' y'
      obtain ⟨zs, last, chain⟩ := ih runs wakes next x' y' others (Nat.succ.inj same) further byte' runs' wakes'
      exact ⟨_, last, .more byte chain⟩

theorem exists_byteChain (next : AluOp) (running : m.cpu.stopped = false) (awake : m.cpu.halted = false) (op : AluOp)
    (x y : UInt8) (xs ys : List UInt8) (same : xs.length = ys.length) :
    ∃ zs last, Chain ByteStep next op m (x :: xs) (y :: ys) zs last := by
  refine exists_chain ?_ next running awake op x y xs ys same
  intro m running awake op x y
  obtain ⟨after, byte, runs, wakes, _⟩ := exists_byteStep running awake op x y
  exact ⟨after, byte, runs, wakes⟩

end Memory

/-- A program works its way through two numbers of as many bytes. If it adds the first bytes and adds the others
with the carry, the bytes of the sum remain, and the carry tells that the sum did not fit; if it subtracts the
first and subtracts the others with the carry, the bytes of the difference remain, and the carry tells that the
second number is the greater one. Both in turn, with the same second number, restore the first. -/
theorem long_arithmetic_exact {m last : Machine β} {xs ys zs : List UInt8} :
    (Chain ByteStep .adc .add m xs ys zs last →
      zs = Numerals.binary.bytes xs.length
        ((Numerals.binary.value xs + Numerals.binary.value ys) % 256 ^ xs.length) ∧
      (last.flags.carry = true ↔ 256 ^ xs.length ≤ Numerals.binary.value xs + Numerals.binary.value ys)) ∧
    (Chain ByteStep .sbc .sub m xs ys zs last →
      zs = Numerals.binary.bytes xs.length
        ((Numerals.binary.value xs + 256 ^ xs.length - Numerals.binary.value ys) % 256 ^ xs.length) ∧
      (last.flags.carry = true ↔ Numerals.binary.value xs < Numerals.binary.value ys)) ∧
    (Chain ByteStep .adc .add m xs ys zs last → ∀ (start final : Machine β) (ws : List UInt8),
      Chain ByteStep .sbc .sub start zs ys ws final → ws = xs) := by
  have add : Accounts (β := β) .binary 1 ByteStep .add := accounts_sum (.inl rfl)
  have adc : Accounts (β := β) .binary 1 ByteStep .adc := accounts_sum (.inr rfl)
  have sub : Accounts (β := β) .binary (-1) ByteStep .sub := accounts_difference (.inl rfl)
  have sbc : Accounts (β := β) .binary (-1) ByteStep .sbc := accounts_difference (.inr rfl)
  have any (bytes : List UInt8) : ∀ x ∈ bytes, Numerals.binary.valid x := fun _ _ => trivial
  refine ⟨?_, ?_, ?_⟩
  · exact fun sums => sums.sum add adc rfl rfl (any xs) (any ys)
  · exact fun differences => differences.difference sub sbc rfl rfl (any xs) (any ys)
  · exact fun sums start final ws away => sums.restores away add adc rfl sub sbc rfl rfl rfl (any xs) (any ys)

/-- 01FF and 0002 make 0201, and 01FF is left when 0002 is taken away again. -/
theorem long_sum_of_two_bytes :
    ∃ zs last, Chain ByteStep .adc .add (⟨.postBoot, .blank⟩ : Machine FlatMemory) [0xFF, 0x01] [0x02, 0x00] zs last ∧
      zs = [0x01, 0x02] ∧ last.flags.carry = false ∧
      ∃ ws final, Chain ByteStep .sbc .sub (⟨.postBoot, .blank⟩ : Machine FlatMemory) zs [0x02, 0x00] ws final ∧
        ws = [0xFF, 0x01] := by
  obtain ⟨zs, last, sums⟩ := exists_byteChain .adc (m := ⟨.postBoot, .blank⟩) rfl rfl .add 0xFF 0x02 [0x01] [0x00]
    rfl
  obtain ⟨exact, fits⟩ := long_arithmetic_exact.1 sums
  obtain rfl : zs = [0x01, 0x02] := exact
  obtain ⟨ws, final, away⟩ := exists_byteChain .sbc (m := ⟨.postBoot, .blank⟩) rfl rfl .sub 0x01 0x02 [0x02] [0x00]
    rfl
  refine ⟨_, last, sums, rfl, ?_, ws, final, away, long_arithmetic_exact.2.2 sums _ final ws away⟩
  exact Bool.eq_false_iff.mpr fun carry => absurd (fits.mp carry) (by decide)

end Machine
end DotMatrix
