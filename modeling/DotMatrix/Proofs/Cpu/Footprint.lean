import DotMatrix.Proofs.Bus.Tracing
import DotMatrix.Proofs.Byte
import DotMatrix.Proofs.Cpu.Execution

/-!
What one instruction touches. Its opcode and its operand are read where they stand behind each other, then the data
it works on, and only then is anything written: nothing, a byte, or a word with the low byte first. So an instruction
that overwrites itself still goes by the operand that it had.
-/

namespace DotMatrix

def Location.operandLength : Location → Nat
  | page => 1
  | absolute => 2
  | _ => 0

def behindOpcode (length : Nat) (pc : UInt16) : List UInt16 :=
  (List.range length).map fun i => pc + UInt16.ofNat (1 + i)

namespace Instruction

def opcodeLength : Instruction → Nat
  | shift _ _ | bit _ _ | res _ _ | set _ _ => 2
  | _ => 1

def operandLength : Instruction → Nat
  | ldByte _ | ldHLSP | addSP | aluByte _ | jr _ => 1
  | ldWord _ | storeSP | jp _ | call _ => 2
  | storeA place | loadA place => place.operandLength
  | _ => 0

/-- Opcode and operand make up the instruction, but for the byte that pads a stop. -/
theorem length_eq (op : Instruction) :
    op.length = op.opcodeLength + op.operandLength + (decide (op = stop)).toNat := by
  cases op with
  | storeA place | loadA place => cases place <;> rfl
  | _ => rfl

def opcodeAddresses (op : Instruction) (pc : UInt16) : List UInt16 :=
  (List.range op.opcodeLength).map fun i => pc + UInt16.ofNat i

theorem opcodeAddresses_of_one {op : Instruction} (first : op.opcodeLength = 1) (pc : UInt16) :
    op.opcodeAddresses pc = [pc] := by
  rw [opcodeAddresses, first]
  exact congrArg (fun address => [address]) (UInt16.add_zero pc)

theorem opcodeAddresses_of_two {op : Instruction} (second : op.opcodeLength = 2) (pc : UInt16) :
    op.opcodeAddresses pc = [pc, pc + 1] := by
  rw [opcodeAddresses, second]
  exact congrArg (fun address => [address, pc + 1]) (UInt16.add_zero pc)

def operandAddresses (op : Instruction) (pc : UInt16) : List UInt16 := behindOpcode op.operandLength pc

end Instruction

inductive Stored where
  | nothing
  | byte (address : UInt16) (value : UInt8)
  | word (address value : UInt16)
  deriving DecidableEq, Repr

def Stored.accesses : Stored → List MemoryAccess
  | nothing => []
  | byte address value => [.write address value]
  | word address value => [.write address (Word.low value), .write (address + 1) (Word.high value)]

/-- No write of an instruction undoes another. -/
theorem Stored.replay_of_mem {stored : Stored} {address : UInt16} {byte : UInt8}
    (listed : .write address byte ∈ stored.accesses) (before : UInt8) :
    MemoryAccess.replay address before stored.accesses = byte := by
  cases stored with
  | nothing => cases listed
  | byte target value =>
    cases List.mem_singleton.mp listed
    exact if_pos rfl
  | word target value =>
    have apart : target + 1 ≠ target := by grind
    rcases List.mem_cons.mp listed with low | rest
    · cases low
      change (if address + 1 = address then _ else if address = address then _ else _) = _
      rw [if_neg apart, if_pos rfl]
    · cases List.mem_singleton.mp rest
      exact if_pos rfl

def Slot.opcodeLength : Slot → Nat
  | unassigned => 1
  | escape => 2
  | instruction op => op.opcodeLength

namespace Opcode

theorem opcodeLength_decode {opcode : UInt8} {op : Instruction} (found : decode opcode = .instruction op) :
    op.opcodeLength = 1 := by
  have single : ∀ opcode, decode opcode ≠ .escape → (decode opcode).opcodeLength = 1 := by
    decide +kernel
  have here := single opcode
  rw [found] at here
  exact here nofun

theorem opcodeLength_decodeSecond (opcode : UInt8) : (decodeSecond opcode).opcodeLength = 2 := by
  unfold decodeSecond
  split <;> rfl

end Opcode

namespace Machine

section Spec

variable (m : Machine FlatMemory)

def operandByte : UInt8 := m.bus.get (m.cpu.registers.pc + 1)

def operandWord : UInt16 :=
  Word.ofBytes (m.bus.get (m.cpu.registers.pc + 2)) (m.bus.get (m.cpu.registers.pc + 1))

def topWord : UInt16 := Word.ofBytes (m.bus.get (m.cpu.registers.sp + 1)) (m.bus.get m.cpu.registers.sp)

def address : Location → UInt16
  | .bc => m.cpu.registers.bc
  | .de => m.cpu.registers.de
  | .hlUp | .hlDown => m.cpu.registers.hl
  | .page => 0xFF00 ||| m.operandByte.toUInt16
  | .pageC => 0xFF00 ||| (Word.low m.cpu.registers.bc).toUInt16
  | .absolute => m.operandWord

def value : Operand → UInt8
  | .register name => m.cpu.registers.byte name
  | .atHL => m.bus.get m.cpu.registers.hl

def pointee : Operand → List UInt16
  | .register _ => []
  | .atHL => [m.cpu.registers.hl]

/-- Where an instruction reads the data it works on. -/
def loads : Instruction → List UInt16
  | .ld _ source | .alu _ source => m.pointee source
  | .inc target | .dec target | .shift _ target | .bit _ target | .res _ target | .set _ target => m.pointee target
  | .loadA place => [m.address place]
  | .pop _ | .reti => [m.cpu.registers.sp, m.cpu.registers.sp + 1]
  | .ret condition => if m.passes condition then [m.cpu.registers.sp, m.cpu.registers.sp + 1] else []
  | _ => []

def storedIn (target : Operand) (result : UInt8) : Stored :=
  match target with
  | .register _ => .nothing
  | .atHL => .byte m.cpu.registers.hl result

def storedByPush (word : UInt16) : Stored := .word (m.cpu.registers.sp - 2) word

/-- What an instruction stores, and where. -/
def stored : Instruction → Stored
  | .ld target source => m.storedIn target (m.value source)
  | .ldByte target => m.storedIn target m.operandByte
  | .inc target => m.storedIn target (Arithmetic.inc (m.value target) m.flags.carry).1
  | .dec target => m.storedIn target (Arithmetic.dec (m.value target) m.flags.carry).1
  | .shift op target => m.storedIn target (Arithmetic.shift op (m.value target) m.flags.carry).1
  | .res n target => m.storedIn target (m.value target &&& ~~~Arithmetic.bitMask n)
  | .set n target => m.storedIn target (m.value target ||| Arithmetic.bitMask n)
  | .storeA place => .byte (m.address place) m.cpu.registers.a
  | .storeSP => .word m.operandWord m.cpu.registers.sp
  | .push source => m.storedByPush (m.cpu.registers.word source)
  | .rst _ => m.storedByPush (m.cpu.registers.pc + 1)
  | .call condition => if m.passes condition then m.storedByPush (m.cpu.registers.pc + 3) else .nothing
  | _ => .nothing

def branch? : Instruction → Option UInt16
  | .jr condition =>
    if m.passes condition then some (m.cpu.registers.pc + 2 + Byte.signExtend m.operandByte) else none
  | .jp condition | .call condition => if m.passes condition then some m.operandWord else none
  | .jpHL => some m.cpu.registers.hl
  | .ret condition => if m.passes condition then some m.topWord else none
  | .reti => some m.topWord
  | .rst slot => some (restartAddress slot)
  | _ => none

def traced : Machine TracedMemory := ⟨m.cpu, m.bus, []⟩

def accesses : List MemoryAccess := m.traced.stepCpu.2.bus.accesses

def reading (address : UInt16) : MemoryAccess := .read address (m.bus.get address)

end Spec

section Behind

variable (m : Machine FlatMemory) (op : Instruction) (trail : List MemoryAccess)

def behind : Machine TracedMemory where
  cpu := { m.cpu with registers := { m.cpu.registers with pc := m.cpu.registers.pc + UInt16.ofNat op.length } }
  bus := ⟨m.bus, trail⟩

theorem immediate_behind (short : op.length = 2) :
    (m.behind op trail).immediate = (m.operandByte, m.behind op (trail ++ [m.reading (m.cpu.registers.pc + 1)])) := by
  have place : (m.behind op trail).cpu.registers.pc - 1 = m.cpu.registers.pc + 1 := by
    simp only [behind, short]
    grind
  simp only [immediate, place]
  rfl

theorem immediateWord_behind (long : op.length = 3) :
    (m.behind op trail).immediateWord = (m.operandWord, m.behind op
      (trail ++ [m.reading (m.cpu.registers.pc + 1), m.reading (m.cpu.registers.pc + 2)])) := by
  have low : (m.behind op trail).cpu.registers.pc - 2 = m.cpu.registers.pc + 1 := by
    simp only [behind, long]
    grind
  have high : m.cpu.registers.pc + 1 + 1 = m.cpu.registers.pc + 2 := by grind
  simp only [immediateWord, low, readWord, Bus.readWord, Bus.read, high]
  simp only [behind, operandWord, reading, List.append_assoc, List.cons_append, List.nil_append]

theorem readOperand_behind (source : Operand) :
    (m.behind op trail).readOperand source =
      (m.value source, m.behind op (trail ++ (m.pointee source).map m.reading)) := by
  cases source with
  | register name =>
    rw [pointee, List.map_nil, List.append_nil]
    cases name <;> rfl
  | atHL => rfl

theorem pop_behind :
    (m.behind op trail).pop = (m.topWord, (m.behind op (trail ++
      [m.reading m.cpu.registers.sp, m.reading (m.cpu.registers.sp + 1)])).setSP (m.cpu.registers.sp + 2)) := by
  simp only [pop, readWord, Bus.readWord, Bus.read]
  simp only [behind, topWord, reading, List.append_assoc, List.cons_append, List.nil_append]

theorem passes_behind (condition : Option Condition) : (m.behind op trail).passes condition = m.passes condition := by
  cases condition with
  | none => rfl
  | some test => cases test <;> rfl

/-- The address of a place may stand behind the opcode; to find it changes HL at most. -/
theorem resolve_behind (place : Location) (same : op.length = place.length) :
    ∃ k, (m.behind op trail).resolve place = (m.address place, k) ∧
      k.bus = ⟨m.bus, trail ++ (behindOpcode place.operandLength m.cpu.registers.pc).map m.reading⟩ ∧
      k.cpu.registers.a = m.cpu.registers.a ∧ k.cpu.registers.pc = (m.behind op trail).cpu.registers.pc := by
  have nothing : trail = trail ++ [] := (List.append_nil trail).symm
  cases place with
  | page =>
    simp only [resolve, immediate_behind m op trail same]
    exact ⟨_, rfl, rfl, rfl, rfl⟩
  | absolute =>
    simp only [resolve, immediateWord_behind m op trail same]
    exact ⟨_, rfl, rfl, rfl, rfl⟩
  | bc | de | hlUp | hlDown | pageC => exact ⟨_, rfl, congrArg _ nothing, rfl, rfl⟩

end Behind

section Writing

variable {m : Machine FlatMemory} {k : Machine TracedMemory}

theorem accesses_writeOperand (same : k.cpu.registers.hl = m.cpu.registers.hl) (target : Operand) (byte : UInt8) :
    (k.writeOperand target byte).bus.accesses = k.bus.accesses ++ (m.storedIn target byte).accesses := by
  cases target with
  | register name => exact (List.append_nil _).symm
  | atHL =>
    rw [storedIn, ← same]
    rfl

theorem accesses_writeWord (address word : UInt16) (k : Machine TracedMemory) :
    (k.writeWord address word).bus.accesses = k.bus.accesses ++ (Stored.word address word).accesses :=
  List.append_assoc _ _ _

theorem accesses_push (same : k.cpu.registers.sp = m.cpu.registers.sp) (word : UInt16) :
    (k.push word).bus.accesses = k.bus.accesses ++ (m.storedByPush word).accesses := by
  rw [storedByPush, ← same]
  exact accesses_writeWord _ _ _

theorem accesses_updateOperand (op : Instruction) (trail : List MemoryAccess) (target : Operand)
    (f : UInt8 → Flags → UInt8 × Flags) :
    ((m.behind op trail).updateOperand target f).bus.accesses =
      trail ++ ((m.pointee target).map m.reading ++ (m.storedIn target (f (m.value target) m.flags).1).accesses) := by
  simp only [updateOperand, readOperand_behind]
  rw [accesses_writeOperand (m := m) rfl, ← List.append_assoc]
  rfl

theorem accesses_mapOperand (op : Instruction) (trail : List MemoryAccess) (target : Operand) (f : UInt8 → UInt8) :
    ((m.behind op trail).mapOperand target f).bus.accesses =
      trail ++ ((m.pointee target).map m.reading ++ (m.storedIn target (f (m.value target))).accesses) := by
  simp only [mapOperand, readOperand_behind]
  rw [accesses_writeOperand (m := m) rfl, ← List.append_assoc]
  rfl

end Writing

/-- Behind the opcode the operand and the data are read, and then the result is written. -/
theorem accesses_execute (m : Machine FlatMemory) (op : Instruction) (trail : List MemoryAccess) :
    ((m.behind op trail).execute op).bus.accesses =
      trail ++ ((op.operandAddresses m.cpu.registers.pc ++ m.loads op).map m.reading ++ (m.stored op).accesses) := by
  rw [List.map_append, List.append_assoc]
  cases op with
  | nop | stop | halt | di | ei | daa | cpl | scf | ccf | ldSPHL | incWord | decWord | addHL | rotateA | jpHL =>
    -- These work on registers alone.
    exact (List.append_nil trail).symm
  | ld target source =>
    simp only [execute, readOperand_behind]
    rw [accesses_writeOperand (m := m) rfl, behind, List.append_assoc]
    rfl
  | ldByte target =>
    simp only [execute, immediate_behind m (.ldByte target) trail rfl]
    rw [accesses_writeOperand (m := m) rfl, behind, List.append_assoc]
    rfl
  | ldWord target =>
    simp only [execute, immediateWord_behind m (.ldWord target) trail rfl]
    rfl
  | storeA place =>
    obtain ⟨k, found, bus, a, _⟩ := resolve_behind m (.storeA place) trail place rfl
    -- To find the place may have changed HL, but not the A that is stored.
    simp only [execute, found, write, bus, a]
    exact List.append_assoc _ _ _
  | loadA place =>
    obtain ⟨k, found, bus, _, _⟩ := resolve_behind m (.loadA place) trail place rfl
    simp only [execute, found, read, bus]
    exact List.append_assoc _ _ _
  | storeSP =>
    simp only [execute, immediateWord_behind m .storeSP trail rfl]
    rw [accesses_writeWord, behind, List.append_assoc]
    rfl
  | ldHLSP =>
    simp only [execute, immediate_behind m .ldHLSP trail rfl]
    rfl
  | addSP =>
    simp only [execute, immediate_behind m .addSP trail rfl]
    rfl
  | inc | dec | shift =>
    rw [execute, accesses_updateOperand]
    rfl
  | res | set =>
    rw [execute, accesses_mapOperand]
    rfl
  | alu _ source | bit _ source =>
    simp only [execute, readOperand_behind]
    exact congrArg (trail ++ ·) (List.append_nil _).symm
  | aluByte op =>
    simp only [execute, immediate_behind m (.aluByte op) trail rfl]
    rfl
  | jr condition =>
    simp only [execute, immediate_behind m (.jr condition) trail rfl]
    split <;> rfl
  | jp condition =>
    simp only [execute, immediateWord_behind m (.jp condition) trail rfl]
    split <;> rfl
  | call condition =>
    simp only [execute, immediateWord_behind m (.call condition) trail rfl, passes_behind, stored]
    split
    · exact (accesses_push (m := m) rfl _).trans (List.append_assoc _ _ _)
    · rfl
  | ret condition =>
    -- The stack is read only by a return that is taken.
    simp only [execute, passes_behind, pop_behind, loads]
    split
    · rfl
    · exact (List.append_nil trail).symm
  | reti | pop =>
    simp only [execute, pop_behind]
    rfl
  | rst | push => exact accesses_push (m := m) rfl _

section

variable {β : Type} [Bus β] (k : Machine β)

theorem pc_setWord (r : Registers) (name : WordRegister) (value : UInt16) : (r.setWord name value).pc = r.pc := by
  cases name <;> rfl

theorem pc_writeOperand (target : Operand) (byte : UInt8) :
    (k.writeOperand target byte).cpu.registers.pc = k.cpu.registers.pc := by
  cases target with
  | register name => cases name <;> rfl
  | atHL => rfl

theorem pc_updateOperand (target : Operand) (f : UInt8 → Flags → UInt8 × Flags) :
    (k.updateOperand target f).cpu.registers.pc = k.cpu.registers.pc := by
  simp only [updateOperand, pc_writeOperand]
  exact congrArg (·.registers.pc) (k.cpu_readOperand target)

theorem pc_mapOperand (target : Operand) (f : UInt8 → UInt8) :
    (k.mapOperand target f).cpu.registers.pc = k.cpu.registers.pc := by
  simp only [mapOperand, pc_writeOperand, cpu_readOperand]

end

theorem pc_execute (m : Machine FlatMemory) (op : Instruction) (trail : List MemoryAccess) :
    ((m.behind op trail).execute op).cpu.registers.pc =
      (m.branch? op).getD (m.cpu.registers.pc + UInt16.ofNat op.length) := by
  cases op with
  | nop | stop | halt | di | ei | daa | cpl | scf | ccf | ldSPHL | addHL | rotateA | jpHL | aluByte | addSP | ldHLSP
  | storeSP | rst | push => rfl
  | ld target source =>
    simp only [execute, pc_writeOperand, cpu_readOperand]
    rfl
  | ldByte target =>
    simp only [execute, pc_writeOperand]
    rfl
  | ldWord | incWord | decWord | pop => exact pc_setWord _ _ _
  | storeA place =>
    obtain ⟨k, found, _, _, pc⟩ := resolve_behind m (.storeA place) trail place rfl
    simp only [execute, found]
    exact pc
  | loadA place =>
    obtain ⟨k, found, _, _, pc⟩ := resolve_behind m (.loadA place) trail place rfl
    simp only [execute, found]
    exact pc
  | inc | dec | shift =>
    rw [execute, pc_updateOperand]
    rfl
  | res | set =>
    rw [execute, pc_mapOperand]
    rfl
  | alu _ source | bit _ source =>
    simp only [execute, readOperand_behind]
    rfl
  | jr condition =>
    simp only [execute, immediate_behind m (.jr condition) trail rfl, passes_behind, branch?]
    split <;> rfl
  | jp condition =>
    simp only [execute, immediateWord_behind m (.jp condition) trail rfl, passes_behind, branch?]
    split <;> rfl
  | call condition =>
    simp only [execute, immediateWord_behind m (.call condition) trail rfl, passes_behind, branch?]
    split <;> rfl
  | ret condition =>
    simp only [execute, passes_behind, pop_behind, branch?]
    split <;> rfl
  | reti =>
    simp only [execute, pop_behind]
    rfl

section Step

variable {m : Machine FlatMemory} {op : Instruction}

theorem fetch_traced (legal : m.fetch.2.1 = .instruction op) :
    m.traced.fetch = (m.bus.get m.cpu.registers.pc, .instruction op,
      ⟨m.cpu, m.bus, (op.opcodeAddresses m.cpu.registers.pc).map m.reading⟩) := by
  have first : (m.read m.cpu.registers.pc).1 = m.bus.get m.cpu.registers.pc := rfl
  have again : (m.traced.read m.traced.cpu.registers.pc).1 = m.bus.get m.cpu.registers.pc := rfl
  cases found : Opcode.decode (m.bus.get m.cpu.registers.pc) with
  | unassigned =>
    simp only [fetch, first, found] at legal
    cases legal
  | escape =>
    simp only [fetch, first, found, Slot.instruction.injEq] at legal
    subst legal
    rw [Instruction.opcodeAddresses_of_two (Opcode.opcodeLength_decodeSecond _)]
    simp only [fetch, again, found]
    rfl
  | instruction other =>
    simp only [fetch, first, found, Slot.instruction.injEq] at legal
    subst legal
    rw [Instruction.opcodeAddresses_of_one (Opcode.opcodeLength_decode found)]
    simp only [fetch, again, found]
    rfl

theorem slot_fetch (found : Opcode.decode (m.bus.get m.cpu.registers.pc) = .instruction op) :
    m.fetch.2.1 = .instruction op := by
  have first : (m.read m.cpu.registers.pc).1 = m.bus.get m.cpu.registers.pc := rfl
  simp only [fetch, first, found]

theorem stepCpu_traced (running : m.cpu.stopped = false) (awake : m.cpu.halted = false)
    (legal : m.fetch.2.1 = .instruction op) :
    ∃ cycles, m.traced.stepCpu =
      (.ok cycles, (m.behind op ((op.opcodeAddresses m.cpu.registers.pc).map m.reading)).execute op) := by
  have performs : m.traced.Performs op (m.behind op ((op.opcodeAddresses m.cpu.registers.pc).map m.reading)) :=
    ⟨running, awake, _, _, fetch_traced legal, rfl⟩
  exact ⟨_, performs.stepCpu⟩

theorem related_traced (m : Machine FlatMemory) :
    Agree (fun (t : TracedMemory) (memory : FlatMemory) => t.memory.get = memory.get) m.traced.stepCpu m.stepCpu := by
  have start : Related (fun (t : TracedMemory) (memory : FlatMemory) => t.memory.get = memory.get) m.traced m :=
    ⟨rfl, rfl⟩
  exact start.stepCpu TracedMemory.answers

/-- After a step memory holds what its accesses have left there. -/
theorem get_stepCpu (m : Machine FlatMemory) (address : UInt16) :
    m.stepCpu.2.bus.get address = MemoryAccess.replay address (m.bus.get address) m.accesses := by
  rw [← congrFun m.related_traced.rest.bus address]
  exact stepCpu_keeps (TracedMemory.replays address (m.bus.get address)) (m := m.traced) rfl

/-- Whatever the registers and memory hold and wherever PC points: an instruction with a meaning reads its opcode, then
its operand at PC + 1 and PC + 2 at most, then its data, and writes last, what the table of stores says and nothing
else. All it reads is what memory held before the step. It goes on behind its bytes unless it branches. -/
theorem step_touches (m : Machine FlatMemory) (op : Instruction) (running : m.cpu.stopped = false)
    (awake : m.cpu.halted = false) (legal : m.fetch.2.1 = .instruction op) :
    (∃ cycles, m.stepCpu.1 = .ok cycles) ∧
    m.accesses = (op.opcodeAddresses m.cpu.registers.pc ++ op.operandAddresses m.cpu.registers.pc
      ++ m.loads op).map m.reading ++ (m.stored op).accesses ∧
    op.opcodeLength + op.operandLength ≤ op.length ∧
    (∀ address byte, .write address byte ∈ (m.stored op).accesses → m.stepCpu.2.bus.get address = byte) ∧
    (∀ address, (∀ byte, .write address byte ∉ (m.stored op).accesses) →
      m.stepCpu.2.bus.get address = m.bus.get address) ∧
    m.stepCpu.2.cpu.registers.pc = (m.branch? op).getD (m.cpu.registers.pc + UInt16.ofNat op.length) := by
  obtain ⟨cycles, step⟩ := stepCpu_traced running awake legal
  have accesses : m.accesses = (op.opcodeAddresses m.cpu.registers.pc ++ op.operandAddresses m.cpu.registers.pc
      ++ m.loads op).map m.reading ++ (m.stored op).accesses := by
    rw [Machine.accesses, step, accesses_execute]
    simp only [List.map_append, List.append_assoc]
  -- Reads leave memory alone, so what it holds afterwards is told by the stores.
  have left (address : UInt16) : m.stepCpu.2.bus.get address =
      MemoryAccess.replay address (m.bus.get address) (m.stored op).accesses := by
    have reads (addresses : List UInt16) (byte : UInt8) : .write address byte ∉ addresses.map m.reading := by
      intro listed
      obtain ⟨_, _, same⟩ := List.mem_map.mp listed
      cases same
    rw [get_stepCpu, accesses, MemoryAccess.replay_append, MemoryAccess.replay_of_spared (reads _)]
  refine ⟨⟨cycles, ?_⟩, accesses, ?_, ?_, ?_, ?_⟩
  · rw [← m.related_traced.value, step]
  · rw [op.length_eq]
    exact Nat.le_add_right _ _
  · intro address byte listed
    rw [left, Stored.replay_of_mem listed]
  · intro address spared
    rw [left, MemoryAccess.replay_of_spared spared]
  · rw [← m.related_traced.rest.cpu, step, pc_execute]

def callsAround : FlatMemory := FlatMemory.blank.putAll 0xFFFE [0xCD, 0x34, 0x12]

/-- The return address is pushed over the operand of the call, which has been read before. -/
theorem step_touches_own_operand :
    let m : Machine FlatMemory :=
      ⟨⟨{ Registers.postBoot with pc := 0xFFFE, sp := 0x0001 }, false, false, false⟩, callsAround⟩
    m.fetch.2.1 = .instruction (.call none) ∧
      m.accesses = [.read 0xFFFE 0xCD, .read 0xFFFF 0x34, .read 0x0000 0x12, .write 0xFFFF 0x01, .write 0x0000 0x00] ∧
      m.stepCpu.2.bus.get 0xFFFF = 0x01 ∧ m.stepCpu.2.bus.get 0x0000 = 0x00 ∧ m.stepCpu.2.bus.get 0xFFFE = 0xCD ∧
      m.stepCpu.2.cpu.registers.pc = 0x1234 := by
  have bytes : callsAround.get 0xFFFE = 0xCD ∧ callsAround.get 0xFFFF = 0x34 ∧ callsAround.get 0x0000 = 0x12 := by
    simp [callsAround, FlatMemory.putAll, FlatMemory.get_put]
  generalize callsAround = memory at bytes ⊢
  obtain ⟨opcode, low, high⟩ := bytes
  intro m
  have legal : m.fetch.2.1 = .instruction (.call none) := slot_fetch (congrArg Opcode.decode opcode)
  have second : (0xFFFE : UInt16) + 1 = 0xFFFF := by decide
  have third : (0xFFFE : UInt16) + 2 = 0x0000 := by decide
  have word : m.operandWord = 0x1234 := by
    change Word.ofBytes (memory.get (0xFFFE + 2)) (memory.get (0xFFFE + 1)) = 0x1234
    rw [second, third, low, high]
    decide
  obtain ⟨_, accesses, _, written, kept, pc⟩ := step_touches m (.call none) rfl rfl legal
  have stored : (m.stored (.call none)).accesses = [.write 0xFFFF 0x01, .write 0x0000 0x00] := by
    change (Stored.word (0x0001 - 2) (0xFFFE + 3)).accesses = _
    decide
  rw [stored] at accesses written kept
  refine ⟨legal, ?_, ?_, ?_, ?_, ?_⟩
  · rw [accesses]
    change [m.reading (0xFFFE + 0), m.reading (0xFFFE + 1), m.reading (0xFFFE + 2), _, _] = _
    rw [UInt16.add_zero, second, third]
    simp only [reading, m, opcode, low, high]
  · exact written 0xFFFF 0x01 (by decide)
  · exact written 0x0000 0x00 (by decide)
  · exact (kept 0xFFFE (by simp)).trans opcode
  · rw [pc]
    exact word

end Step

end Machine
end DotMatrix
