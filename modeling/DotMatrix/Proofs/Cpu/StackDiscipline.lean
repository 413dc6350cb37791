import DotMatrix.Proofs.Byte
import DotMatrix.Proofs.Cpu.Execution

/-!
The stack in memory. The words that are outstanding lie one behind the other from SP on, around the end of
memory if need be. As long as they all fit and nothing but a push writes to them, each word is taken from
where its push has left it.
-/

namespace DotMatrix

structure Outstanding where
  word : UInt16
  sp : UInt16

def Outstanding.Covers (pushed : Outstanding) (address : UInt16) : Prop :=
  address = pushed.sp - 2 ∨ address = pushed.sp - 1

def Outstanding.AnyCovers (stack : List Outstanding) (address : UInt16) : Prop :=
  ∃ pushed ∈ stack, pushed.Covers address

def deepestStack : Nat := 32768

namespace FlatMemory

open Outstanding (AnyCovers)

variable {memory other : FlatMemory} {sp : UInt16} {stack : List Outstanding}

/-- Memory holds the words on the stack, the last one at SP. -/
def Stacks (memory : FlatMemory) : UInt16 → List Outstanding → Prop
  | _, [] => True
  | sp, pushed :: rest =>
    pushed.sp = sp + 2 ∧ memory.get sp = Word.low pushed.word ∧ memory.get (sp + 1) = Word.high pushed.word ∧
      memory.Stacks (sp + 2) rest

theorem Stacks.congr (h : memory.Stacks sp stack)
    (kept : ∀ address, AnyCovers stack address → other.get address = memory.get address) : other.Stacks sp stack := by
  induction stack generalizing sp with
  | nil => trivial
  | cons pushed rest ih =>
    obtain ⟨next, low, high, others⟩ := h
    have first : pushed.Covers sp ∧ pushed.Covers (sp + 1) := by
      rw [Outstanding.Covers, Outstanding.Covers, next]
      exact ⟨.inl (by grind), .inr (by grind)⟩
    refine ⟨next, ?_, ?_, ih others ?_⟩
    · rw [kept sp ⟨pushed, List.mem_cons_self, first.1⟩, low]
    · rw [kept (sp + 1) ⟨pushed, List.mem_cons_self, first.2⟩, high]
    · rintro address ⟨older, inside, covers⟩
      exact kept address ⟨older, List.mem_cons_of_mem _ inside, covers⟩

/-- The bytes of the words follow each other. -/
theorem Stacks.offset_lt (h : memory.Stacks sp stack) {address : UInt16} (covers : AnyCovers stack address) :
    (address - sp).toNat < 2 * stack.length := by
  induction stack generalizing sp with
  | nil => exact absurd covers nofun
  | cons pushed rest ih =>
    obtain ⟨next, _, _, others⟩ := h
    obtain ⟨older, inside, covers⟩ := covers
    rw [List.length_cons]
    cases inside with
    | head =>
      have near : address - sp = 0 ∨ address - sp = 1 := by
        rw [Outstanding.Covers, next] at covers
        grind
      rcases near with none | one
      · rw [none]
        exact Nat.succ_pos _
      · rw [one]
        change 1 < 2 * rest.length + 2
        omega
    | tail _ inside =>
      have further := ih others ⟨older, inside, covers⟩
      have split : address - sp = address - (sp + 2) + 2 := by grind
      have two : (2 : UInt16).toNat = 2 := rfl
      rw [split, UInt16.toNat_add, two]
      omega

/-- A push does not reach the words on the stack before it has gone all around memory. -/
theorem Stacks.spares (h : memory.Stacks sp stack) (room : stack.length < deepestStack) :
    ¬AnyCovers stack (sp - 2) ∧ ¬AnyCovers stack (sp - 2 + 1) := by
  rw [deepestStack] at room
  constructor
  · intro covers
    have offset := h.offset_lt covers
    rw [show sp - 2 - sp = 65534 by grind] at offset
    change 65534 < _ at offset
    omega
  · intro covers
    have offset := h.offset_lt covers
    rw [show sp - 2 + 1 - sp = 65535 by grind] at offset
    change 65535 < _ at offset
    omega

end FlatMemory

open Outstanding (AnyCovers)

namespace Opcode

theorem decode_ne_popSP : ∀ opcode, decode opcode ≠ .instruction (.pop .sp) := by
  decide +kernel

theorem decodeSecond_ne_pop (opcode : UInt8) (target : WordRegister) : decodeSecond opcode ≠ .pop target := by
  unfold decodeSecond
  split <;> exact nofun

end Opcode

namespace Machine

variable {m ready after : Machine FlatMemory} {stack : List Outstanding}

/-- A push onto a stack that has room. -/
theorem stacks_push (room : stack.length < deepestStack) (held : m.bus.Stacks m.cpu.registers.sp stack)
    (value : UInt16) :
    (m.push value).bus.Stacks (m.cpu.registers.sp - 2) (⟨value, m.cpu.registers.sp⟩ :: stack) := by
  obtain ⟨low, high⟩ := held.spares room
  have apart : m.cpu.registers.sp - 2 + 1 ≠ m.cpu.registers.sp - 2 := by grind
  refine ⟨(UInt16.sub_add_cancel _ _).symm, ?_, ?_, ?_⟩
  · rw [get_push, if_neg apart, if_pos rfl]
  · rw [get_push, if_pos rfl]
  · rw [UInt16.sub_add_cancel]
    apply held.congr
    intro address covers
    have above : m.cpu.registers.sp - 2 + 1 ≠ address := by
      rintro rfl
      exact high covers
    have below : m.cpu.registers.sp - 2 ≠ address := by
      rintro rfl
      exact low covers
    rw [get_push, if_neg above, if_neg below]

/-- How a word comes onto a stack: by a push, by a call that is taken, by a restart, or with the entry of a routine.
An entry also withdraws its request, so there must not be a word on the stack where requests are. -/
inductive Pushes (stack : List Outstanding) (m : Machine FlatMemory) : UInt16 → Machine FlatMemory → Prop where
  | push {source ready} (performs : m.Performs (.push source) ready) :
      Pushes stack m (m.cpu.registers.word source) m.stepCpu.2
  | call {condition ready} (performs : m.Performs (.call condition) ready) (taken : ready.passes condition = true) :
      Pushes stack m (m.cpu.registers.pc + 3) m.stepCpu.2
  | rst {slot ready} (performs : m.Performs (.rst slot) ready) : Pushes stack m (m.cpu.registers.pc + 1) m.stepCpu.2
  | dispatch {source after} (serves : m.serveInterrupt = (some source, after))
      (spares : ¬AnyCovers stack Interrupt.requestAddress) : Pushes stack m m.cpu.registers.pc after

inductive Pops (m : Machine FlatMemory) : Prop where
  | pop {target : WordRegister} {ready : Machine FlatMemory} (performs : m.Performs (.pop target) ready)
  | ret {condition : Option Condition} {ready : Machine FlatMemory} (performs : m.Performs (.ret condition) ready)
      (taken : ready.passes condition = true)
  | reti {ready : Machine FlatMemory} (performs : m.Performs .reti ready)

/-- The machine, and the words that have been pushed and not yet popped. In between anything may happen that keeps SP
and the bytes of these words. -/
inductive Stacked : List Outstanding → Machine FlatMemory → Prop where
  | start (m : Machine FlatMemory) : Stacked [] m
  | push {stack : List Outstanding} {m after : Machine FlatMemory} {value : UInt16} (before : Stacked stack m)
      (room : stack.length < deepestStack) (pushes : Pushes stack m value after) :
      Stacked (⟨value, m.cpu.registers.sp⟩ :: stack) after
  | pop {pushed : Outstanding} {stack : List Outstanding} {m : Machine FlatMemory} (before : Stacked (pushed :: stack) m)
      (pops : Pops m) : Stacked stack m.stepCpu.2
  | other {stack : List Outstanding} {m after : Machine FlatMemory} (before : Stacked stack m)
      (same : after.cpu.registers.sp = m.cpu.registers.sp)
      (kept : ∀ address, AnyCovers stack address → after.bus.get address = m.bus.get address) : Stacked stack after

theorem Performs.stacks {op : Instruction} (h : m.Performs op ready)
    (held : m.bus.Stacks m.cpu.registers.sp stack) :
    ready.cpu.registers.sp = m.cpu.registers.sp ∧ ready.bus.Stacks ready.cpu.registers.sp stack := by
  have same : ready.cpu.registers.sp = m.cpu.registers.sp := by rw [h.registers]
  refine ⟨same, ?_⟩
  rw [same]
  exact held.congr fun address _ => h.get address

theorem Performs.target_ne_sp {target : WordRegister} (h : m.Performs (.pop target) ready) : target ≠ .sp := by
  obtain ⟨opcode, rest, fetched, _⟩ := h.found
  simp only [fetch] at fetched
  split at fetched
  · injection fetched with _ others
    injection others with same
    injection same with same
    exact absurd same (Opcode.decodeSecond_ne_pop _ _)
  · injection fetched with _ others
    injection others with same
    rintro rfl
    exact Opcode.decode_ne_popSP _ same

theorem eq_enterRoutine {source : Interrupt} (serves : m.serveInterrupt = (some source, after)) :
    after = m.enterRoutine source := by
  simp only [serveInterrupt] at serves
  split at serves
  · split at serves
    · cases serves
    · cases serves
      rfl
  · cases serves

theorem Pushes.stacks {value : UInt16} (h : Pushes stack m value after) (room : stack.length < deepestStack)
    (held : m.bus.Stacks m.cpu.registers.sp stack) :
    after.bus.Stacks after.cpu.registers.sp (⟨value, m.cpu.registers.sp⟩ :: stack) := by
  cases h with
  | @push source ready performs =>
    obtain ⟨same, found⟩ := performs.stacks held
    have word : ready.cpu.registers.word source = m.cpu.registers.word source := by
      rw [performs.registers]
      cases source <;> rfl
    rw [performs.stepCpu, ← same, ← word]
    exact stacks_push room found _
  | @call condition ready performs taken =>
    obtain ⟨same, found⟩ := performs.stacks held
    have pc : ready.cpu.registers.pc = m.cpu.registers.pc + 3 := by rw [performs.registers]; rfl
    have behind : ready.immediateWord.2.passes condition = true := taken
    rw [performs.stepCpu, ← same, ← pc]
    simp only [execute, behind, if_true]
    exact stacks_push room found _
  | @rst slot ready performs =>
    obtain ⟨same, found⟩ := performs.stacks held
    have pc : ready.cpu.registers.pc = m.cpu.registers.pc + 1 := by rw [performs.registers]; rfl
    rw [performs.stepCpu, ← same, ← pc]
    exact stacks_push room found _
  | @dispatch source _ serves spares =>
    obtain rfl := eq_enterRoutine serves
    -- The request is withdrawn before the word is pushed, so the push may even reach the request.
    let withdrawn := m.write Interrupt.requestAddress (m.bus.get Interrupt.requestAddress &&& ~~~source.mask)
    have found : withdrawn.bus.Stacks withdrawn.cpu.registers.sp stack := by
      apply held.congr
      intro address covers
      have elsewhere : Interrupt.requestAddress ≠ address := fun same => spares (same ▸ covers)
      change (m.bus.put _ _).get address = _
      rw [FlatMemory.get_put, if_neg elsewhere]
    exact (stacks_push room found m.cpu.registers.pc).congr fun _ _ => rfl

section Popping

variable {pushed : Outstanding}

/-- The word at SP is the one that was pushed last. -/
theorem pop_of_stacks (held : m.bus.Stacks m.cpu.registers.sp (pushed :: stack)) :
    m.pop = (pushed.word, m.setSP pushed.sp) := by
  obtain ⟨next, low, high, _⟩ := held
  have word : m.pop.1 = Word.ofBytes (m.bus.get (m.cpu.registers.sp + 1)) (m.bus.get m.cpu.registers.sp) := rfl
  rw [low, high, Word.ofBytes_high_low] at word
  rw [next, ← word]
  rfl

theorem Performs.popped {target : WordRegister} (h : m.Performs (.pop target) ready)
    (held : m.bus.Stacks m.cpu.registers.sp (pushed :: stack)) :
    m.stepCpu.2.cpu.registers.word target = (if target = .af then pushed.word &&& 0xFFF0 else pushed.word) ∧
    m.stepCpu.2.cpu.registers.sp = pushed.sp ∧ m.stepCpu.2.bus = ready.bus := by
  obtain ⟨_, found⟩ := h.stacks held
  have named := h.target_ne_sp
  rw [h.stepCpu]
  simp only [execute, pop_of_stacks found]
  cases target with
  | sp => exact absurd rfl named
  | af | bc | de | hl => exact ⟨rfl, rfl, rfl⟩

theorem Performs.returned {condition : Option Condition} (h : m.Performs (.ret condition) ready)
    (taken : ready.passes condition = true) (held : m.bus.Stacks m.cpu.registers.sp (pushed :: stack)) :
    m.stepCpu.2.cpu.registers.pc = pushed.word ∧ m.stepCpu.2.cpu.registers.sp = pushed.sp ∧
    m.stepCpu.2.bus = ready.bus := by
  obtain ⟨_, found⟩ := h.stacks held
  rw [h.stepCpu]
  simp only [execute, taken, if_true, pop_of_stacks found]
  exact ⟨rfl, rfl, rfl⟩

theorem Performs.returnedEnabled (h : m.Performs .reti ready)
    (held : m.bus.Stacks m.cpu.registers.sp (pushed :: stack)) :
    m.stepCpu.2.cpu.registers.pc = pushed.word ∧ m.stepCpu.2.cpu.registers.sp = pushed.sp ∧
    m.stepCpu.2.cpu.ime = true ∧ m.stepCpu.2.bus = ready.bus := by
  obtain ⟨_, found⟩ := h.stacks held
  rw [h.stepCpu]
  simp only [execute, pop_of_stacks found]
  exact ⟨rfl, rfl, trivial, rfl⟩

theorem Pops.stacks (h : Pops m) (held : m.bus.Stacks m.cpu.registers.sp (pushed :: stack)) :
    m.stepCpu.2.bus.Stacks m.stepCpu.2.cpu.registers.sp stack := by
  have rest : m.bus.Stacks pushed.sp stack := by
    obtain ⟨next, _, _, others⟩ := held
    rwa [next]
  obtain ⟨op, ready, performs, sp, bus⟩ : ∃ op ready, m.Performs op ready ∧
      m.stepCpu.2.cpu.registers.sp = pushed.sp ∧ m.stepCpu.2.bus = ready.bus := by
    cases h with
    | pop performs => exact ⟨_, _, performs, (performs.popped held).2⟩
    | ret performs taken => exact ⟨_, _, performs, (performs.returned taken held).2⟩
    | reti performs =>
      obtain ⟨_, sp, _, bus⟩ := performs.returnedEnabled held
      exact ⟨_, _, performs, sp, bus⟩
  rw [sp, bus]
  exact rest.congr fun address _ => performs.get address

/-- Whatever has been pushed and popped, memory holds the words that are left. -/
theorem Stacked.stacks (h : Stacked stack m) : m.bus.Stacks m.cpu.registers.sp stack := by
  induction h with
  | start m => trivial
  | push _ room pushes ih => exact pushes.stacks room ih
  | pop _ pops ih => exact pops.stacks ih
  | other _ same kept ih =>
    rw [same]
    exact ih.congr kept

end Popping

/-- A stack in memory begins anywhere, and words are pushed and popped in any order, with no more than fit and without
another write to their bytes. An instruction that pops then gives a register the word that was pushed last of those
that are left, without the lower nibble if it is AF, and a return that is taken goes on at this word: behind the call
or restart that pushed it, or where an interrupt had come. SP is as it was before the push, and a return from an
interrupt leaves interrupts enabled. -/
theorem stack_keeps_words {pushed : Outstanding} (h : Stacked (pushed :: stack) m) :
    (∀ target, m.Performs (.pop target) ready →
      m.stepCpu.2.cpu.registers.word target = (if target = .af then pushed.word &&& 0xFFF0 else pushed.word) ∧
      m.stepCpu.2.cpu.registers.sp = pushed.sp) ∧
    (∀ condition, m.Performs (.ret condition) ready → ready.passes condition = true →
      m.stepCpu.2.cpu.registers.pc = pushed.word ∧ m.stepCpu.2.cpu.registers.sp = pushed.sp) ∧
    (m.Performs .reti ready →
      m.stepCpu.2.cpu.registers.pc = pushed.word ∧ m.stepCpu.2.cpu.registers.sp = pushed.sp ∧
      m.stepCpu.2.cpu.ime = true) := by
  have held := h.stacks
  refine ⟨?_, ?_, ?_⟩
  · intro target performs
    obtain ⟨word, sp, _⟩ := performs.popped held
    exact ⟨word, sp⟩
  · intro condition performs taken
    obtain ⟨pc, sp, _⟩ := performs.returned taken held
    exact ⟨pc, sp⟩
  · intro performs
    obtain ⟨pc, sp, enabled, _⟩ := performs.returnedEnabled held
    exact ⟨pc, sp, enabled⟩

def pushesAndReturns : FlatMemory :=
  ((FlatMemory.blank.putAll 0x0100 [0xC5, 0xF1]).put 0x0040 0xD9).putAll 0xFF0F [0x01] |>.put 0xFFFF 0x01

/-- A stack that begins at 0001 lies around the end of memory; one at 0000 covers where interrupts are enabled. -/
theorem stack_keeps_words_around :
    let m : Machine FlatMemory :=
      ⟨⟨{ Registers.postBoot with bc := 0x1234, sp := 0x0001 }, false, false, false⟩, pushesAndReturns⟩
    let n : Machine FlatMemory := ⟨⟨{ Registers.postBoot with sp := 0x0000 }, true, false, false⟩, pushesAndReturns⟩
    (Stacked [⟨0x1234, 0x0001⟩] m.stepCpu.2 ∧
      m.stepCpu.2.stepCpu.2.cpu.registers.af = 0x1230 ∧ m.stepCpu.2.stepCpu.2.cpu.registers.sp = 0x0001) ∧
    Stacked [⟨0x0100, 0x0000⟩] n.serveInterrupt.2 ∧
      n.serveInterrupt.2.stepCpu.2.cpu.registers.pc = 0x0100 ∧
      n.serveInterrupt.2.stepCpu.2.cpu.registers.sp = 0x0000 ∧ n.serveInterrupt.2.stepCpu.2.cpu.ime = true := by
  have bytes : pushesAndReturns.get 0x0100 = 0xC5 ∧ pushesAndReturns.get 0x0101 = 0xF1 ∧
      pushesAndReturns.get 0x0040 = 0xD9 ∧ pushesAndReturns.get 0xFF0F = 0x01 ∧ pushesAndReturns.get 0xFFFF = 0x01 := by
    simp [pushesAndReturns, FlatMemory.putAll, FlatMemory.get_put]
  generalize pushesAndReturns = bus at bytes ⊢
  obtain ⟨first, second, routine, requested, enabled⟩ := bytes
  intro m n
  constructor
  · obtain ⟨ready, performs⟩ := performs_of_decode (m := m) (.push .bc) rfl rfl (congrArg Opcode.decode first)
    have stacked : Stacked [⟨0x1234, 0x0001⟩] m.stepCpu.2 := .push (.start m) (by decide) (.push performs)
    have cpu : m.stepCpu.2.cpu = { m.cpu with registers := { m.cpu.registers with pc := 0x0101, sp := 0xFFFF } } := by
      rw [performs.stepCpu]
      change { ready.cpu with registers := { ready.cpu.registers with sp := ready.cpu.registers.sp - 2 } } = _
      rw [performs.cpu]
      rfl
    have next : m.stepCpu.2.bus.get 0x0101 = 0xF1 := by
      rw [performs.stepCpu]
      change (ready.push _).bus.get 0x0101 = 0xF1
      have sp : ready.cpu.registers.sp = 0x0001 := by rw [performs.registers]
      rw [get_push, performs.get, sp, if_neg (by decide), if_neg (by decide)]
      exact second
    obtain ⟨_, pops⟩ := performs_of_decode (m := m.stepCpu.2) (.pop .af) (by rw [cpu]) (by rw [cpu])
      (by rw [cpu]; exact congrArg Opcode.decode next)
    exact ⟨stacked, (stack_keeps_words stacked).1 .af pops⟩
  · have pending : n.pendingInterrupts = (InterruptSet.ofByte (bus.get 0xFF0F &&& bus.get 0xFFFF), n) := rfl
    rw [requested, enabled] at pending
    have serves : n.serveInterrupt = (some .vblank, n.enterRoutine .vblank) := by
      rw [serveInterrupt, if_pos (show n.cpu.ime = true from rfl), pending]
      rfl
    rw [serves]
    have stacked : Stacked [⟨0x0100, 0x0000⟩] (n.enterRoutine .vblank) :=
      .push (.start n) (by decide) (.dispatch serves (by rintro ⟨_, ⟨⟩, _⟩))
    have next : (n.enterRoutine .vblank).bus.get 0x0040 = 0xD9 := by
      change (((bus.put 0xFF0F _).put 0xFFFE _).put 0xFFFF _).get 0x0040 = 0xD9
      simp only [FlatMemory.get_put]
      exact routine
    obtain ⟨_, returns⟩ := performs_of_decode (m := n.enterRoutine .vblank) .reti rfl rfl
      (congrArg Opcode.decode next)
    exact ⟨stacked, (stack_keeps_words stacked).2.2 returns⟩

end Machine
end DotMatrix
