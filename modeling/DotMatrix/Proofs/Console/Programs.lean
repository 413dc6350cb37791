import DotMatrix.Proofs.Console.Frames
import DotMatrix.Proofs.Memory

/-!
Short programs. An image that is zero but for some code where execution begins makes a cartridge, and while
the code runs each of its instructions has a contract: what it leaves behind, and what it does to the board.
-/

namespace DotMatrix.Program

def byteAt (code : List UInt8) (i : Nat) : UInt8 := if i < 0x100 then 0 else code[i - 0x100]?.getD 0

def page (code : List UInt8) : Block Header.reach := Block.ofFn fun i => byteAt code i.val

def image (code : List UInt8) : ByteArray := (page code).bytes

def twoBanks : RomSize := ⟨2, by decide⟩

def header (code : List UInt8) : Header where
  title := Header.titleOf (Header.titleBytes (page code))
  controller := .plain
  romSize := twoBanks
  ramSize := 0
  color := false

def cartridge (code : List UInt8) : Cartridge := Cartridge.build (header code) (image code) none

variable {code : List UInt8}

theorem size_image (code : List UInt8) : (image code).size = Header.reach := (page code).size_eq

theorem ofBytes_image (code : List UInt8) : Block.ofBytes Header.reach (image code) = page code := by
  apply Block.ext_get
  intro i
  have inside : i.val < (image code).size := by
    rw [size_image]
    exact i.isLt
  rw [Block.get_ofBytes, dif_pos inside]
  rfl

theorem parse_image (short : code.length ≤ 0x43) : Header.parse (image code) = .ok (header code) := by
  have long : ¬(image code).size < Header.reach := by
    rw [size_image]
    exact Nat.lt_irrefl _
  have zero {i : Nat} (inside : i < Header.reach) (behind : 0x143 ≤ i) : (page code).get ⟨i, inside⟩ = 0 := by
    have beyond : code.length ≤ i - 0x100 := by omega
    rw [page, Block.get_ofFn, byteAt, List.getElem?_eq_none beyond]
    exact ite_self _
  rw [Header.parse, if_neg long, ofBytes_image, Header.ofPage, zero _ (by decide), zero _ (by decide),
    zero _ (by decide), zero _ (by decide)]
  rfl

theorem read_program {b : Board} (inserted : b.cartridge = some (cartridge code)) (address : UInt16)
    (inside : address.toNat < Header.reach) : b.read address = byteAt code address.toNat := by
  have low : address.toNat < 0x8000 := Nat.lt_trans inside (by decide)
  have first : address.toNat < 0x4000 := Nat.lt_trans inside (by decide)
  have stored : address.toNat < (image code).size := by
    rw [size_image]
    exact inside
  have place : (cartridge code).rom.index 0 ⟨address.toNat % 0x4000, Nat.mod_lt _ (by decide)⟩ =
      address.toNat := by
    rw [Rom.index, Nat.zero_mod, Nat.zero_mul, Nat.zero_add]
    exact Nat.mod_eq_of_lt first
  have room : address.toNat < (header code).romSize.bytes := by
    rw [show (header code).romSize = twoBanks from rfl]
    exact low
  have found : (Block.ofBytes (header code).romSize.bytes (image code)).get ⟨address.toNat, room⟩ =
      (page code).get ⟨address.toNat, inside⟩ := by
    rw [Block.get_ofBytes]
    exact dif_pos stored
  rw [Board.read, Region.ofAddress]
  simp only [dif_pos low, Board.readRegion, inserted, Cartridge.readRom, if_pos first, Rom.get, place]
  change (Block.ofBytes (header code).romSize.bytes (image code)).get ⟨address.toNat, room⟩ = _
  rw [found, page, Block.get_ofFn]

def performed (op : Instruction) (m : Machine Board) : Machine Board :=
  let ready := (m.watch.perform m.nextOpcode op).2
  ⟨ready.cpu, ready.bus.bus⟩

def accesses (op : Instruction) (m : Machine Board) : List Access :=
  (m.watch.perform m.nextOpcode op).2.bus.seen

variable {pc target : UInt16} {m : Machine Board} {op : Instruction} {cycles : Nat}

def Has (code : List UInt8) : Nat → List UInt8 → Prop
  | _, [] => True
  | i, byte :: rest => i < Header.reach ∧ byteAt code i = byte ∧ Has code (i + 1) rest

instance decidableHas (code : List UInt8) : (i : Nat) → (bytes : List UInt8) → Decidable (Has code i bytes)
  | _, [] => inferInstanceAs (Decidable True)
  | i, byte :: rest =>
    have := decidableHas code (i + 1) rest
    inferInstanceAs (Decidable (i < Header.reach ∧ byteAt code i = byte ∧ Has code (i + 1) rest))

/-- The code is about to run the instruction at an address, whether interrupts are served or not, and the LCD is on. -/
structure At (code : List UInt8) (pc : UInt16) (m : Machine Board) : Prop where
  sound : m.bus.Sound
  inserted : m.bus.cartridge = some (cartridge code)
  on : m.bus.lcd.pace.enabled = true
  at_pc : m.cpu.registers.pc = pc
  running : m.cpu.stopped = false
  awake : m.cpu.halted = false

theorem At.read (h : At code pc m) {byte : UInt8} {rest : List UInt8} {address : UInt16}
    (has : Has code address.toNat (byte :: rest)) : m.bus.read address = byte :=
  (read_program h.inserted address has.1).trans has.2.1

theorem At.decode (h : At code pc m) {opcode : UInt8} {rest : List UInt8} (has : Has code pc.toNat (opcode :: rest))
    (meaning : Opcode.decode opcode = .instruction op) : Opcode.decode m.nextOpcode = .instruction op := by
  have next : m.nextOpcode = m.bus.read pc := congrArg m.bus.read h.at_pc
  rw [next, h.read has]
  exact meaning

theorem has_tail {byte : UInt8} {rest : List UInt8}
    (has : Has code pc.toNat (byte :: rest)) : Has code (pc + 1).toNat rest := by
  have inside : pc.toNat < 0x150 := has.1
  have next : (pc + 1).toNat = pc.toNat + 1 := by
    rw [UInt16.toNat_add, show (1 : UInt16).toNat = 1 from rfl]
    omega
  rw [next]
  exact has.2.2

def operandByte (m : Machine Board) : UInt8 := m.bus.read (m.cpu.registers.pc + UInt16.ofNat 2 - 1)

def operandWord (m : Machine Board) : UInt16 :=
  Word.ofBytes (m.bus.read (m.cpu.registers.pc + UInt16.ofNat 3 - 2 + 1))
    (m.bus.read (m.cpu.registers.pc + UInt16.ofNat 3 - 2))

theorem At.operandByte (h : At code pc m) {opcode byte : UInt8} (has : Has code pc.toNat [opcode, byte]) :
    operandByte m = byte := by
  have place : m.cpu.registers.pc + UInt16.ofNat 2 - 1 = pc + 1 := by
    rw [h.at_pc]
    grind
  rw [Program.operandByte, place]
  exact h.read (has_tail has)

theorem At.operandWord (h : At code pc m) {opcode low high : UInt8} (has : Has code pc.toNat [opcode, low, high]) :
    operandWord m = Word.ofBytes high low := by
  have place : m.cpu.registers.pc + UInt16.ofNat 3 - 2 = pc + 1 := by
    rw [h.at_pc]
    grind
  rw [Program.operandWord, place, h.read (has_tail has), h.read (has_tail (has_tail has))]

structure Leads (code : List UInt8) (op : Instruction) (cycles : Nat) (target : UInt16) (m : Machine Board) :
    Prop where
  found : Opcode.decode m.nextOpcode = .instruction op
  takes : (m.watch.perform m.nextOpcode op).1 = cycles
  arrived : At code target (performed op m)

theorem At.leads (h : At code pc m) {opcode : UInt8} {rest : List UInt8} (has : Has code pc.toNat (opcode :: rest))
    (meaning : Opcode.decode opcode = .instruction op) (takes : (m.watch.perform m.nextOpcode op).1 = cycles)
    (bus : (performed op m).bus = m.bus.note (CpuEvent.executes m.cpu.registers.pc m.nextOpcode op))
    (place : (performed op m).cpu.registers.pc = target) (running : (performed op m).cpu.stopped = false)
    (awake : (performed op m).cpu.halted = false) : Leads code op cycles target m := by
  refine ⟨h.decode has meaning, takes, ?_, ?_, ?_, place, running, awake⟩
  · rw [bus]
    exact h.sound.note _
  · rw [bus]
    exact h.inserted
  · rw [bus]
    exact h.on

theorem At.loadSP (h : At code pc m) {low high : UInt8} (has : Has code pc.toNat [0x31, low, high]) :
    Leads code (.ldWord .sp) 12 (pc + 3) m ∧
      (performed (.ldWord .sp) m).cpu.registers.sp = Word.ofBytes high low :=
  ⟨h.leads has rfl rfl rfl (congrArg (· + 3) h.at_pc) h.running h.awake, h.operandWord has⟩

theorem At.loadA (h : At code pc m) {byte : UInt8} (has : Has code pc.toNat [0x3E, byte]) :
    Leads code (.ldByte (.register .a)) 8 (pc + 2) m ∧
      (performed (.ldByte (.register .a)) m).cpu.registers.a = byte := by
  refine ⟨h.leads has rfl rfl rfl (congrArg (· + 2) h.at_pc) h.running h.awake, ?_⟩
  change Word.high (Word.ofBytes (Program.operandByte m) _) = byte
  rw [Word.high_ofBytes, h.operandByte has]

theorem At.clearA (h : At code pc m) (has : Has code pc.toNat [0xAF]) :
    Leads code (.alu .xor (.register .a)) 4 (pc + 1) m ∧
      (performed (.alu .xor (.register .a)) m).cpu.registers.a = 0 := by
  refine ⟨h.leads has rfl rfl rfl (congrArg (· + 1) h.at_pc) h.running h.awake, ?_⟩
  change Word.high (Word.ofBytes (m.cpu.registers.a ^^^ m.cpu.registers.a) _) = 0
  rw [Word.high_ofBytes, UInt8.xor_self]

theorem At.nop (h : At code pc m) (has : Has code pc.toNat [0x00]) : Leads code .nop 4 (pc + 1) m :=
  h.leads has rfl rfl rfl (congrArg (· + 1) h.at_pc) h.running h.awake

theorem At.serve (h : At code pc m) (has : Has code pc.toNat [0xFB]) : Leads code .ei 4 (pc + 1) m :=
  h.leads has rfl rfl rfl (congrArg (· + 1) h.at_pc) h.running h.awake

theorem At.jumpBy (h : At code pc m) {offset : UInt8} (has : Has code pc.toNat [0x18, offset]) :
    Leads code (.jr none) 12 (pc + 2 + Byte.signExtend offset) m := by
  refine h.leads has rfl rfl rfl ?_ h.running h.awake
  change m.cpu.registers.pc + UInt16.ofNat 2 + Byte.signExtend (Program.operandByte m) = _
  rw [h.operandByte has, h.at_pc]
  rfl

theorem At.jump (h : At code pc m) {low high : UInt8} (has : Has code pc.toNat [0xC3, low, high]) :
    Leads code (.jp none) 16 (Word.ofBytes high low) m :=
  h.leads has rfl rfl rfl (h.operandWord has) h.running h.awake

def storedSP (address : UInt16) (m : Machine Board) : Board :=
  Bus.writeWord address m.cpu.registers.sp
    (m.bus.note (CpuEvent.executes m.cpu.registers.pc m.nextOpcode .storeSP))

theorem At.storeSP (h : At code pc m) {low high : UInt8} (has : Has code pc.toNat [0x08, low, high])
    (kept : (storedSP (Word.ofBytes high low) m).cartridge = m.bus.cartridge)
    (on : (storedSP (Word.ofBytes high low) m).lcd.pace.enabled = true) :
    Leads code .storeSP 20 (pc + 3) m ∧ (performed .storeSP m).bus = storedSP (Word.ofBytes high low) m := by
  have bus : (performed .storeSP m).bus = storedSP (Word.ofBytes high low) m := by
    rw [← h.operandWord has]
    rfl
  refine ⟨⟨h.decode has rfl, rfl, ?_, ?_, ?_, congrArg (· + 3) h.at_pc, h.running, h.awake⟩, bus⟩
  · exact ((h.sound.note _).write _ _).write _ _
  · rw [bus, kept]
    exact h.inserted
  · rw [bus]
    exact on

def stored (offset : UInt8) (m : Machine Board) : Board :=
  (m.bus.note (CpuEvent.executes m.cpu.registers.pc m.nextOpcode (.storeA .page))).write
    (0xFF00 ||| offset.toUInt16) m.cpu.registers.a

theorem stored_eq {offset : UInt8} {region : Region}
    (place : Region.ofAddress (0xFF00 ||| offset.toUInt16) = region) (m : Machine Board) :
    ∃ journal, stored offset m = ({ m.bus with journal } : Board).writeRegion region m.cpu.registers.a := by
  rw [stored, Board.write, place]
  -- the event must not be looked into, since its text is long
  generalize CpuEvent.executes m.cpu.registers.pc m.nextOpcode (.storeA .page) = event
  exact ⟨_, rfl⟩

theorem At.storePage (h : At code pc m) {offset : UInt8} (has : Has code pc.toNat [0xE0, offset])
    (kept : (stored offset m).cartridge = m.bus.cartridge) (on : (stored offset m).lcd.pace.enabled = true) :
    Leads code (.storeA .page) 12 (pc + 2) m ∧ (performed (.storeA .page) m).bus = stored offset m := by
  have bus : (performed (.storeA .page) m).bus = stored offset m := by
    rw [← h.operandByte has]
    rfl
  refine ⟨⟨h.decode has rfl, rfl, ?_, ?_, ?_, congrArg (· + 2) h.at_pc, h.running, h.awake⟩, bus⟩
  · exact (h.sound.note _).write _ _
  · rw [bus, kept]
    exact h.inserted
  · rw [bus]
    exact on

structure Runs (code : List UInt8) (pc : UInt16) (m : Machine Board) : Prop where
  sound : m.bus.Sound
  inserted : m.bus.cartridge = some (cartridge code)
  on : m.bus.lcd.pace.enabled = true
  at_pc : m.cpu.registers.pc = pc
  running : m.cpu.stopped = false
  awake : m.cpu.halted = false
  free : m.cpu.ime = false

theorem Runs.toAt (h : Runs code pc m) : At code pc m := ⟨h.sound, h.inserted, h.on, h.at_pc, h.running, h.awake⟩

theorem stepCpu_of_decode (running : m.cpu.stopped = false) (awake : m.cpu.halted = false)
    (found : Opcode.decode m.nextOpcode = .instruction op) :
    m.watch.stepCpu =
      (.ok (m.watch.perform m.nextOpcode op).1, ⟨(performed op m).cpu, ⟨(performed op m).bus, accesses op m⟩⟩) := by
  have fetched : m.watch.fetch = (m.nextOpcode, .instruction op, m.watch) := by
    have same : Opcode.decode (m.watch.read m.watch.cpu.registers.pc).1 = .instruction op := found
    simp only [Machine.fetch, same]
    rfl
  rw [Machine.stepCpu, if_neg (by rw [show m.watch.cpu = m.cpu from rfl, running]; decide),
    if_neg (by rw [show m.watch.cpu = m.cpu from rfl, awake]; decide), fetched]
  rfl

theorem stepCpu_performed (running : m.cpu.stopped = false) (awake : m.cpu.halted = false)
    (found : Opcode.decode m.nextOpcode = .instruction op)
    (takes : (m.watch.perform m.nextOpcode op).1 = cycles) :
    m.stepCpu = (.ok cycles, performed op m) := by
  have alike := m.related_watch.stepCpu Watched.simulates.toAnswers
  rw [stepCpu_of_decode running awake found, takes] at alike
  obtain ⟨value, cpu, bus⟩ := alike
  generalize m.stepCpu = x at value cpu bus ⊢
  obtain ⟨result, processor, board⟩ := x
  cases value
  cases cpu
  cases bus
  rfl

theorem step_of_decode (running : m.cpu.stopped = false) (awake : m.cpu.halted = false)
    (free : (performed op m).cpu.ime = false) (found : Opcode.decode m.nextOpcode = .instruction op)
    (takes : (m.watch.perform m.nextOpcode op).1 = cycles) {result : Except Fault Unit} {after : Board}
    (ticked : (performed op m).bus.tick cycles = (result, after)) :
    m.step = (result.map fun _ => cycles, ⟨(performed op m).cpu, after⟩) ∧
      (m.traffic = accesses op m ∨ m.traffic = accesses op m ++ [.batch cycles]) := by
  have stepped := stepCpu_of_decode running awake found
  rw [takes] at stepped
  cases result with
  | ok =>
    have caught : Machine.tick cycles ⟨(performed op m).cpu, (⟨(performed op m).bus, accesses op m⟩ : Watched Board)⟩ =
        (.ok (), ⟨(performed op m).cpu, ⟨after, accesses op m ++ [.batch cycles]⟩⟩) := by
      rw [Machine.tick, Watched.tick_ok ticked]
    have whole : m.watch.step =
        (.ok cycles, ⟨(performed op m).cpu, ⟨after, accesses op m ++ [.batch cycles]⟩⟩) := by
      rw [Machine.step, stepped]
      simp only [caught]
      rw [Machine.dispatch, Machine.serveInterrupt, if_neg (by rw [free]; decide)]
    obtain ⟨done, traffic⟩ := Machine.step_of_watch whole
    exact ⟨done, .inr traffic⟩
  | error fault =>
    have refused : Machine.tick cycles ⟨(performed op m).cpu, (⟨(performed op m).bus, accesses op m⟩ : Watched Board)⟩ =
        (.error fault, ⟨(performed op m).cpu, ⟨after, accesses op m⟩⟩) := by
      rw [Machine.tick, Watched.tick_error ticked]
    have whole : m.watch.step = (.error fault, ⟨(performed op m).cpu, ⟨after, accesses op m⟩⟩) := by
      rw [Machine.step, stepped]
      simp only [refused]
    obtain ⟨done, traffic⟩ := Machine.step_of_watch whole
    exact ⟨done, .inl traffic⟩

inductive Outcome (code : List UInt8) (op : Instruction) (target : UInt16) (cycles : Nat) (m : Machine Board) :
    Prop where
  | passed {next : Machine Board} (done : m.step = (.ok cycles, next)) (runs : Runs code target next)
      (cpu : next.cpu = (performed op m).cpu)
      (timer : next.bus.timer = (performed op m).bus.timer.advance cycles)
      (lcd : next.bus.lcd = ((performed op m).bus.lcd.advance cycles).2)
      (room : (performed op m).bus.timer.enabled = true →
        -2 ^ 31 ≤ (performed op m).bus.timer.counterCountdown - cycles)
      (ticked : (performed op m).bus.tick cycles = (.ok (), next.bus))
  | refused (failed : m.step = (.error .countdownOverflow, performed op m))
      (behind : (performed op m).bus.timer.Behind)

theorem Runs.outcome (h : Runs code pc m) (cycles : Nat) (short : cycles ≤ longestBatch) (some : cycles ≠ 0)
    (leads : Leads code op cycles target m) (free : (performed op m).cpu.ime = false) :
    Outcome code op target cycles m ∧
      (m.traffic = accesses op m ∨ m.traffic = accesses op m ++ [.batch cycles]) := by
  obtain ⟨found, takes, arrived⟩ := leads
  have sound := arrived.sound.tick short
  have inserted := Board.cartridge_tick cycles (performed op m).bus
  have outcome := (performed op m).bus.tick_outcome short
  generalize ticked : (performed op m).bus.tick cycles = x at sound inserted outcome
  obtain ⟨result, after⟩ := x
  obtain ⟨done, traffic⟩ := step_of_decode h.running h.awake free found takes ticked
  refine ⟨?_, traffic⟩
  cases outcome with
  | nothing => exact absurd rfl some
  | taken timer lcd =>
    have on : after.lcd.pace.enabled = true := by
      rw [lcd, Lcd.enabled_advance]
      exact arrived.on
    exact .passed done ⟨sound, inserted.trans arrived.inserted, on, arrived.at_pc, arrived.running,
      arrived.awake, free⟩ rfl timer lcd (fun on => Board.room_of_tick short some on ticked) ticked
  | refused room => exact .refused done (arrived.sound.behind_of_refusal short room)

structure Passed (code : List UInt8) (op : Instruction) (target : UInt16) (cycles : Nat) (m next : Machine Board) :
    Prop where
  done : m.step = (.ok cycles, next)
  runs : Runs code target next
  off : next.bus.timer.enabled = false
  cpu : next.cpu = (performed op m).cpu
  lcd : next.bus.lcd = ((performed op m).bus.lcd.advance cycles).2
  ticked : (performed op m).bus.tick cycles = (.ok (), next.bus)

theorem Outcome.passed_of_off (h : Outcome code op target cycles m)
    (off : (performed op m).bus.timer.enabled = false) : ∃ next, Passed code op target cycles m next := by
  cases h with
  | refused _ behind => exact absurd (off.symm.trans behind.1) (by decide)
  | @passed next done runs cpu timer lcd _ ticked =>
    refine ⟨next, done, runs, ?_, cpu, lcd, ticked⟩
    rw [timer, Timer.enabled_advance]
    exact off

theorem quiet_of_accesses {addresses : List UInt16} {made seen : List Access}
    (traffic : seen = made ∨ seen = made ++ [.batch cycles]) (quiet : Quiet addresses made) :
    Quiet addresses seen := by
  rcases traffic with rfl | rfl
  · exact quiet
  · refine quiet_append.mpr ⟨quiet, ?_⟩
    constructor <;> simp [Spares, Access.writesTo, Access.halts]

theorem Runs.storePage (h : Runs code pc m) {offset : UInt8} (has : Has code pc.toNat [0xE0, offset])
    (kept : (stored offset m).cartridge = m.bus.cartridge) (on : (stored offset m).lcd.pace.enabled = true) :
    Outcome code (.storeA .page) (pc + 2) 12 m ∧ (performed (.storeA .page) m).bus = stored offset m ∧
      (performed (.storeA .page) m).cpu.registers.a = m.cpu.registers.a := by
  obtain ⟨leads, bus⟩ := h.toAt.storePage has kept on
  exact ⟨(h.outcome 12 (by decide) (by decide) leads h.free).1, bus, rfl⟩

theorem Runs.jumpBy (h : Runs code pc m) {offset : UInt8} (has : Has code pc.toNat [0x18, offset]) :
    Outcome code (.jr none) (pc + 2 + Byte.signExtend offset) 12 m ∧
      (performed (.jr none) m).bus.timer = m.bus.timer ∧ (performed (.jr none) m).bus.lcd = m.bus.lcd ∧
      Quiet [0xFF40, 0xFF44] m.traffic := by
  have made : accesses (.jr none) m = [.note (.executes m.cpu.registers.pc m.nextOpcode (.jr none))] := rfl
  obtain ⟨outcome, traffic⟩ := h.outcome 12 (by decide) (by decide) (h.toAt.jumpBy has) h.free
  refine ⟨outcome, rfl, rfl, quiet_of_accesses traffic ?_⟩
  rw [made]
  constructor <;> simp [Spares, Access.writesTo, Access.halts]

theorem Runs.clearFrame {c : Console} (h : Runs code pc c.machine) : Runs code pc c.clearFrame.machine :=
  ⟨h.sound.clearFrame, h.inserted, h.on, h.at_pc, h.running, h.awake, h.free⟩

def loaded (bytes : ByteArray) (journal : Journal) : Console := ((Console.postBoot journal).load bytes none).2

theorem reachable_loaded (bytes : ByteArray) (journal : Journal) : (loaded bytes journal).Reachable :=
  ⟨journal, [.load bytes none], rfl⟩

theorem cpu_loaded (bytes : ByteArray) (journal : Journal) : (loaded bytes journal).machine.cpu = Cpu.postBoot :=
  rfl

theorem runs_loaded {bytes : ByteArray} {header : Header} (parsed : Header.parse bytes = .ok header)
    (holds : Cartridge.build header bytes none = cartridge code) (journal : Journal) :
    Runs code 0x0100 (loaded bytes journal).machine ∧ (loaded bytes journal).board.timer = Timer.postBoot ∧
      (loaded bytes journal).board.lcd = Lcd.postBoot ∧ (loaded bytes journal).board.requests = 0x01 := by
  have sound := Console.sound_load (Board.sound_postBoot journal) bytes none
  have board : (loaded bytes journal).board = ((Board.postBoot journal).load bytes none).2 := rfl
  obtain ⟨kept, same⟩ := @Board.load_of_parse bytes none header parsed (Board.postBoot journal)
  rw [← board] at sound same
  rw [same]
  refine ⟨⟨sound, ?_, ?_, rfl, rfl, rfl, rfl⟩, rfl, rfl, rfl⟩
  · rw [show (loaded bytes journal).machine.bus = _ from same, holds]
  · rw [show (loaded bytes journal).machine.bus = _ from same]
    exact show Lcd.postBoot.pace.enabled = true by decide +kernel

instance (t : Timer) : Decidable t.Behind :=
  inferInstanceAs (Decidable (t.enabled = true ∧ t.counterCountdown < (longestBatch : Int) - 2 ^ 31))

end DotMatrix.Program
