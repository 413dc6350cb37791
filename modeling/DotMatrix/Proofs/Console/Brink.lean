import DotMatrix.Proofs.Console.Headroom
import DotMatrix.Proofs.Console.Lagging
import DotMatrix.Proofs.Console.Restarting

/-!
Programs that come to rest with the counter off and the stack at the register that switches it on. How far the counter
has fallen behind by then is up to the time that is spent in the loop of a lagging program before: the program is
changed for another one while it runs.
-/

namespace DotMatrix

namespace Program

variable {code : List UInt8} {pc target : UInt16} {m : Machine Board} {op : Instruction} {cycles : Nat}

structure Passes (op : Instruction) (cycles : Nat) (m : Machine Board) : Prop where
  room : ¬(performed op m).bus.timer.Overdrawn cycles
  calm : (performed op m).cpu.ime = true → ((performed op m).bus.tick cycles).2.pending = 0

structure Went (op : Instruction) (cycles : Nat) (m : Machine Board) : Prop where
  done : m.step = (.ok cycles, m.step.2)
  cpu : m.step.2.cpu = (performed op m).cpu
  ticked : (performed op m).bus.tick cycles = (.ok (), m.step.2.bus)

theorem At.went (h : At code pc m) (short : cycles ≤ longestBatch)
    (found : Opcode.decode m.nextOpcode = .instruction op) (takes : (m.watch.perform m.nextOpcode op).1 = cycles)
    (sound : (performed op m).bus.Sound) (passes : Passes op cycles m) : Went op cycles m := by
  have cpu := stepCpu_performed h.running h.awake found takes
  have ticked := (sound.tick_result short).1 passes.room
  have idle : ¬((performed op m).cpu.ime = true ∧ ((performed op m).bus.tick cycles).2.pending ≠ 0) :=
    fun both => both.2 (passes.calm both.1)
  have done := (Machine.step_of_batch cpu ticked (sound.tick short)).1 idle
  refine ⟨?_, ?_, ?_⟩
  · rw [done]
  · rw [done]
  · rw [done]
    exact ticked

theorem Went.arrives (went : Went op cycles m) (short : cycles ≤ longestBatch)
    (arrived : At code target (performed op m)) : At code target m.step.2 := by
  have after : ((performed op m).bus.tick cycles).2 = m.step.2.bus := congrArg Prod.snd went.ticked
  refine ⟨?_, ?_, ?_, ?_, ?_, ?_⟩
  · rw [← after]
    exact arrived.sound.tick short
  · rw [← after, Board.cartridge_tick]
    exact arrived.inserted
  · rw [← after, Board.lcdEnabled_tick short]
    exact arrived.on
  · rw [went.cpu]
    exact arrived.at_pc
  · rw [went.cpu]
    exact arrived.running
  · rw [went.cpu]
    exact arrived.awake

theorem At.goes (h : At code pc m) (short : cycles ≤ longestBatch) (leads : Leads code op cycles target m)
    (passes : Passes op cycles m) : Went op cycles m ∧ At code target m.step.2 := by
  have went := h.went short leads.found leads.takes leads.arrived.sound passes
  exact ⟨went, went.arrives short leads.arrived⟩

end Program

namespace Brink

open Program (At Runs byteAt Went Leads Passes Has performed stored storedSP image)

def program (rest : List UInt8) : List UInt8 := List.replicate 10 0 ++ [
  0x31, 0x09, 0xFF,  -- LD SP,FF09
  0x08, 0x00, 0xC0,  -- LD (C000),SP
  0x08, 0x00, 0xC0,  -- LD (C000),SP
  0x08, 0x00, 0xC0,  -- LD (C000),SP
  0x08, 0x07, 0xFF,  -- LD (FF07),SP
  0x3E, 0x11,        -- LD A,11
  0xE0, 0xFF,        -- LDH (FF),A
  0xE0, 0x44,        -- LDH (44),A
  0xAF,              -- XOR A
  0xE0, 0x0F,        -- LDH (0F),A
  0xFB] ++ rest      -- EI

variable {rest : List UInt8} {x room : Int} {pc target : UInt16} {m : Machine Board} {op : Instruction} {cycles : Nat}
  {b after : Board}

structure Falls (rest : List UInt8) (x : Int) (pc : UInt16) (m : Machine Board) : Prop where
  place : At (program rest) pc m
  free : m.cpu.ime = false
  lags : m.bus.timer.Lags
  left : m.bus.timer.counterCountdown = x

theorem Falls.goes (h : Falls rest x pc m) (short : cycles ≤ longestBatch) (some : cycles ≠ 0)
    (leads : Leads (program rest) op cycles target m) (timer : (performed op m).bus.timer = m.bus.timer)
    (free : (performed op m).cpu.ime = false) (spent : x ≤ cycles) (room : (cycles : Int) - 2 ^ 31 ≤ x) :
    Falls rest (x - cycles + 16) target m.step.2 ∧ m.step.2.cpu = (performed op m).cpu := by
  have passes : Passes op cycles m := by
    refine ⟨?_, fun serves => absurd (free.symm.trans serves) (by decide)⟩
    rintro ⟨_, late⟩
    rw [timer, h.left] at late
    omega
  obtain ⟨went, place⟩ := h.place.goes short leads passes
  have counted := (Board.devices_of_tick short some went.ticked).1
  rw [timer] at counted
  refine ⟨⟨place, ?_, ?_, ?_⟩, went.cpu⟩
  · rw [went.cpu]
    exact free
  · rw [counted]
    exact h.lags.advance.1
  · rw [counted, h.lags.advance_of_spent (h.left ▸ spent), h.left]

theorem Falls.loadSP (h : Falls rest x 0x010A m) (spent : x ≤ 12) (room : 12 - 2 ^ 31 ≤ x) :
    Falls rest (x + 4) 0x010D m.step.2 ∧ m.step.2.cpu.registers.sp = 0xFF09 := by
  have has : Has (program rest) (0x010A : UInt16).toNat [0x31, 0x09, 0xFF] := by
    simp [Has, byteAt, program, Header.reach]
  obtain ⟨leads, sp⟩ := h.place.loadSP has
  obtain ⟨falls, cpu⟩ := h.goes (by decide) (by decide) leads rfl h.free spent room
  refine ⟨?_, ?_⟩
  · rwa [show x - (12 : Nat) + 16 = x + 4 by omega] at falls
  · rw [cpu, sp]
    decide

theorem Falls.storeSP (h : Falls rest x pc m) (has : Has (program rest) pc.toNat [0x08, 0x00, 0xC0])
    (spent : x ≤ 20) (room : 20 - 2 ^ 31 ≤ x) :
    Falls rest (x - 4) (pc + 3) m.step.2 ∧ m.step.2.cpu.registers.sp = m.cpu.registers.sp := by
  obtain ⟨leads, bus⟩ := h.place.storeSP has rfl h.place.on
  obtain ⟨falls, cpu⟩ := h.goes (by decide) (by decide) leads (by rw [bus]; rfl) h.free spent room
  refine ⟨?_, congrArg (fun cpu => cpu.registers.sp) cpu⟩
  rwa [show x - (20 : Nat) + 16 = x - 4 by omega] at falls

structure Off (x : Int) (t : Timer) : Prop where
  control : t.control = 1
  left : t.counterCountdown = x

theorem Off.enabled {t : Timer} (h : Off x t) : t.enabled = false := by
  rw [Timer.enabled, h.control]
  rfl

theorem Off.advance {t : Timer} (h : Off x t) (cycles : Int) : Off x (t.advance cycles) := by
  have control : (t.advance cycles).control = t.control := by
    unfold Timer.advance Timer.advanceCounter Timer.reload
    split <;> split <;> rfl
  exact ⟨control.trans h.control, (Timer.countdown_of_off h.enabled cycles).trans h.left⟩

theorem Off.tick (h : Off x b.timer) (short : cycles ≤ longestBatch) : Off x (b.tick cycles).2.timer := by
  have outcome := b.tick_outcome short
  generalize b.tick cycles = y at outcome ⊢
  cases outcome with
  | nothing | refused => exact h
  | taken timer =>
    rw [timer]
    exact h.advance cycles

/-- With the counter off and interrupts not served nothing can go wrong. -/
theorem Off.goes (off : Off x (performed op m).bus.timer) (place : At (program rest) pc m)
    (short : cycles ≤ longestBatch) (leads : Leads (program rest) op cycles target m)
    (free : (performed op m).cpu.ime = false) :
    Went op cycles m ∧ At (program rest) target m.step.2 ∧ Off x m.step.2.bus.timer := by
  have passes : Passes op cycles m := by
    refine ⟨fun full => absurd (off.enabled.symm.trans full.1) (by decide), ?_⟩
    exact fun serves => absurd (free.symm.trans serves) (by decide)
  obtain ⟨went, place⟩ := place.goes short leads passes
  have counted := off.tick short
  rw [went.ticked] at counted
  exact ⟨went, place, counted⟩

structure Parked (rest : List UInt8) (x : Int) (serves : Bool) (pc : UInt16) (m : Machine Board) : Prop where
  place : At (program rest) pc m
  serving : m.cpu.ime = serves
  sp : m.cpu.registers.sp = 0xFF09
  off : Off x m.bus.timer

/-- Storing the stack pointer stops the counter, which goes on from where it has stopped when it is started again. -/
theorem Falls.park (h : Falls rest x 0x0116 m) (sp : m.cpu.registers.sp = 0xFF09) :
    Parked rest x false 0x0119 m.step.2 := by
  have has : Has (program rest) (0x0116 : UInt16).toNat [0x08, 0x07, 0xFF] := by
    simp [Has, byteAt, program, Header.reach]
  obtain ⟨leads, bus⟩ := h.place.storeSP has rfl h.place.on
  have off : Off x (performed .storeSP m).bus.timer := by
    have stopped : (performed .storeSP m).bus.timer = m.bus.timer.writeControl (Word.low m.cpu.registers.sp) := by
      rw [bus]
      rfl
    have same : Timer.period 1 = Timer.period 5 := rfl
    rw [stopped, sp]
    refine ⟨rfl, ?_⟩
    simp only [Timer.writeControl, h.lags.control]
    exact (if_pos same).trans h.left
  obtain ⟨went, place, off⟩ := off.goes h.place (by decide) leads h.free
  refine ⟨place, ?_, ?_, off⟩
  · rw [went.cpu]
    exact h.free
  · rw [went.cpu]
    exact sp

theorem Parked.goes (h : Parked rest x false pc m) (short : cycles ≤ longestBatch)
    (leads : Leads (program rest) op cycles target m) (timer : (performed op m).bus.timer = m.bus.timer)
    (sp : (performed op m).cpu.registers.sp = m.cpu.registers.sp) (serving : (performed op m).cpu.ime = false) :
    Parked rest x false target m.step.2 ∧ Went op cycles m := by
  have off : Off x (performed op m).bus.timer := timer ▸ h.off
  obtain ⟨went, place, off⟩ := off.goes h.place short leads serving
  refine ⟨⟨place, ?_, ?_, off⟩, went⟩
  · rw [went.cpu]
    exact serving
  · rw [went.cpu, sp]
    exact h.sp

structure Away (room : Int) (b : Board) : Prop where
  sound : b.Sound
  enables : b.enables = 0x11
  on : b.lcd.pace.enabled = true
  left : b.lcd.pace.untilBlank = room

theorem Away.tick (h : Away room b) (short : cycles ≤ longestBatch) (some : cycles ≠ 0) (far : cycles < room)
    (ticked : b.tick cycles = (.ok (), after)) : Away (room - cycles) after := by
  have sound := h.sound.tick short
  have enables := Board.enables_tick cycles b
  have on := Board.lcdEnabled_tick short b
  rw [ticked] at sound enables on
  refine ⟨sound, enables.trans h.enables, on.trans h.on, ?_⟩
  rw [(Board.devices_of_tick short some ticked).2]
  have near := h.left
  rcases Lcd.pace_batch cycles b.lcd with ⟨dark, _⟩ | ⟨_, status, same⟩
  · exact absurd (dark.symm.trans h.on) (by decide)
  · rw [same]
    change (b.lcd.pace.countDown cycles).untilBlank = _
    rcases Pace.untilBlank_countDown h.sound.lcd cycles with ⟨nearer, _⟩ | ⟨_, _, reached⟩
    · rw [nearer, near]
    · omega

structure Calm (room : Int) (b : Board) : Prop extends Away room b where
  none : b.requests &&& 0x11 = 0

theorem Calm.pending (h : Calm room b) : b.pending = 0 := by
  rw [Board.pending, h.enables, UInt8.and_comm 0x11, h.none]
  rfl

/-- A batch asks for what is enabled only when it reaches the blank. -/
theorem Calm.requests_tick (h : Calm room b) (short : cycles ≤ longestBatch) (some : cycles ≠ 0)
    (ticked : b.tick cycles = (.ok (), after)) :
    after.requests &&& 0x11 = if room ≤ cycles then 0x01 else 0 := by
  have line : (cycles : Int) ≤ Lcd.lineCycles := Int.ofNat_le.mpr (Nat.le_trans short longestBatch_le_line)
  have blank := Lcd.vblank_iff h.sound.lcd h.on line
  rw [h.left] at blank
  rw [Board.requests_tick ticked, Byte.or_and, h.none, UInt8.zero_or, Board.raisedBy, if_neg some,
    Countdown.batch_eq short]
  simp only [Byte.or_and]
  generalize (b.lcd.advance cycles).1.stat.isSome = stat
  generalize b.timer.overflowed = counted
  by_cases reached : room ≤ cycles
  · rw [blank.mpr reached, if_pos reached]
    cases stat <;> cases counted <;> rfl
  · rw [Bool.eq_false_iff.mpr fun asked => reached (blank.mp asked), if_neg reached]
    cases stat <;> cases counted <;> rfl

theorem Calm.tick (h : Calm room b) (short : cycles ≤ longestBatch) (some : cycles ≠ 0) (far : cycles < room)
    (ticked : b.tick cycles = (.ok (), after)) : Calm (room - cycles) after := by
  refine ⟨h.toAway.tick short some far ticked, ?_⟩
  rw [h.requests_tick short some ticked, if_neg (by omega)]

theorem Calm.wakes (h : Calm room b) (short : cycles ≤ longestBatch) (some : cycles ≠ 0) (near : room ≤ cycles)
    (ticked : b.tick cycles = (.ok (), after)) : after.pending = 0x01 := by
  have enables := Board.enables_tick cycles b
  rw [ticked] at enables
  rw [Board.pending, show after.enables = 0x11 from enables.trans h.enables, UInt8.and_comm 0x11,
    h.requests_tick short some ticked, if_pos near]
  rfl

theorem Parked.loadA (h : Parked rest x false 0x0119 m) :
    Parked rest x false 0x011B m.step.2 ∧ m.step.2.cpu.registers.a = 0x11 := by
  have has : Has (program rest) (0x0119 : UInt16).toNat [0x3E, 0x11] := by
    simp [Has, byteAt, program, Header.reach]
  obtain ⟨leads, a⟩ := h.place.loadA has
  obtain ⟨parked, went⟩ := h.goes (by decide) leads rfl rfl h.serving
  refine ⟨parked, ?_⟩
  rw [went.cpu, a]

theorem Parked.enable (h : Parked rest x false 0x011B m) (a : m.cpu.registers.a = 0x11) :
    Parked rest x false 0x011D m.step.2 ∧ m.step.2.bus.enables = 0x11 := by
  have has : Has (program rest) (0x011B : UInt16).toNat [0xE0, 0xFF] := by
    simp [Has, byteAt, program, Header.reach]
  obtain ⟨journal, board⟩ := Program.stored_enables m
  obtain ⟨leads, bus⟩ := h.place.storePage has (by rw [board]) (by rw [board]; exact h.place.on)
  rw [board] at bus
  obtain ⟨parked, went⟩ := h.goes (by decide) leads (by rw [bus]) rfl h.serving
  have enables := Board.enables_tick 12 (performed (.storeA .page) m).bus
  rw [went.ticked] at enables
  refine ⟨parked, ?_⟩
  rw [show m.step.2.bus.enables = _ from enables, bus]
  exact a

theorem far_of_restart {lcd : Lcd} (sound : lcd.pace.Sound) :
    65208 < ({ lcd with line := 0 } : Lcd).pace.untilBlank := by
  have positive : 0 < lcd.countdown := sound.positive
  have first : (0 : UInt8).toNat < screenHeight := by decide
  rw [Pace.untilBlank]
  change _ < if (0 : UInt8).toNat < screenHeight then _ else _
  rw [if_pos first]
  change 65208 < (456 : Int) * 144 - (456 * 0 + (456 - lcd.countdown))
  omega

theorem Parked.restart (h : Parked rest x false 0x011D m) (enables : m.bus.enables = 0x11) :
    Parked rest x false 0x011F m.step.2 ∧ ∃ room, 65000 ≤ room ∧ Away room m.step.2.bus := by
  have has : Has (program rest) (0x011D : UInt16).toNat [0xE0, 0x44] := by
    simp [Has, byteAt, program, Header.reach]
  obtain ⟨journal, board⟩ := Restarting.stored_line m
  obtain ⟨leads, bus⟩ := h.place.storePage has (by rw [board]) (by rw [board]; exact h.place.on)
  rw [board] at bus
  obtain ⟨parked, went⟩ := h.goes (by decide) leads (by rw [bus]) rfl h.serving
  have away : Away (performed (.storeA .page) m).bus.lcd.pace.untilBlank (performed (.storeA .page) m).bus :=
    ⟨leads.arrived.sound, by rw [bus]; exact enables, leads.arrived.on, rfl⟩
  have far : 65208 < (performed (.storeA .page) m).bus.lcd.pace.untilBlank := by
    rw [bus]
    exact far_of_restart h.place.sound.lcd
  refine ⟨parked, _, ?_, away.tick (by decide) (by decide) (by omega) went.ticked⟩
  omega

theorem Parked.clearA (h : Parked rest x false 0x011F m) (away : Away room m.bus) (far : 1000 < room) :
    Parked rest x false 0x0120 m.step.2 ∧ Away (room - 4) m.step.2.bus ∧ m.step.2.cpu.registers.a = 0 := by
  have has : Has (program rest) (0x011F : UInt16).toNat [0xAF] := by simp [Has, byteAt, program, Header.reach]
  obtain ⟨leads, a⟩ := h.place.clearA has
  obtain ⟨parked, went⟩ := h.goes (by decide) leads rfl rfl h.serving
  have same : Away room (performed (.alu .xor (.register .a)) m).bus :=
    ⟨leads.arrived.sound, away.enables, away.on, away.left⟩
  have before : ((4 : Nat) : Int) < room := by omega
  refine ⟨parked, same.tick (by decide) (by decide) before went.ticked, ?_⟩
  rw [went.cpu, a]

theorem stored_requests (m : Machine Board) :
    ∃ journal, stored 0x0F m = { m.bus with requests := m.cpu.registers.a &&& 0x1F, journal } :=
  Program.stored_eq (show Region.ofAddress (0xFF00 ||| (0x0F : UInt8).toUInt16) = .register .requests by
    decide +kernel) m

theorem Parked.forget (h : Parked rest x false 0x0120 m) (away : Away room m.bus) (far : 1000 < room)
    (a : m.cpu.registers.a = 0) : Parked rest x false 0x0122 m.step.2 ∧ Calm (room - 12) m.step.2.bus := by
  have has : Has (program rest) (0x0120 : UInt16).toNat [0xE0, 0x0F] := by
    simp [Has, byteAt, program, Header.reach]
  obtain ⟨journal, board⟩ := stored_requests m
  obtain ⟨leads, bus⟩ := h.place.storePage has (by rw [board]) (by rw [board]; exact h.place.on)
  rw [board] at bus
  obtain ⟨parked, went⟩ := h.goes (by decide) leads (by rw [bus]) rfl h.serving
  have calm : Calm room (performed (.storeA .page) m).bus := by
    refine ⟨⟨leads.arrived.sound, ?_, leads.arrived.on, ?_⟩, ?_⟩
    · rw [bus]
      exact away.enables
    · rw [bus]
      exact away.left
    · rw [bus, a]
      exact show (0 &&& 0x1F : UInt8) &&& 0x11 = 0 by decide
  have before : ((12 : Nat) : Int) < room := by omega
  exact ⟨parked, calm.tick (by decide) (by decide) before went.ticked⟩

theorem Calm.pending_tick (h : Calm room b) (short : cycles ≤ longestBatch) (some : cycles ≠ 0) (far : cycles < room)
    (off : b.timer.enabled = false) : (b.tick cycles).2.pending = 0 := by
  obtain ⟨after, ticked, _⟩ := h.sound.tick_of_off off short
  rw [ticked]
  exact (h.tick short some far ticked).pending

theorem Parked.passes {served : Bool} (h : Parked rest x served pc m) (calm : Calm room m.bus) (far : 1000 < room)
    (found : Opcode.decode m.nextOpcode = .instruction op) (takes : (m.watch.perform m.nextOpcode op).1 = 4)
    (bus : ∃ journal, (performed op m).bus = { m.bus with journal }) :
    Went op 4 m ∧ Off x m.step.2.bus.timer ∧ Calm (room - 4) m.step.2.bus := by
  obtain ⟨journal, same⟩ := bus
  have off : Off x (performed op m).bus.timer := by
    rw [same]
    exact h.off
  have still : Calm room (performed op m).bus := by
    rw [same]
    exact ⟨⟨⟨calm.sound.lcd, calm.sound.timer, calm.sound.requests⟩, calm.enables, calm.on, calm.left⟩, calm.none⟩
  have before : ((4 : Nat) : Int) < room := by omega
  have passes : Passes op 4 m := by
    refine ⟨fun full => absurd (off.enabled.symm.trans full.1) (by decide), fun _ => ?_⟩
    exact still.pending_tick (by decide) (by decide) before off.enabled
  have went := h.place.went (by decide) found takes still.sound passes
  have counted := off.tick (show 4 ≤ longestBatch by decide)
  rw [went.ticked] at counted
  exact ⟨went, counted, still.tick (by decide) (by decide) before went.ticked⟩

theorem Parked.idle {serves served : Bool} (h : Parked rest x served pc m) (calm : Calm room m.bus) (far : 1000 < room)
    (leads : Leads (program rest) op 4 target m) (bus : ∃ journal, (performed op m).bus = { m.bus with journal })
    (sp : (performed op m).cpu.registers.sp = m.cpu.registers.sp) (serving : (performed op m).cpu.ime = serves) :
    Parked rest x serves target m.step.2 ∧ Calm (room - 4) m.step.2.bus := by
  obtain ⟨went, off, calm⟩ := h.passes calm far leads.found leads.takes bus
  refine ⟨⟨went.arrives (by decide) leads.arrived, ?_, ?_, off⟩, calm⟩
  · rw [went.cpu]
    exact serving
  · rw [went.cpu, sp]
    exact h.sp

theorem Parked.serve (h : Parked rest x false 0x0122 m) (calm : Calm room m.bus) (far : 1000 < room) :
    Parked rest x true 0x0123 m.step.2 ∧ Calm (room - 4) m.step.2.bus := by
  have has : Has (program rest) (0x0122 : UInt16).toNat [0xFB] := by simp [Has, byteAt, program, Header.reach]
  exact h.idle calm far (h.place.serve has) ⟨_, rfl⟩ rfl rfl

def Met (m : Machine Board) : Prop := ∃ c : Console, c.Reachable ∧ c.machine = m

theorem Met.step (h : Met m) : Met m.step.2 := by
  obtain ⟨c, reachable, rfl⟩ := h
  exact ⟨_, reachable.step, rfl⟩

/-- From the loop of the lagging program on nothing goes wrong until interrupts are served. -/
theorem Falls.course (h : Falls rest x 0x010A m) (met : Met m) (low : 24 - 2 ^ 31 ≤ x) (high : x ≤ 4) :
    ∃ (next : Machine Board) (room : Int), Met next ∧ Parked rest (x - 8) true 0x0123 next ∧ Calm room next.bus ∧
      2000 < room := by
  have has (pc : UInt16) (listed : pc ∈ [(0x010D : UInt16), 0x0110, 0x0113]) :
      Has (program rest) pc.toNat [0x08, 0x00, 0xC0] := by
    simp only [List.mem_cons, List.not_mem_nil, or_false] at listed
    rcases listed with rfl | rfl | rfl <;> simp [Has, byteAt, program, Header.reach]
  obtain ⟨h₁, sp₁⟩ := h.loadSP (by omega) (by omega)
  obtain ⟨h₂, sp₂⟩ := h₁.storeSP (has _ (by decide)) (by omega) (by omega)
  obtain ⟨h₃, sp₃⟩ := h₂.storeSP (has _ (by decide)) (by omega) (by omega)
  obtain ⟨h₄, sp₄⟩ := h₃.storeSP (has _ (by decide)) (by omega) (by omega)
  have parked := h₄.park (sp₄.trans (sp₃.trans (sp₂.trans sp₁)))
  rw [show x + 4 - 4 - 4 - 4 = x - 8 by omega] at parked
  obtain ⟨p₁, a₁⟩ := parked.loadA
  obtain ⟨p₂, enables⟩ := p₁.enable a₁
  obtain ⟨p₃, room, far, away⟩ := p₂.restart enables
  obtain ⟨p₄, nearer, a₄⟩ := p₃.clearA away (by omega)
  obtain ⟨p₅, calm⟩ := p₄.forget nearer (by omega) a₄
  obtain ⟨p₆, still⟩ := p₅.serve calm (by omega)
  exact ⟨_, _, met.step.step.step.step.step.step.step.step.step.step.step, p₆, still, by omega⟩

theorem lags_of_outcome {code : List UInt8} (h : Program.Outcome code op target cycles m)
    (timer : (performed op m).bus.timer = m.bus.timer) (lags : m.bus.timer.Lags)
    (left : m.bus.timer.counterCountdown = x) (spent : x ≤ cycles) (keepsUp : 24 - 2 ^ 31 ≤ x) :
    Runs code target m.step.2 ∧ m.step.2.bus.timer.Lags ∧
      m.step.2.bus.timer.counterCountdown = x - cycles + 16 := by
  cases h with
  | refused _ behind =>
    have late := behind.2
    rw [timer, left, longestBatch] at late
    omega
  | passed done runs _ counted =>
    rw [timer] at counted
    rw [done]
    refine ⟨runs, ?_, ?_⟩
    · rw [counted]
      exact lags.advance.1
    · rw [counted, lags.advance_of_spent (left ▸ spent), left]

theorem turn (runs : Lagging.Runs 0x010A m) (lags : m.bus.timer.Lags) (left : m.bus.timer.counterCountdown = x)
    (high : x ≤ 4) (low : 28 - 2 ^ 31 ≤ x) :
    Lagging.Runs 0x010A m.step.2.step.2 ∧ m.step.2.step.2.bus.timer.Lags ∧
      m.step.2.step.2.bus.timer.counterCountdown = x - 4 := by
  obtain ⟨first, same, _⟩ := runs.storeSP
  obtain ⟨runs, lags, left⟩ := lags_of_outcome first same lags left (by omega) (by omega)
  obtain ⟨second, _⟩ := Lagging.Runs.jump runs
  obtain ⟨runs, lags, left⟩ := lags_of_outcome second rfl lags left (by omega) (by omega)
  exact ⟨runs, lags, by omega⟩

theorem exists_turned (turns : Nat) (few : turns ≤ 2 ^ 29 - 5) : ∃ c : Console, c.Reachable ∧
    Lagging.Runs 0x010A c.machine ∧ c.board.timer.Lags ∧ c.board.timer.counterCountdown = 4 - 4 * turns := by
  induction turns with
  | zero =>
    obtain ⟨runs, lags, four⟩ := Lagging.runs_entered Lagging.parse_image rfl
    exact ⟨_, Lagging.reachable_entered Lagging.image, runs, lags, four⟩
  | succ n ih =>
    obtain ⟨c, reachable, runs, lags, left⟩ := ih (by omega)
    obtain ⟨runs, lags, left⟩ := turn runs lags left (by omega) (by omega)
    refine ⟨_, reachable.step.step, runs, lags, left.trans ?_⟩
    omega

theorem machine_load (bytes : ByteArray) (c : Console) :
    (c.after (.load bytes none)).machine = ⟨c.machine.cpu, (c.board.load bytes none).2⟩ := rfl

/-- A program can be changed for another one while it runs. -/
theorem falls_of_load {c : Console} (runs : Lagging.Runs 0x010A c.machine) (lags : c.board.timer.Lags)
    (left : c.board.timer.counterCountdown = x) (short : (program rest).length ≤ 0x43) :
    Falls rest x 0x010A (c.after (.load (image (program rest)) none)).machine := by
  have sound : (c.board.load (image (program rest)) none).2.Sound := Console.sound_load runs.sound _ none
  obtain ⟨journal, same⟩ := @Board.load_of_parse _ none _ (Program.parse_image short) c.board
  rw [machine_load, same]
  rw [same] at sound
  exact ⟨⟨sound, rfl, runs.on, runs.at_pc, runs.running, runs.awake⟩, runs.free, lags, left⟩

/-- The program serves interrupts with a counter that has fallen behind as far as one likes, up to what it can count. -/
theorem exists_parked (rest : List UInt8) (turns : Nat) (few : turns ≤ 2 ^ 29 - 5)
    (short : (program rest).length ≤ 0x43) :
    ∃ (m : Machine Board) (room : Int), Met m ∧ Parked rest (-4 - 4 * turns) true 0x0123 m ∧ Calm room m.bus ∧
      2000 < room := by
  obtain ⟨c, reachable, runs, lags, left⟩ := exists_turned turns few
  have falls := falls_of_load runs lags left short
  have met : Met (c.after (.load (image (program rest)) none)).machine := ⟨_, reachable.after _, rfl⟩
  obtain ⟨m, room, met, parked, calm, far⟩ := falls.course met (by omega) (by omega)
  rw [show (4 - 4 * (turns : Int) - 8) = -4 - 4 * turns by omega] at parked
  exact ⟨m, room, met, parked, calm, far⟩

/-- A console at rest whose stack reaches the register that switches the counter on, with an address that does. -/
structure Poised (x : Int) (c : Console) : Prop where
  serving : c.machine.cpu.ime = true
  at_pc : c.machine.cpu.registers.pc = 0x0125
  sp : c.machine.cpu.registers.sp = 0xFF09
  off : Off x c.board.timer
  calm : ∃ room, 1000 < room ∧ Calm room c.board

theorem exists_halted (turns : Nat) (few : turns ≤ 2 ^ 29 - 5) : ∃ c : Console, c.Reachable ∧
    Poised (-4 - 4 * turns) c ∧ c.machine.cpu.stopped = false ∧ c.machine.cpu.halted = true := by
  obtain ⟨_, room, ⟨c, reachable, rfl⟩, parked, calm, far⟩ :=
    exists_parked [0x00, 0x76] turns few (by decide)
  have first : Has (program [0x00, 0x76]) (0x0123 : UInt16).toNat [0x00] := by
    simp [Has, byteAt, program, Header.reach]
  obtain ⟨parked, calm⟩ := parked.idle calm (by omega) (parked.place.nop first) ⟨_, rfl⟩ rfl parked.serving
  have second : Has (program [0x00, 0x76]) (0x0124 : UInt16).toNat [0x76] := by
    simp [Has, byteAt, program, Header.reach]
  have found : Opcode.decode _ = .instruction .halt := parked.place.decode second rfl
  obtain ⟨went, off, calm⟩ := parked.passes calm (by omega) found rfl ⟨_, rfl⟩
  refine ⟨_, reachable.step.step, ⟨?_, ?_, ?_, off, _, ?_, calm⟩, ?_, ?_⟩
  · exact (congrArg Cpu.ime went.cpu).trans parked.serving
  · exact (congrArg (fun cpu => cpu.registers.pc) went.cpu).trans (congrArg (· + 1) parked.place.at_pc)
  · exact (congrArg (fun cpu => cpu.registers.sp) went.cpu).trans parked.sp
  · omega
  · exact (congrArg Cpu.stopped went.cpu).trans parked.place.running
  · exact congrArg Cpu.halted went.cpu

theorem exists_stopped (turns : Nat) (few : turns ≤ 2 ^ 29 - 5) : ∃ before c : Console, before.Reachable ∧
    before.step = (.ok 4, c) ∧ Poised (-4 - 4 * turns) c ∧ c.machine.cpu.stopped = true := by
  obtain ⟨_, room, ⟨before, reachable, rfl⟩, parked, calm, far⟩ :=
    exists_parked [0x10, 0x00] turns few (by decide)
  have last : Has (program [0x10, 0x00]) (0x0123 : UInt16).toNat [0x10] := by
    simp [Has, byteAt, program, Header.reach]
  have found : Opcode.decode _ = .instruction .stop := parked.place.decode last rfl
  obtain ⟨went, off, calm⟩ := parked.passes calm (by omega) found rfl ⟨_, rfl⟩
  refine ⟨before, _, reachable, Console.step_of_machine went.done, ⟨?_, ?_, ?_, off, _, ?_, calm⟩, ?_⟩
  · exact (congrArg Cpu.ime went.cpu).trans parked.serving
  · exact (congrArg (fun cpu => cpu.registers.pc) went.cpu).trans (congrArg (· + 2) parked.place.at_pc)
  · exact (congrArg (fun cpu => cpu.registers.sp) went.cpu).trans parked.sp
  · omega
  · exact congrArg Cpu.stopped went.cpu

/-- Entering a routine switches the counter on, which can then be too far behind for the entry. -/
theorem overdrawn_handed (cpu : Cpu) (at_pc : cpu.registers.pc = 0x0125) (sp : cpu.registers.sp = 0xFF09)
    (off : Off x b.timer) (source : Interrupt) :
    (Machine.handed source ⟨cpu, b⟩).timer.Overdrawn 20 ↔ x < 20 - 2 ^ 31 := by
  have started : (Machine.handed source ⟨cpu, b⟩).timer = b.timer.writeControl 0x25 := by
    have pushed : (Machine.handed source ⟨cpu, b⟩).timer =
        (Bus.writeWord (cpu.registers.sp - 2) cpu.registers.pc (b.withdraw source)).timer := rfl
    rw [pushed, at_pc, sp]
    rfl
  have same : Timer.period 5 = Timer.period 1 := rfl
  have left : (b.timer.writeControl 0x25).counterCountdown = x := by
    simp only [Timer.writeControl, off.control]
    exact (if_pos same).trans off.left
  rw [started, Timer.Overdrawn, left]
  have on : (b.timer.writeControl 0x25).enabled = true := show Byte.has (0x25 &&& 0x07) 0x04 = true by decide
  exact and_iff_right on

end Brink
end DotMatrix
