import DotMatrix.Proofs.Byte
import DotMatrix.Proofs.Console.Ports

/-!
The power of the sound. Whether it is on, what the registers of the channels hold and what the wave memory holds
is told by the writes since the console started over. Switching the power off clears the first and leaves the second.
-/

namespace DotMatrix

def Write.switchesOff (write : Write) : Bool := write.address == 0xFF26 && !Byte.has write.byte 0x80

def Write.switchesOn (write : Write) : Bool := write.address == 0xFF26 && Byte.has write.byte 0x80

theorem Write.switchesOff_elsewhere {write : Write} (apart : write.address ≠ 0xFF26) : write.switchesOff = false := by
  rw [switchesOff, beq_eq_false_iff_ne.mpr apart, Bool.false_and]

namespace History

def powered (history : History) : Bool :=
  history.last (fun write _ => write.address == 0xFF26) (Byte.has · 0x80) true

/-- What is left of the status. The bits below the switch are those of the boot program until the power first goes
off. -/
def soundStatus (history : History) : UInt8 :=
  if history.powered then if history.any Write.switchesOff then 0x80 else 0xF1 else 0

/-- What is left in a register of the channels: the last byte written to it while the power was on, if the power has not
been switched off since. -/
def channelByte (index : Fin 0x16) : History → UInt8
  | [] => Audio.postBootChannels.get index
  | write :: earlier =>
    if write.switchesOff then 0
    else if write.address == (AudioRegister.channel index).address && powered earlier then write.byte
    else channelByte index earlier

def waveByte (index : Fin 0x10) (history : History) : UInt8 :=
  history.last (fun write _ => write.address == (AudioRegister.wave index).address) id 0

variable {history recent earlier : History} {write : Write}

theorem powered_cons (write : Write) (history : History) :
    powered (write :: history) = if write.address = 0xFF26 then Byte.has write.byte 0x80 else history.powered := by
  simp only [powered, last, beq_iff_eq]

theorem powered_cons_of_quiet (quiet : write.switchesOff = false) (on : history.powered = true) :
    powered (write :: history) = true := by
  rw [powered_cons]
  split
  next switch => simpa [Write.switchesOff, switch] using quiet
  next => exact on

theorem unpowered_cons (off : powered (write :: history) = false) :
    write.switchesOff = true ∨ history.powered = false := by
  cases quiet : write.switchesOff with
  | true => exact .inl rfl
  | false =>
    refine .inr (Bool.eq_false_iff.mpr fun on => ?_)
    rw [powered_cons_of_quiet quiet on] at off
    cases off

theorem switchesOff_of_unpowered (off : history.powered = false) : history.any Write.switchesOff = true := by
  induction history with
  | nil => cases off
  | cons write history ih =>
    rw [List.any_cons, Bool.or_eq_true]
    exact (unpowered_cons off).imp_right ih

theorem channelByte_of_unpowered (off : history.powered = false) (index : Fin 0x16) :
    history.channelByte index = 0 := by
  induction history with
  | nil => cases off
  | cons write history ih =>
    rw [channelByte]
    split
    next => rfl
    next quiet =>
      have before : powered history = false := (unpowered_cons off).resolve_left quiet
      rw [before, Bool.and_false]
      exact ih before

theorem has_soundStatus (history : History) : Byte.has history.soundStatus 0x80 = history.powered := by
  rw [soundStatus]
  cases history.powered with
  | false =>
    rw [if_neg Bool.false_ne_true]
    decide
  | true =>
    rw [if_pos rfl]
    split <;> decide

theorem channelByte_append (quiet : ∀ write ∈ recent, write.switchesOff = false) {index : Fin 0x16}
    (unwritten : ∀ write ∈ recent, write.address ≠ (AudioRegister.channel index).address) :
    channelByte index (recent ++ earlier) = earlier.channelByte index := by
  induction recent with
  | nil => rfl
  | cons write recent ih =>
    rw [List.forall_mem_cons] at quiet unwritten
    rw [List.cons_append, channelByte, quiet.1, beq_eq_false_iff_ne.mpr unwritten.1, Bool.false_and]
    exact ih quiet.2 unwritten.2

theorem powered_append (quiet : ∀ write ∈ recent, write.switchesOff = false) (on : earlier.powered = true) :
    powered (recent ++ earlier) = true := by
  induction recent with
  | nil => exact on
  | cons write recent ih =>
    rw [List.forall_mem_cons] at quiet
    exact powered_cons_of_quiet quiet.1 (ih quiet.2)

theorem soundStatus_cons (apart : write.address ≠ 0xFF26) :
    soundStatus (write :: history) = history.soundStatus := by
  rw [soundStatus, soundStatus, powered_cons, if_neg apart, List.any_cons,
    Write.switchesOff_elsewhere apart, Bool.false_or]

theorem channelByte_cons (apart : write.address ≠ 0xFF26) (index : Fin 0x16) :
    channelByte index (write :: history) =
      if write.address = (AudioRegister.channel index).address ∧ history.powered = true then write.byte
      else history.channelByte index := by
  rw [channelByte, Write.switchesOff_elsewhere apart, if_neg Bool.false_ne_true]
  simp only [Bool.and_eq_true, beq_iff_eq]

theorem waveByte_cons (write : Write) (index : Fin 0x10) :
    waveByte index (write :: history) =
      if write.address = (AudioRegister.wave index).address then write.byte else history.waveByte index := by
  simp only [waveByte, last, beq_iff_eq, id]

end History

namespace Audio

variable {audio : Audio} {history : History}

structure Follows (history : History) (audio : Audio) : Prop where
  status : audio.status = history.soundStatus
  channels : ∀ index, audio.channels.get index = history.channelByte index
  wave : ∀ index, audio.wave.get index = history.waveByte index

theorem follows_postBoot : Follows [] postBoot where
  status := rfl
  channels _ := rfl
  wave _ := Block.get_filled _ _

theorem Follows.powered (h : Follows history audio) : audio.powered = history.powered := by
  rw [Audio.powered, h.status, History.has_soundStatus]

theorem Follows.elsewhere (h : Follows history audio) {write : Write} (switch : write.address ≠ 0xFF26)
    (channel : ∀ index, write.address ≠ (AudioRegister.channel index).address)
    (wave : ∀ index, write.address ≠ (AudioRegister.wave index).address) : Follows (write :: history) audio where
  status := by
    rw [History.soundStatus_cons switch]
    exact h.status
  channels index := by
    rw [History.channelByte_cons switch, if_neg fun here => channel index here.1]
    exact h.channels index
  wave index := by
    rw [History.waveByte_cons, if_neg (wave index)]
    exact h.wave index

theorem Follows.writeChannel (h : Follows history audio) (place : Fin 0x16) (byte : UInt8) :
    Follows (⟨(AudioRegister.channel place).address, byte⟩ :: history) (audio.write (.channel place) byte) := by
  have switch : (AudioRegister.channel place).address ≠ AudioRegister.status.address :=
    AudioRegister.address_ne nofun
  refine ⟨?_, ?_, ?_⟩
  · rw [History.soundStatus_cons switch, write]
    split <;> exact h.status
  · intro index
    rw [History.channelByte_cons switch, write, h.powered]
    simp only [AudioRegister.address_inj, AudioRegister.channel.injEq]
    cases history.powered with
    | false => simpa using h.channels index
    | true => simp only [if_true, and_true, Block.get_set, h.channels]
  · intro index
    have apart : (AudioRegister.channel place).address ≠ (AudioRegister.wave index).address :=
      AudioRegister.address_ne nofun
    rw [History.waveByte_cons, if_neg apart, write]
    split <;> exact h.wave index

theorem Follows.writeWave (h : Follows history audio) (place : Fin 0x10) (byte : UInt8) :
    Follows (⟨(AudioRegister.wave place).address, byte⟩ :: history) (audio.write (.wave place) byte) := by
  have switch : (AudioRegister.wave place).address ≠ AudioRegister.status.address :=
    AudioRegister.address_ne nofun
  refine ⟨?_, ?_, ?_⟩
  · rw [History.soundStatus_cons switch]
    exact h.status
  · intro index
    have apart : (AudioRegister.wave place).address ≠ (AudioRegister.channel index).address :=
      AudioRegister.address_ne nofun
    rw [History.channelByte_cons switch, if_neg fun here => apart here.1]
    exact h.channels index
  · intro index
    rw [History.waveByte_cons, write, Block.get_set, h.wave]
    simp only [AudioRegister.address_inj, AudioRegister.wave.injEq]

theorem Follows.writeUnused (h : Follows history audio) (place : Fin 0x09) (byte : UInt8) :
    Follows (⟨(AudioRegister.unused place).address, byte⟩ :: history) (audio.write (.unused place) byte) := by
  have apart (register : AudioRegister) (other : AudioRegister.unused place ≠ register) :
      (AudioRegister.unused place).address ≠ register.address := AudioRegister.address_ne other
  have kept : Follows (⟨(AudioRegister.unused place).address, byte⟩ :: history) audio :=
    h.elsewhere (apart .status nofun) (fun index => apart (.channel index) nofun)
      (fun index => apart (.wave index) nofun)
  rw [write]
  split
  next => exact ⟨kept.status, kept.channels, kept.wave⟩
  next => exact kept

theorem Follows.wave_status (h : Follows history audio) (byte : UInt8) (index : Fin 0x10) :
    audio.wave.get index = History.waveByte index (⟨AudioRegister.status.address, byte⟩ :: history) := by
  have apart : AudioRegister.status.address ≠ (AudioRegister.wave index).address := AudioRegister.address_ne nofun
  rw [History.waveByte_cons, if_neg apart]
  exact h.wave index

theorem Follows.switchOn (h : Follows history audio) {byte : UInt8} (on : Byte.has byte 0x80 = true) :
    Follows (⟨AudioRegister.status.address, byte⟩ :: history) { audio with status := audio.status ||| 0x80 } := by
  have switch : History.powered (⟨AudioRegister.status.address, byte⟩ :: history) = true := by
    rw [History.powered_cons]
    exact (if_pos rfl).trans on
  have quiet : Write.switchesOff ⟨AudioRegister.status.address, byte⟩ = false := congrArg (!·) on
  refine ⟨?_, ?_, h.wave_status byte⟩
  · change audio.status ||| 0x80 = _
    rw [h.status, History.soundStatus, History.soundStatus, switch, List.any_cons, quiet]
    cases before : history.powered with
    | false =>
      rw [History.switchesOff_of_unpowered before]
      rfl
    | true => cases history.any Write.switchesOff <;> rfl
  · intro index
    have apart : AudioRegister.status.address ≠ (AudioRegister.channel index).address := AudioRegister.address_ne nofun
    rw [History.channelByte, quiet, beq_eq_false_iff_ne.mpr apart, Bool.false_and]
    exact h.channels index

/-- The channels and the lower bits of the status go with the power. -/
theorem Follows.switchOff (h : Follows history audio) {byte : UInt8} (off : Byte.has byte 0x80 = false) :
    Follows (⟨AudioRegister.status.address, byte⟩ :: history)
      (if audio.powered then { audio with status := 0, channels := Block.filled _ 0 } else audio) := by
  have switch : History.powered (⟨AudioRegister.status.address, byte⟩ :: history) = false := by
    rw [History.powered_cons]
    exact (if_pos rfl).trans off
  have channels (index : Fin 0x16) : History.channelByte index (⟨AudioRegister.status.address, byte⟩ :: history) = 0 :=
    History.channelByte_of_unpowered switch index
  have status : History.soundStatus (⟨AudioRegister.status.address, byte⟩ :: history) = 0 := by
    rw [History.soundStatus, switch, if_neg Bool.false_ne_true]
  split
  next => exact ⟨status.symm, fun index => (Block.get_filled _ _).trans (channels index).symm, h.wave_status byte⟩
  next before =>
    have unpowered : history.powered = false := by
      rw [← h.powered]
      exact Bool.eq_false_iff.mpr before
    refine ⟨?_, ?_, h.wave_status byte⟩
    · rw [status, h.status, History.soundStatus, unpowered, if_neg Bool.false_ne_true]
    · intro index
      rw [channels, h.channels, History.channelByte_of_unpowered unpowered]

theorem Follows.writeStatus (h : Follows history audio) (byte : UInt8) :
    Follows (⟨AudioRegister.status.address, byte⟩ :: history) (audio.writeStatus byte) := by
  rw [Audio.writeStatus]
  split
  next on => exact h.switchOn on
  next on => exact h.switchOff (Bool.eq_false_iff.mpr on)

theorem Follows.write (h : Follows history audio) (register : AudioRegister) (byte : UInt8) :
    Follows (⟨register.address, byte⟩ :: history) (audio.write register byte) := by
  cases register with
  | channel place => exact h.writeChannel place byte
  | status => exact h.writeStatus byte
  | unused place => exact h.writeUnused place byte
  | wave place => exact h.writeWave place byte

theorem lower_writeStatus (byte : UInt8) (audio : Audio) :
    (audio.writeStatus byte).status &&& 0x7F =
      if Byte.has byte 0x80 = false ∧ audio.powered = true then 0 else audio.status &&& 0x7F := by
  rw [writeStatus]
  split
  next on =>
    rw [on, if_neg fun here => Bool.false_ne_true here.1.symm]
    change (audio.status ||| 0x80) &&& 0x7F = _
    rw [Byte.or_and]
    exact UInt8.or_zero
  next on =>
    rw [Bool.eq_false_iff.mpr on]
    split
    next before =>
      rw [if_pos (And.intro rfl before)]
      exact UInt8.zero_and
    next before => rw [if_neg fun here => before here.2]

theorem status_write {register : AudioRegister} (apart : register ≠ .status) (byte : UInt8) (audio : Audio) :
    (audio.write register byte).status = audio.status := by
  cases register with
  | status => exact absurd rfl apart
  | wave index => rfl
  | channel index | unused index =>
    rw [write]
    split <;> rfl

end Audio

namespace Board

variable {b : Board} {history : History}

theorem follows_write (h : Audio.Follows history b.audio) (address : UInt16) (byte : UInt8) :
    Audio.Follows (⟨address, byte⟩ :: history) (b.write address byte).audio := by
  by_cases reached : ∃ register : AudioRegister, address = register.address
  · obtain ⟨register, rfl⟩ := reached
    rw [audio_write]
    exact h.write register byte
  · have apart (register : AudioRegister) : address ≠ register.address := fun same => reached ⟨register, same⟩
    rw [audio_write_elsewhere apart]
    exact h.elsewhere (apart .status) (fun index => apart (.channel index)) (fun index => apart (.wave index))

theorem read_audio (register : AudioRegister) (b : Board) : b.read register.address = b.audio.read register :=
  congrArg b.readRegion (Region.ofAddress_eq_audio.mpr rfl)

def Silent (b : Board) : Prop := b.read 0xFF26 = 0 ∧ ∀ index, b.read (AudioRegister.channel index).address = 0

theorem read_status (b : Board) : b.read 0xFF26 = b.audio.status := b.read_audio .status

theorem silent_of_unpowered (h : Audio.Follows history b.audio) (off : history.powered = false) : b.Silent := by
  refine ⟨?_, ?_⟩
  · rw [read_status, h.status, History.soundStatus, off, if_neg Bool.false_ne_true]
  · intro index
    rw [read_audio]
    exact (h.channels index).trans (History.channelByte_of_unpowered off index)

theorem status_write_elsewhere {address : UInt16} (apart : address ≠ 0xFF26) (byte : UInt8) (b : Board) :
    (b.write address byte).audio.status = b.audio.status := by
  by_cases reached : ∃ register : AudioRegister, address = register.address
  · obtain ⟨register, rfl⟩ := reached
    rw [audio_write]
    exact Audio.status_write (fun same => apart (congrArg AudioRegister.address same)) byte b.audio
  · rw [audio_write_elsewhere fun register same => reached ⟨register, same⟩]

theorem lower_write (write : Write) (b : Board) :
    (b.write write.address write.byte).read 0xFF26 &&& 0x7F =
      if write.switchesOff = true ∧ Byte.has (b.read 0xFF26) 0x80 = true then 0 else b.read 0xFF26 &&& 0x7F := by
  obtain ⟨address, byte⟩ := write
  rw [read_status, read_status]
  by_cases switch : address = 0xFF26
  · subst switch
    have reached : (b.write 0xFF26 byte).audio = b.audio.writeStatus byte := b.audio_write .status byte
    have off : Write.switchesOff ⟨0xFF26, byte⟩ = !Byte.has byte 0x80 := rfl
    rw [reached, Audio.lower_writeStatus, off, Audio.powered]
    simp only [Bool.not_eq_true']
  · rw [status_write_elsewhere switch, Write.switchesOff_elsewhere switch, if_neg fun here => Bool.false_ne_true here.1]

theorem shows_since_on {recent earlier : History} {on : Write}
    (h : Audio.Follows (recent ++ on :: earlier) b.audio) (before : earlier.powered = false)
    (switches : on.switchesOn = true) (quiet : ∀ write ∈ recent, write.switchesOff = false) :
    b.read 0xFF26 = 0x80 ∧
    ∀ index, (∀ write ∈ recent, write.address ≠ (AudioRegister.channel index).address) →
      b.read (AudioRegister.channel index).address = 0 := by
  obtain ⟨here, set⟩ : on.address = 0xFF26 ∧ Byte.has on.byte 0x80 = true := by
    simpa [Write.switchesOn] using switches
  have powered : History.powered (on :: earlier) = true := by rw [History.powered_cons, if_pos here, set]
  have once : (recent ++ on :: earlier).any Write.switchesOff = true := by
    rw [List.any_append, List.any_cons, History.switchesOff_of_unpowered before, Bool.or_true, Bool.or_true]
  refine ⟨?_, ?_⟩
  · rw [read_status, h.status, History.soundStatus, History.powered_append quiet powered, once, if_pos rfl, if_pos rfl]
  · intro index unwritten
    have clear : History.channelByte index (on :: earlier) = 0 := by
      rw [History.channelByte, Write.switchesOff, set, Bool.not_true, Bool.and_false, before, Bool.and_false]
      exact History.channelByte_of_unpowered before index
    rw [read_audio]
    exact (h.channels index).trans ((History.channelByte_append quiet unwritten).trans clear)

end Board

namespace Console

/-- However a console is used and whatever runs in it, the last write to FF26 tells whether the sound is on. While it is
off, FF26 and the registers of the channels read as zero, and no write but one that switches it on can change that. When
it has been switched on again, and until it is switched off, FF26 reads as 80, and a register of the channels reads
as zero until it is written. The wave memory shows the last byte written to it, or zero, whether the sound is on or off.
No write changes the lower bits of FF26, but that they are cleared when the sound goes off. -/
theorem sound_power (journal : Journal) (operations : List Operation) :
    let b := ((postBoot journal).operateAll operations).board
    let history := (postBoot journal).writesSinceReset operations
    Byte.has (b.read 0xFF26) 0x80 = history.powered ∧
    (Byte.has (b.read 0xFF26) 0x80 = false →
      b.Silent ∧ ∀ write : Write, write.switchesOn = false → (b.write write.address write.byte).Silent) ∧
    (∀ (recent earlier : History) (on : Write), history = recent ++ on :: earlier →
      earlier.powered = false → on.switchesOn = true → (∀ write ∈ recent, write.switchesOff = false) →
      b.read 0xFF26 = 0x80 ∧
      ∀ index, (∀ write ∈ recent, write.address ≠ (AudioRegister.channel index).address) →
        b.read (AudioRegister.channel index).address = 0) ∧
    (∀ index, b.read (AudioRegister.wave index).address = history.waveByte index) ∧
    ∀ (write : Write) (b : Board), (b.write write.address write.byte).read 0xFF26 &&& 0x7F =
      if write.switchesOff = true ∧ Byte.has (b.read 0xFF26) 0x80 = true then 0 else b.read 0xFF26 &&& 0x7F := by
  intro b history
  have follows : Audio.Follows history b.audio :=
    Board.onlyWritten_audio.operateAll Board.follows_write (fun _ => Audio.follows_postBoot) operations
      Audio.follows_postBoot
  have powered : Byte.has (b.read 0xFF26) 0x80 = history.powered := by
    rw [Board.read_status]
    exact follows.powered
  refine ⟨powered, ?_, ?_, ?_, fun write b => b.lower_write write⟩
  · intro off
    rw [powered] at off
    refine ⟨Board.silent_of_unpowered follows off, ?_⟩
    intro write leaves
    apply Board.silent_of_unpowered (Board.follows_write follows write.address write.byte)
    rw [History.powered_cons]
    split
    next switch =>
      rw [Write.switchesOn, switch] at leaves
      exact leaves
    next => exact off
  · intro recent earlier on same before switches quiet
    rw [same] at follows
    exact Board.shows_since_on follows before switches quiet
  · intro index
    rw [Board.read_audio]
    exact follows.wave index

/-- FF24 is written while the sound is off, and FF25 when it is on again; before that, FF30 and FF31. -/
theorem sound_power_switched :
    let operations : List Operation := [.write 0xFF30 0x12, .write 0xFF26 0x00, .write 0xFF24 0x77, .write 0xFF31 0x34,
      .call (.load .empty none), .tick 80, .write 0xFF26 0x80, .write 0xFF25 0x11]
    let b := ((postBoot {}).operateAll operations).board
    ((postBoot {}).operateAll (operations.take 3)).board.Silent ∧
    b.read 0xFF26 = 0x80 ∧ b.read 0xFF24 = 0 ∧ b.read 0xFF30 = 0x12 ∧ b.read 0xFF31 = 0x34 := by
  intro operations b
  obtain ⟨switch, silent, _⟩ := sound_power {} (operations.take 3)
  obtain ⟨_, _, again, wave, _⟩ := sound_power {} operations
  have history : (postBoot {}).writesSinceReset operations =
      [⟨0xFF25, 0x11⟩] ++ ⟨0xFF26, 0x80⟩ :: [⟨0xFF31, 0x34⟩, ⟨0xFF24, 0x77⟩, ⟨0xFF26, 0x00⟩, ⟨0xFF30, 0x12⟩] := rfl
  obtain ⟨status, channels⟩ := again _ _ _ history rfl rfl (by decide)
  refine ⟨(silent (switch.trans rfl)).1, status, channels 0x14 (by decide), ?_, ?_⟩
  · rw [history] at wave
    exact wave 0
  · rw [history] at wave
    exact wave 1

end Console
end DotMatrix
