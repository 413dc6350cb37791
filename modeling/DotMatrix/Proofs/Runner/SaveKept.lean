import DotMatrix.Proofs.Console.Loading
import DotMatrix.Proofs.Console.Saving
import DotMatrix.Proofs.Runner.Storage
import DotMatrix.Runner.Session

/-!
What a run leaves in the file of the saved RAM. When the frames have been played and the dump, if one is asked for, has
been written, the file holds the RAM. A dump that cannot be written ends the run before the RAM is saved.
-/

namespace DotMatrix

namespace Console

variable {c final : Console} {n cycles total : Nat}

theorem playFrames_eq (played : playFrames n cycles c = (.ok total, final)) :
    final = c.operateAll (List.replicate n (.call .runFrame)) := by
  induction n generalizing c cycles with
  | zero =>
    cases played
    rfl
  | succ n ih =>
    simp only [playFrames] at played
    split at played
    next => cases played
    next more next ran =>
      have after : c.operate (.call .runFrame) = next := congrArg Prod.snd ran
      rw [List.replicate_succ, operateAll, List.foldl_cons, after]
      exact ih played

theorem hasKeeper_continueFrame (elapsed : Nat) (c : Console) :
    (c.continueFrame elapsed).2.hasKeeper = c.hasKeeper := by
  fun_induction continueFrame elapsed c with
  | case1 elapsed c fault next stepped => exact (congrArg (hasKeeper ·.2) stepped).symm
  | case2 elapsed c cycles next stepped => exact (congrArg (hasKeeper ·.2) stepped).symm
  | case3 elapsed c cycles next stepped _ _ ih => exact ih.trans (congrArg (hasKeeper ·.2) stepped).symm
  | case4 elapsed c cycles next stepped => exact (congrArg (hasKeeper ·.2) stepped).symm

theorem hasKeeper_playFrames (n cycles : Nat) (c : Console) : (playFrames n cycles c).2.hasKeeper = c.hasKeeper := by
  induction n generalizing c cycles with
  | zero => rfl
  | succ n ih =>
    have kept : c.runFrame.2.hasKeeper = c.hasKeeper := hasKeeper_continueFrame 0 c.clearFrame
    simp only [playFrames]
    split
    next fault next ran =>
      rw [ran] at kept
      exact kept
    next more next ran =>
      rw [ran] at kept
      exact (ih _ next).trans kept

end Console

namespace RunOptions

variable {options : RunOptions} {journal : Journal} {rom : ByteArray} {saved : Option ByteArray} {header : Header}
  {c final : Console} {cycles : Nat}

def started (options : RunOptions) (c : Console) : Console := { c.note (.plays options.frames) with hasKeeper := true }

theorem holds_started (options : RunOptions) (inserted : c.load rom saved = (.ok header, final)) :
    (options.started (final.note (.loaded header))).board.Holds header rom saved [] := by
  have law := Board.holds_law header rom saved
  exact law.note (law.note (Console.holds_loaded inserted) (RunEvent.loaded header)) (RunEvent.plays options.frames)

theorem insert_of_parse (options : RunOptions) (parsed : Header.parse rom = .ok header) (saved : Option ByteArray)
    (journal : Journal) :
    ∃ noted loaded, (Console.postBoot noted).load rom saved = (.ok header, loaded) ∧
      options.insert rom saved journal = (.ok header, loaded.note (.loaded header)) := by
  simp only [insert]
  generalize (if saved.isSome then journal.record (RunEvent.restores options.saveTarget) else journal) = noted
  have loads := Console.load_eq_of_parse parsed saved (Console.postBoot noted)
  generalize ((Console.postBoot noted).load rom saved).2 = loaded at loads
  exact ⟨noted, loaded, loads, by simp only [loads]⟩

theorem load_of_insert (inserted : options.insert rom saved journal = (.ok header, c)) :
    ∃ journal loaded, (Console.postBoot journal).load rom saved = (.ok header, loaded) ∧
      c = loaded.note (.loaded header) := by
  simp only [insert] at inserted
  split at inserted
  next => cases inserted
  next found accepted =>
    cases inserted
    exact ⟨_, _, Prod.ext accepted rfl, rfl⟩

theorem ram_of_played (inserted : options.insert rom saved journal = (.ok header, c))
    (played : Console.playFrames options.frames 0 (options.started c) = (.ok cycles, final)) :
    final.hasKeeper = true ∧ ∃ ram, final.board.cartridgeRam = some ram ∧ ram.size = header.ramSize := by
  constructor
  · have kept := Console.hasKeeper_playFrames options.frames 0 (options.started c)
    rw [played] at kept
    exact kept
  · obtain ⟨_, loaded, fresh, rfl⟩ := load_of_insert inserted
    -- no frame changes the cartridge but by writes, so that its law holds to the last one
    have stay : ∀ operation ∈ List.replicate options.frames (Console.Operation.call .runFrame),
        operation.keepsCartridge = true := by
      intro operation listed
      rw [List.eq_of_mem_replicate listed]
      rfl
    have holds := (Board.holds_law header rom saved).operateAll stay (holds_started options fresh)
    rw [← Console.playFrames_eq played] at holds
    exact ⟨_, holds.cartridgeRam, History.size_ramBytes ..⟩

section Files

open Storage

variable {σ : Type} [Storage (StateM σ)] {files : σ} {path : String} {ram : ByteArray}

theorem writeSave_eq {rest : Console} (path : String) (handed : c.save = (some ram, rest)) (files : σ) :
    (writeSave path c : StateM σ Console) files =
      (match (written files path ram).1 with
        | .ok () => rest.note (.wrote ram.size path)
        | .error cause => rest.note (.notWritten path cause), (written files path ram).2) := by
  rw [writeSave, handed]
  simp only [bind, StateT.bind, written]
  generalize (write path ram : StateM σ _) files = x
  obtain ⟨result, after⟩ := x
  cases result <;> rfl

def dumped (options : RunOptions) (final : Console) (files : σ) : Except FileError Unit × σ :=
  match options.dumpPath with
  | none => (.ok (), files)
  | some path => written files path final.pictureBytes

/-- The saved RAM that a run starts with: what its file holds, or nothing if there is no file. -/
def Restores (options : RunOptions) (files : σ) : Option ByteArray → Prop
  | some bytes => contents files options.saveTarget = .ok bytes
  | none => contents files options.saveTarget = .error .notFound

theorem writeDump_of_refused {cause : FileError} (failed : (options.dumped final files).1 = .error cause) :
    ∃ path, options.dumpPath = some path ∧ (writeDump options.dumpPath final : StateM σ _) files =
      ((.error (.unwritableDump path cause), final), (options.dumped final files).2) := by
  unfold dumped at failed ⊢
  cases asked : options.dumpPath with
  | none =>
    rw [asked] at failed
    cases failed
  | some path =>
    rw [asked] at failed
    refine ⟨path, rfl, ?_⟩
    simp only [writeDump, bind, StateT.bind]
    simp only [written] at failed ⊢
    generalize (write path final.pictureBytes : StateM σ _) files = x at failed ⊢
    obtain ⟨result, after⟩ := x
    cases failed
    rfl

theorem writeDump_of_dumped (done : (options.dumped final files).1 = .ok ()) :
    ∃ noted,
      (writeDump options.dumpPath final : StateM σ _) files = ((.ok (), noted), (options.dumped final files).2) ∧
      noted.hasKeeper = final.hasKeeper ∧ noted.board.cartridgeRam = final.board.cartridgeRam := by
  unfold dumped at done ⊢
  cases asked : options.dumpPath with
  | none => exact ⟨final, rfl, rfl, rfl⟩
  | some path =>
    rw [asked] at done
    refine ⟨final.note (.dumped path), ?_, rfl, rfl⟩
    simp only [writeDump, bind, StateT.bind]
    simp only [written] at done ⊢
    generalize (write path final.pictureBytes : StateM σ _) files = x at done ⊢
    obtain ⟨result, after⟩ := x
    cases done
    rfl

/-- A run whose dump cannot be written ends there. -/
theorem finish_of_refused {cause : FileError} (failed : (options.dumped final files).1 = .error cause) (cycles : Nat) :
    ∃ path, options.dumpPath = some path ∧
      (options.finish cycles final : StateM σ (Outcome × Journal)) files =
        ((.failed (.unwritableDump path cause), final.board.journal), (options.dumped final files).2) := by
  obtain ⟨path, asked, refused⟩ := writeDump_of_refused failed
  refine ⟨path, asked, ?_⟩
  simp only [finish, bind, StateT.bind, refused]
  rfl

theorem ram_noteSerial (c : Console) :
    c.noteSerial.hasKeeper = c.hasKeeper ∧ c.noteSerial.board.cartridgeRam = c.board.cartridgeRam := by
  unfold Console.noteSerial
  split <;> exact ⟨rfl, rfl⟩

/-- Otherwise it goes on and saves the RAM. -/
theorem finish_of_dumped (keeper : final.hasKeeper = true) (holds : final.board.cartridgeRam = some ram)
    (filled : ram.size ≠ 0) (done : (options.dumped final files).1 = .ok ()) :
    ∃ journal, (options.finish cycles final : StateM σ (Outcome × Journal)) files =
      ((.done, journal), (written (options.dumped final files).2 options.saveTarget ram).2) := by
  obtain ⟨noted, dumps, keeper', holds'⟩ := writeDump_of_dumped done
  obtain ⟨keeper'', holds''⟩ := ram_noteSerial noted
  have handed := (Console.save_eq (holds''.trans (holds'.trans holds))).1
  rw [if_pos ⟨keeper''.trans (keeper'.trans keeper), filled⟩] at handed
  have saves := writeSave_eq options.saveTarget (Prod.ext handed rfl) (options.dumped final files).2
  simp only [finish, bind, StateT.bind, dumps]
  rw [saves]
  exact ⟨_, rfl⟩

theorem play_eq_finish (played : Console.playFrames options.frames 0 (options.started c) = (.ok cycles, final))
    (files : σ) :
    (options.play c : StateM σ (Outcome × Journal)) files = (options.finish cycles final : StateM σ _) files := by
  unfold play
  rw [show Console.playFrames options.frames 0 { c.note (.plays options.frames) with hasKeeper := true } = _
    from played]

section Lawful

variable [LawfulStorage σ]

theorem readSave_eq (restores : options.Restores files saved) :
    (readSave options.saveTarget : StateM σ (Except RunError (Option ByteArray))) files = (.ok saved, files) := by
  simp only [readSave, bind, StateT.bind, LawfulStorage.read_eq]
  cases saved with
  | none =>
    have missing : contents files options.saveTarget = .error .notFound := restores
    rw [missing]
    rfl
  | some bytes =>
    have found : contents files options.saveTarget = .ok bytes := restores
    rw [found]
    rfl

theorem run_eq_play (readable : contents files options.romPath = .ok rom) (restores : options.Restores files saved)
    (inserted : options.insert rom saved journal = (.ok header, c)) :
    (options.run journal : StateM σ (Outcome × Journal)) files = (options.play c : StateM σ _) files := by
  simp only [run, bind, StateT.bind, LawfulStorage.read_eq, readable, readSave_eq restores, inserted]

/-- Say the ROM and the saved RAM can be read, or there is no saved RAM, the ROM is accepted, all frames are played, the
cartridge has RAM, and the file of the saved RAM can be written when its turn comes. Then, if no dump is asked for or
it has been written, the run ends well and the file holds the RAM of the last frame, of the declared size. If the dump
cannot be written, the run fails with that, and writes nothing more: the RAM is not saved. -/
theorem run_saves_unless_dump_fails (readable : contents files options.romPath = .ok rom)
    (restores : options.Restores files saved) (inserted : options.insert rom saved journal = (.ok header, c))
    (played : Console.playFrames options.frames 0 (options.started c) = (.ok cycles, final))
    (filled : header.ramSize ≠ 0) (writable : Writable (options.dumped final files).2 options.saveTarget) :
    ∃ ram, final.board.cartridgeRam = some ram ∧ ram.size = header.ramSize ∧
      match (options.dumped final files).1 with
      | .ok () => ∃ journal' after,
          (options.run journal : StateM σ _) files = ((.done, journal'), after) ∧
          contents after options.saveTarget = .ok ram
      | .error cause => ∃ path, options.dumpPath = some path ∧
          (options.run journal : StateM σ _) files =
            ((.failed (.unwritableDump path cause), final.board.journal), (options.dumped final files).2) := by
  obtain ⟨keeper, ram, holds, size⟩ := ram_of_played inserted played
  refine ⟨ram, holds, size, ?_⟩
  -- up to here nothing has been written, and only the dump decides how the run ends
  rw [run_eq_play readable restores inserted, play_eq_finish played]
  cases result : (options.dumped final files).1 with
  | ok =>
    obtain ⟨journal', finished⟩ := finish_of_dumped keeper holds (size ▸ filled) result
    exact ⟨journal', _, finished, LawfulStorage.contents_written (Prod.ext (writable ram) rfl)⟩
  | error cause => exact finish_of_refused result cycles

end Lawful

end Files

end RunOptions

/-! ### A run of one frame -/

/-- An image with a RAM of 8 KiB whose program stops at once. -/
def Program.stopping : Block (2 * 0x4000) := (Program.numbered 2 0x09 0x00 0x02).set ⟨0x100, by decide⟩ 0x10

def Program.stoppingHeader : Header := ⟨"", .plain, twoBanks, 0x2000, false⟩

theorem Program.parse_stopping : Header.parse stopping.bytes = .ok stoppingHeader := by
  have same (i : Nat) (low : 0x134 ≤ i) (high : i ≤ 0x149) :
      stopping.bytes[i]? = (numbered 2 0x09 0x00 0x02).bytes[i]? := by
    rw [Block.getElem?_bytes, Block.getElem?_bytes, dif_pos (by omega), dif_pos (by omega), stopping,
      Block.get_set_of_ne _ (by rw [ne_eq, Fin.ext_iff]; simp only; omega)]
  rw [Header.parse_congr (by rw [Block.size_eq]; decide) (by rw [Block.size_eq]; decide) same]
  exact parse_numbered (by decide) rfl rfl rfl

namespace Console

theorem runFrame_of_stop {c : Console} (sound : c.board.Sound) (off : c.board.timer.enabled = false)
    (running : c.machine.cpu.stopped = false) (awake : c.machine.cpu.halted = false) (free : c.machine.cpu.ime = false)
    (next : c.clearFrame.machine.nextOpcode = 0x10) : ∃ final, c.runFrame = (.ok 4, final) := by
  have found : Opcode.decode c.clearFrame.machine.nextOpcode = .instruction .stop := by
    rw [next]
    rfl
  have noted : (Program.performed .stop c.clearFrame.machine).bus.Sound := (sound.clearFrame.note _).note _
  obtain ⟨after, ticked, _⟩ := noted.tick_of_off off (show 4 ≤ longestBatch by decide)
  have stays : (Program.performed .stop c.clearFrame.machine).cpu.ime = false := free
  have done : c.clearFrame.machine.step = (.ok 4, ⟨(Program.performed .stop c.clearFrame.machine).cpu, after⟩) :=
    (Program.step_of_decode (m := c.clearFrame.machine) running awake stays found rfl ticked).1
  have stepped := step_of_machine done
  rw [runFrame, continueFrame]
  split
  next failed => cases failed.symm.trans stepped
  next passed =>
    cases passed.symm.trans stepped
    have stopped : (Program.performed .stop c.clearFrame.machine).cpu.stopped = true := rfl
    rw [if_pos (by decide), if_pos (by simp [endsFrame, stopped])]
    exact ⟨_, rfl⟩

end Console

namespace RunOptions

open Storage Files

theorem playFrames_of_stop (options : RunOptions)
    (inserted : (Console.postBoot journal).load rom saved = (.ok header, c)) (stop : rom[0x100]? = some 0x10) :
    ∃ final, Console.playFrames 1 0 (options.started (c.note (.loaded header))) = (.ok 4, final) := by
  obtain rfl : ((Console.postBoot journal).load rom saved).2 = c := congrArg Prod.snd inserted
  let start := options.started (((Console.postBoot journal).load rom saved).2.note (.loaded header))
  have sound : start.board.Sound :=
    ((Console.sound_load (Board.sound_postBoot journal) rom saved).note _).note _
  have off : start.board.timer.enabled = false := by
    obtain ⟨_, _, _, loads⟩ := Board.load_frame rom saved (Board.postBoot journal)
    rw [show start.board.timer = ((Board.postBoot journal).load rom saved).2.timer from rfl, loads]
    exact show Timer.postBoot.enabled = false by decide
  have holds := (Board.holds_law header rom saved).clearFrame (holds_started options inserted)
  have shown := holds.read_first (show (0x0100 : UInt16).toNat ≤ 0x3FFF by decide)
  have inside : 0x100 < header.romSize.bytes := by
    have := header.romSize.banks_pos
    rw [RomSize.bytes]
    omega
  rw [show (0x0100 : UInt16).toNat = 0x100 from rfl, Console.getElem?_paddedImage _ _ inside, stop] at shown
  obtain ⟨final, ran⟩ := Console.runFrame_of_stop sound off rfl rfl rfl (Option.some.inj shown)
  refine ⟨final, ?_⟩
  change Console.playFrames 1 0 start = _
  simp only [Console.playFrames, ran]

theorem exists_played_of_frames (options : RunOptions) (one : options.frames = 1) (saved : Option ByteArray) :
    ∃ c final, options.insert Program.stopping.bytes saved {} = (.ok Program.stoppingHeader, c) ∧
      Console.playFrames options.frames 0 (options.started c) = (.ok 4, final) := by
  have stop : Program.stopping.bytes[0x100]? = some 0x10 := by
    rw [Block.getElem?_bytes, dif_pos (by decide), Program.stopping, Block.get_set_self]
  obtain ⟨journal, loaded, loads, inserted⟩ := insert_of_parse options Program.parse_stopping saved {}
  obtain ⟨final, played⟩ := playFrames_of_stop options loads stop
  exact ⟨_, final, inserted, one ▸ played⟩

def oneFrame (dump : String) : RunOptions := { romPath := "game.gb", frames := 1, dumpPath := some dump }

theorem saveTarget_oneFrame (dump : String) : (oneFrame dump).saveTarget = "game.sav" := by
  simp only [saveTarget, oneFrame, Option.getD_none]
  decide

theorem isName_game : IsName "game.gb" := by decide

theorem isName_dump : IsName "frame.rgb" := by decide

theorem isName_save : IsName "game.sav" := by decide

theorem contents_oneFrame (rom : ByteArray) (dump : String) :
    contents (single "game.gb" rom) (oneFrame dump).romPath = .ok rom := by
  change contents (single "game.gb" rom) "game.gb" = _
  exact isName_game.read_single rom

theorem restores_oneFrame (rom : ByteArray) (dump : String) : (oneFrame dump).Restores (single "game.gb" rom) none := by
  change contents (single "game.gb" rom) (oneFrame dump).saveTarget = _
  rw [saveTarget_oneFrame]
  exact isName_save.read_single_of_ne (show "game.sav" ≠ "game.gb" by decide) rom

theorem writable_oneFrame (rom : ByteArray) (dump : String) :
    Writable (single "game.gb" rom) (oneFrame dump).saveTarget := by
  rw [saveTarget_oneFrame]
  exact isName_save.writable_single _ rom

/-- A dump into a directory that does not exist. -/
theorem written_missing (rom bytes : ByteArray) :
    written (single "game.gb" rom) "missing/frame.rgb" bytes = (.error .notFound, single "game.gb" rom) := by
  let files := single "game.gb" rom
  have parts : components "missing/frame.rgb" = ["missing", "frame.rgb"] := by decide
  have whole : withoutSlashes "missing/frame.rgb" = "missing/frame.rgb" := by decide
  have allowed : refusal? "missing/frame.rgb" = none := by decide
  have start : files.start "missing/frame.rgb" = files.current := if_neg (by decide)
  have isName : IsName "missing" := by decide
  have absent : files.node? (files.current ++ ["missing"]) = none := node?_single_of_ne (by decide) rom
  have entered : files.enter files.current "missing" = .ok (files.current ++ ["missing"]) :=
    isName.enter (current_single _ rom)
  have outer : files.enterAll files.current ["missing"] = .ok (files.current ++ ["missing"]) := by
    simp only [enterAll, entered]
  have target : files.target "missing/frame.rgb" = .error .notFound := by
    simp only [Files.target, whole, parts, start, List.dropLast, outer, requireDirectory, absent]
  change files.write "missing/frame.rgb" bytes = _
  simp only [Files.write, allowed, target]
  rfl

theorem exists_played (dump : String) : ∃ c final,
    (oneFrame dump).insert Program.stopping.bytes none {} = (.ok Program.stoppingHeader, c) ∧
      Console.playFrames (oneFrame dump).frames 0 ((oneFrame dump).started c) = (.ok 4, final) :=
  exists_played_of_frames (oneFrame dump) rfl none

/-- A dump that goes beside the image is written, and the RAM after it. -/
theorem run_saves_after_dump : ∃ ram journal after,
    ((oneFrame "frame.rgb").run {} : StateM Files _) (single "game.gb" Program.stopping.bytes) =
        ((.done, journal), after) ∧
      contents after (oneFrame "frame.rgb").saveTarget = .ok ram ∧ ram.size = 0x2000 := by
  let files := single "game.gb" Program.stopping.bytes
  obtain ⟨c, final, inserted, played⟩ := exists_played "frame.rgb"
  have dumps : ((oneFrame "frame.rgb").dumped final files).1 = .ok () :=
    isName_dump.writable_single _ _ final.pictureBytes
  have writable : Writable ((oneFrame "frame.rgb").dumped final files).2 (oneFrame "frame.rgb").saveTarget :=
    writable_write (writable_oneFrame _ _) "frame.rgb" final.pictureBytes
  obtain ⟨ram, _, size, saves⟩ := run_saves_unless_dump_fails (contents_oneFrame _ _) (restores_oneFrame _ _)
    inserted played (show Program.stoppingHeader.ramSize ≠ 0 by decide) writable
  rw [dumps] at saves
  obtain ⟨journal, after, ran, kept⟩ := saves
  exact ⟨ram, journal, after, ran, kept, size⟩

/-- A dump into a directory that does not exist costs the RAM, though its file could have been written. -/
theorem run_loses_ram : ∃ c final ram journal,
    let options := oneFrame "missing/frame.rgb"
    let files := single "game.gb" Program.stopping.bytes
    contents files options.romPath = .ok Program.stopping.bytes ∧ options.Restores files none ∧
    options.insert Program.stopping.bytes none {} = (.ok Program.stoppingHeader, c) ∧
    Console.playFrames options.frames 0 (options.started c) = (.ok 4, final) ∧
    Program.stoppingHeader.ramSize ≠ 0 ∧ Writable files options.saveTarget ∧
    options.dumpPath ≠ some options.saveTarget ∧ final.board.cartridgeRam = some ram ∧
    (options.run {} : StateM Files _) files =
      ((.failed (.unwritableDump "missing/frame.rgb" .notFound), journal), files) ∧
    contents files options.saveTarget = .error .notFound := by
  obtain ⟨c, final, inserted, played⟩ := exists_played "missing/frame.rgb"
  have readable := contents_oneFrame Program.stopping.bytes "missing/frame.rgb"
  have restores := restores_oneFrame Program.stopping.bytes "missing/frame.rgb"
  have dump : (oneFrame "missing/frame.rgb").dumped final (single "game.gb" Program.stopping.bytes) =
      (.error .notFound, _) := written_missing _ _
  obtain ⟨_, ram, holds, _⟩ := ram_of_played inserted played
  obtain ⟨path, asked, ended⟩ := finish_of_refused (congrArg Prod.fst dump) 4
  cases asked
  rw [dump, ← play_eq_finish played, ← run_eq_play readable restores inserted] at ended
  have other : (oneFrame "missing/frame.rgb").dumpPath ≠ some (oneFrame "missing/frame.rgb").saveTarget := by
    rw [saveTarget_oneFrame]
    decide
  exact ⟨c, final, ram, _, readable, restores, inserted, played, by decide, writable_oneFrame _ _, other, holds, ended,
    restores⟩

end RunOptions

end DotMatrix
