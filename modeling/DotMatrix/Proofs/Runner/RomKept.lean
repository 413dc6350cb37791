import DotMatrix.Proofs.Runner.SaveKept
import DotMatrix.Proofs.Runner.Sharing

/-!
Which files a run can change. Whatever happens in it, it writes under the path of the saved RAM and under the path of
the dump only, so that every file that neither of them leads to is kept. The file of the ROM is among these unless its
own name has the extension of saved RAM: then the RAM is written over it.
-/

namespace DotMatrix

namespace Storage

variable {σ α β : Type} [Storage (StateM σ)] [FramedStorage σ] {allowed : String → Prop}

structure ChangesOnly (allowed : String → Prop) (before after : σ) : Prop where
  shares : ∀ {first second : String},
    FramedStorage.Shares after first second → FramedStorage.Shares before first second
  found : ∀ {other : String}, (∀ path, allowed path → ¬FramedStorage.Shares before path other) →
    Storage.found after other = Storage.found before other

theorem ChangesOnly.refl (files : σ) : ChangesOnly allowed files files := ⟨id, fun _ => rfl⟩

theorem ChangesOnly.trans {before middle after : σ} (first : ChangesOnly allowed before middle)
    (second : ChangesOnly allowed middle after) : ChangesOnly allowed before after where
  shares shared := first.shares (second.shares shared)
  found apart := by
    have still : ∀ path, allowed path → ¬FramedStorage.Shares middle path _ := fun path listed shared =>
      apart path listed (first.shares shared)
    exact (second.found still).trans (first.found apart)

def WritesOnly (allowed : String → Prop) (x : StateM σ α) : Prop := ∀ files, ChangesOnly allowed files (x files).2

theorem WritesOnly.pure (a : α) : WritesOnly allowed (Pure.pure a : StateM σ α) := fun files => .refl files

theorem WritesOnly.bind {x : StateM σ α} {next : α → StateM σ β} (first : WritesOnly allowed x)
    (others : ∀ a, WritesOnly allowed (next a)) : WritesOnly allowed (x >>= next) := fun files =>
  (first files).trans (others (x files).1 (x files).2)

theorem WritesOnly.read (path : String) : WritesOnly allowed (read path : StateM σ (Except FileError ByteArray)) := by
  intro files
  rw [LawfulStorage.read_eq]
  exact .refl files

theorem WritesOnly.write {path : String} (listed : allowed path) (bytes : ByteArray) :
    WritesOnly allowed (write path bytes : StateM σ (Except FileError Unit)) := fun _ =>
  ⟨FramedStorage.shares_of_written, fun apart => FramedStorage.found_written (apart path listed)⟩

end Storage

namespace RunOptions

open Storage

section Run

variable {σ : Type} [Storage (StateM σ)] [FramedStorage σ] {options : RunOptions} {allowed : String → Prop}

def Writes (options : RunOptions) (path : String) : Prop := path = options.saveTarget ∨ options.dumpPath = some path

theorem writesOnly_readSave (path : String) :
    WritesOnly allowed (readSave path : StateM σ (Except RunError (Option ByteArray))) := by
  refine .bind (.read path) fun result => ?_
  split <;> exact .pure _

theorem writesOnly_writeDump (options : RunOptions) (c : Console) :
    WritesOnly options.Writes (writeDump options.dumpPath c : StateM σ (Except RunError Unit × Console)) := by
  unfold writeDump
  split
  next => exact .pure _
  next path asked =>
    refine .bind (.write (.inr asked) _) fun result => ?_
    split <;> exact .pure _

theorem writesOnly_writeSave (options : RunOptions) (c : Console) :
    WritesOnly options.Writes (writeSave options.saveTarget c : StateM σ Console) := by
  unfold writeSave
  split
  next => exact .pure _
  next =>
    refine .bind (.write (.inl rfl) _) fun result => ?_
    split <;> exact .pure _

theorem writesOnly_finish (options : RunOptions) (cycles : Nat) (c : Console) :
    WritesOnly options.Writes (options.finish cycles c : StateM σ (Outcome × Journal)) := by
  refine .bind (writesOnly_writeDump options c) fun result => ?_
  split
  next => exact .pure _
  next => exact .bind (writesOnly_writeSave options _) fun _ => .pure _

theorem writesOnly_play (options : RunOptions) (c : Console) :
    WritesOnly options.Writes (options.play c : StateM σ (Outcome × Journal)) := by
  simp only [play]
  split
  next => exact .pure _
  next => exact writesOnly_finish options _ _

theorem writesOnly_run (options : RunOptions) (journal : Journal) :
    WritesOnly options.Writes (options.run journal : StateM σ (Outcome × Journal)) := by
  refine .bind (.read options.romPath) fun result => ?_
  split
  next => exact .pure _
  next =>
    refine .bind (writesOnly_readSave options.saveTarget) fun result => ?_
    split
    next => exact .pure _
    next =>
      split
      next => exact .pure _
      next => exact writesOnly_play options _

theorem saveTarget_eq (unsaved : options.savePath = none) :
    options.saveTarget = Path.withExtension options.romPath "sav" := by
  rw [saveTarget, unsaved, Option.getD_none]

/-- Where names tell files apart, the saved RAM goes to another file than the ROM unless the ROM has its extension. -/
theorem not_shares_saveTarget {files : σ} (unsaved : options.savePath = none) (told : NamesTell files)
    (other : Path.extension? options.romPath ≠ some "sav") :
    ¬FramedStorage.Shares files options.saveTarget options.romPath := by
  intro shared
  obtain ⟨same, named⟩ := told _ _ shared
  rw [saveTarget_eq unsaved] at same named
  exact other (Path.withExtension_of_lastName (same ▸ named) (by decide) same).2

/-- However a run ends, a file that neither the path of the saved RAM nor the path of the dump leads to is what it was
before, and if there was none, there is none. Without a path for the saved RAM, and with a dump that goes elsewhere,
this holds of the ROM where names tell files apart, unless the ROM has the extension of saved RAM. A ROM that has it is
the file that the RAM is saved to. -/
theorem run_changes_own_files (options : RunOptions) (journal : Journal) (files : σ) :
    let after := ((options.run journal : StateM σ (Outcome × Journal)) files).2
    (∀ path, ¬FramedStorage.Shares files options.saveTarget path →
      (∀ dump ∈ options.dumpPath, ¬FramedStorage.Shares files dump path) → found after path = found files path) ∧
    (options.savePath = none → NamesTell files →
      (∀ dump ∈ options.dumpPath, ¬FramedStorage.Shares files dump options.romPath) →
      Path.extension? options.romPath ≠ some "sav" → found after options.romPath = found files options.romPath) ∧
    (options.savePath = none → Path.extension? options.romPath = some "sav" →
      Path.lastName options.romPath ∉ "..sav" :: Path.directoryNames → options.saveTarget = options.romPath) := by
  intro after
  have changes := writesOnly_run options journal files
  have kept (path : String) (saves : ¬FramedStorage.Shares files options.saveTarget path)
      (dumps : ∀ dump ∈ options.dumpPath, ¬FramedStorage.Shares files dump path) :
      found after path = found files path := by
    refine changes.found fun written listed => ?_
    rcases listed with rfl | asked
    · exact saves
    · exact dumps written asked
  refine ⟨kept, fun unsaved told dumps other => ?_, fun unsaved had named => ?_⟩
  · exact kept options.romPath (not_shares_saveTarget unsaved told other) dumps
  · rw [List.mem_cons, not_or] at named
    rw [saveTarget_eq unsaved]
    exact Path.withExtension_of_extension named.2 had named.1

section Lawful

variable {journal : Journal} {rom : ByteArray} {saved : Option ByteArray} {header : Header} {c final : Console}
  {cycles : Nat} {files : σ}

/-- A run that writes its dump, or has none to write, ends with the RAM being written. -/
theorem run_of_played (readable : contents files options.romPath = .ok rom) (restores : options.Restores files saved)
    (inserted : options.insert rom saved journal = (.ok header, c))
    (played : Console.playFrames options.frames 0 (options.started c) = (.ok cycles, final))
    (filled : header.ramSize ≠ 0) (dumps : (options.dumped final files).1 = .ok ()) :
    ∃ ram journal', ram.size = header.ramSize ∧ (options.run journal : StateM σ (Outcome × Journal)) files =
      ((.done, journal'), (written (options.dumped final files).2 options.saveTarget ram).2) := by
  obtain ⟨keeper, ram, holds, size⟩ := ram_of_played inserted played
  obtain ⟨journal', finished⟩ : ∃ journal', (options.finish cycles final : StateM σ (Outcome × Journal)) files = _ :=
    finish_of_dumped keeper holds (size ▸ filled) dumps
  exact ⟨ram, journal', size,
    (run_eq_play readable restores inserted).trans ((play_eq_finish played files).trans finished)⟩

end Lawful

end Run

open Files

theorem not_shares_dump (rom : ByteArray) :
    ¬FramedStorage.Shares (single "game.gb" rom) "frame.rgb" (oneFrame "frame.rgb").romPath := by
  intro shared
  have same := (namesTell_of_isTree (isTree_single "game.gb" rom) _ _ shared).1
  exact absurd same (by decide)

/-- A run with a dump that goes to its end writes the dump and the RAM, and keeps the ROM. -/
theorem run_changes_own_files_of_game : ∃ ram journal after,
    ((oneFrame "frame.rgb").run {} : StateM Files _) (single "game.gb" Program.stopping.bytes) =
        ((.done, journal), after) ∧
      contents after "game.sav" = .ok ram ∧ found after "game.gb" = some Program.stopping.bytes := by
  let files := single "game.gb" Program.stopping.bytes
  obtain ⟨c, final, inserted, played⟩ := exists_played "frame.rgb"
  have dumps : ((oneFrame "frame.rgb").dumped final files).1 = .ok () :=
    isName_dump.writable_single _ _ final.pictureBytes
  have writable : Writable ((oneFrame "frame.rgb").dumped final files).2 (oneFrame "frame.rgb").saveTarget :=
    writable_write (writable_oneFrame _ _) "frame.rgb" final.pictureBytes
  obtain ⟨ram, journal, _, ran⟩ := run_of_played (contents_oneFrame _ _) (restores_oneFrame _ _) inserted played
    (show Program.stoppingHeader.ramSize ≠ 0 by decide) dumps
  have saves := LawfulStorage.contents_written (Prod.ext (writable ram) rfl)
  rw [saveTarget_oneFrame] at saves
  have kept := (run_changes_own_files (oneFrame "frame.rgb") {} files).2.1 rfl
    (namesTell_of_isTree (isTree_single "game.gb" _))
    (fun dump asked => Option.some.inj asked ▸ not_shares_dump _) (by decide)
  rw [ran] at kept
  exact ⟨ram, journal, _, ran, saves, kept.trans (congrArg Except.toOption (contents_oneFrame _ "frame.rgb"))⟩

/-- One frame of a ROM that has the extension of saved RAM. -/
def frameOfSaved : RunOptions := { romPath := "game.sav", frames := 1 }

/-- The RAM is written over such a ROM, which is read as saved RAM before that. -/
theorem run_overwrites_rom : ∃ ram journal after,
    let files := single frameOfSaved.romPath Program.stopping.bytes
    frameOfSaved.savePath = none ∧ frameOfSaved.dumpPath = none ∧
    contents files frameOfSaved.romPath = .ok Program.stopping.bytes ∧ Program.stopping.bytes.size = 0x8000 ∧
    (frameOfSaved.run {} : StateM Files _) files = ((.done, journal), after) ∧
    contents after frameOfSaved.romPath = .ok ram ∧ ram.size = 0x2000 := by
  let files := single frameOfSaved.romPath Program.stopping.bytes
  have readable : contents files frameOfSaved.romPath = .ok Program.stopping.bytes := isName_save.read_single _
  have target : frameOfSaved.saveTarget = frameOfSaved.romPath := by
    rw [saveTarget_eq rfl]
    decide
  have restores : frameOfSaved.Restores files (some Program.stopping.bytes) := by
    change contents files frameOfSaved.saveTarget = _
    rw [target]
    exact readable
  have writable : Writable files frameOfSaved.romPath := isName_save.writable_single _ _
  obtain ⟨c, final, inserted, played⟩ := exists_played_of_frames frameOfSaved rfl (some _)
  obtain ⟨ram, journal, size, ran⟩ := run_of_played readable restores inserted played
    (show Program.stoppingHeader.ramSize ≠ 0 by decide) rfl
  have saves := LawfulStorage.contents_written (Prod.ext (writable ram) rfl)
  rw [target] at ran
  exact ⟨ram, journal, _, rfl, rfl, readable, Block.size_eq _, ran, saves, size⟩

end RunOptions

end DotMatrix
