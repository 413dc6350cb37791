import DotMatrix.Console
import DotMatrix.Runner.Options
import DotMatrix.Runner.Storage
import DotMatrix.Text.Lossy

/-!
A whole run: read the ROM and the kept RAM, play some frames, write the last picture, and keep the
RAM again.
-/

namespace DotMatrix

inductive RunError where
  | unreadableRom (path : String) (cause : FileError)
  | unreadableSave (path : String) (cause : FileError)
  | badRom (path : String) (cause : HeaderError)
  | unwritableDump (path : String) (cause : FileError)
  deriving DecidableEq, Repr

def RunError.message : RunError → String
  | unreadableRom path _ => s!"failed to read ROM {path}"
  | unreadableSave path _ => s!"failed to read {path}"
  | badRom path _ => s!"failed to load {path}"
  | unwritableDump path _ => s!"failed to write {path}"

inductive RunEvent where
  | restores (path : String)
  | loaded (header : Header)
  | plays (frames : Nat)
  | dumped (path : String)
  | serialOutput (bytes : Array UInt8)
  | wrote (size : Nat) (path : String)
  | notWritten (path : String) (cause : FileError)
  | finished (cycles : Nat)

instance : Event RunEvent where
  level
    | .notWritten .. => .error
    | _ => .info
  text
    | .restores path => s!"Restoring cartridge RAM from {path}"
    | .loaded header =>
      let color := if header.color then ", CGB" else ""
      s!"Loaded '{header.title}': {header.controller.name}, {header.romSize.bytes / 1024} KiB ROM, {header.ramSize / 1024} KiB RAM{color}"
    | .plays frames => s!"Running {frames} frames"
    | .dumped path => s!"Dumped last frame to {path}"
    | .serialOutput bytes => s!"Serial output: {String.ofList (Text.decodeLossy bytes.toList)}"
    | .wrote size path => s!"Wrote {size} bytes to {path}"
    | .notWritten path cause => s!"Failed to write {path}: {cause.message}"
    | .finished cycles =>
      s!"Finished after {cycles} cycles ({Text.twoPlaces cycles clockRate}s emulated)"

inductive Outcome where
  | done
  | failed (error : RunError)
  | fault (fault : Fault)

namespace Console

def note (event : RunEvent) (c : Console) : Console := c.mapBoard (·.note event)

def playFrames : Nat → Nat → Console → Except Fault Nat × Console
  | 0, cycles, c => (.ok cycles, c)
  | n + 1, cycles, c =>
    match c.runFrame with
    | (.error fault, c) => (.error fault, c)
    | (.ok more, c) => playFrames n (cycles + more) c

def pictureBytes (c : Console) : ByteArray :=
  c.copyPicture (Block.filled (3 * (screenWidth * screenHeight)) 0).bytes

def noteSerial (c : Console) : Console :=
  if c.serialOutput.isEmpty then c else c.note (.serialOutput c.serialOutput)

end Console

namespace RunOptions

variable {m : Type → Type} [Monad m] [Storage m]

/-- A missing file is no error: then there is nothing to restore. -/
def readSave (path : String) : m (Except RunError (Option ByteArray)) := do
  match ← Storage.read path with
  | .ok bytes => pure (.ok (some bytes))
  | .error .notFound => pure (.ok none)
  | .error cause => pure (.error (.unreadableSave path cause))

def writeDump (path : Option String) (c : Console) : m (Except RunError Unit × Console) := do
  match path with
  | none => pure (.ok (), c)
  | some path =>
    match ← Storage.write path c.pictureBytes with
    | .ok () => pure (.ok (), c.note (.dumped path))
    | .error cause => pure (.error (.unwritableDump path cause), c)

/-- A RAM that cannot be written is noted and does not fail the run. -/
def writeSave (path : String) (c : Console) : m Console := do
  match c.save with
  | (none, c) => pure c
  | (some ram, c) =>
    match ← Storage.write path ram with
    | .ok () => pure (c.note (.wrote ram.size path))
    | .error cause => pure (c.note (.notWritten path cause))

def finish (options : RunOptions) (cycles : Nat) (c : Console) : m (Outcome × Journal) := do
  match ← writeDump options.dumpPath c with
  | (.error error, c) => pure (.failed error, c.board.journal)
  | (.ok (), c) =>
    let c ← writeSave options.saveTarget c.noteSerial
    pure (.done, (c.note (.finished cycles)).board.journal)

def play (options : RunOptions) (c : Console) : m (Outcome × Journal) := do
  let c := { c.note (.plays options.frames) with hasKeeper := true }
  match Console.playFrames options.frames 0 c with
  | (.error fault, c) => pure (.fault fault, c.board.journal)
  | (.ok cycles, c) => options.finish cycles c

def insert (options : RunOptions) (rom : ByteArray) (saved : Option ByteArray) (journal : Journal) :
    Except RunError Header × Console :=
  let journal := if saved.isSome then journal.record (RunEvent.restores options.saveTarget) else journal
  let (result, c) := (Console.postBoot journal).load rom saved
  match result with
  | .error cause => (.error (.badRom options.romPath cause), c)
  | .ok header => (.ok header, c.note (.loaded header))

def run (options : RunOptions) (journal : Journal) : m (Outcome × Journal) := do
  match ← Storage.read options.romPath with
  | .error cause => pure (.failed (.unreadableRom options.romPath cause), journal)
  | .ok rom =>
    match ← readSave options.saveTarget with
    | .error error => pure (.failed error, journal)
    | .ok saved =>
      match options.insert rom saved journal with
      | (.error error, c) => pure (.failed error, c.board.journal)
      | (.ok _, c) => options.play c

end RunOptions

end DotMatrix
