import DotMatrix.Runner.Session

/-!
The command line: runs a ROM from the disk and prints the journal of the run to standard error.
-/

namespace DotMatrix

def FileError.ofDisk : IO.Error → FileError
  | .noFileOrDirectory .. => .notFound
  | error => .other (toString error)

instance : Storage IO where
  read path := do
    try return .ok (← IO.FS.readBinFile path)
    catch error => return .error (FileError.ofDisk error)
  write path bytes := do
    try
      IO.FS.writeBinFile path bytes
      return .ok ()
    catch error => return .error (FileError.ofDisk error)

def RunError.cause : RunError → String
  | unreadableRom _ cause | unreadableSave _ cause | unwritableDump _ cause => cause.message
  | badRom _ cause => cause.message

def reportText (message : String) (causes : List String) : String :=
  if causes.isEmpty then s!"Error: {message}"
  else s!"Error: {message}\n\nCaused by:\n    " ++ "\n    ".intercalate causes

def exitWith (outcome : Outcome) : IO UInt32 := do
  match outcome with
  | .done => return 0
  | .failed error =>
    IO.eprintln (reportText error.message [error.cause])
    return 1
  | .fault fault =>
    IO.eprintln fault.message
    return 101

end DotMatrix

open DotMatrix in
/-- The value of a variable that is not Unicode arrives with replacement characters in it, so it is not taken for unset
but refused as no number. -/
def main (arguments : List String) : IO UInt32 := do
  match RunOptions.parse arguments (← IO.getEnv "POCKETBOY_FRAMES") with
  | .error error =>
    IO.eprintln (reportText (error.chain.headD "") error.chain.tail)
    return 1
  | .ok options =>
    let (outcome, journal) ← options.run (Journal.restart (some .info))
    for entry in journal.entries do
      IO.eprintln entry.line
    exitWith outcome
