import DotMatrix.Runner.Path
import DotMatrix.Text.Blank
import DotMatrix.Text.Decimal

/-!
The command line of the runner: three options with a value each, and the path of a ROM. The number of
frames may also come from the environment, which an option overrides.
-/

namespace DotMatrix

def usualFrames : Nat := 60

structure RunOptions where
  romPath : String
  savePath : Option String := none
  frames : Nat := usualFrames
  dumpPath : Option String := none
  deriving DecidableEq, Repr

/-- Where the RAM of the cartridge is kept: beside the ROM, unless another path is given. -/
def RunOptions.saveTarget (options : RunOptions) : String :=
  options.savePath.getD (Path.withExtension options.romPath "sav")

inductive OptionFlag where
  | save | frames | dump
  deriving DecidableEq, Repr

namespace OptionFlag

def name : OptionFlag → String
  | save => "-o"
  | frames => "-f"
  | dump => "-d"

def ofArgument? (argument : String) : Option OptionFlag :=
  [save, frames, dump].find? fun flag => flag.name == argument

end OptionFlag

inductive OptionsError where
  | missingValue (flag : OptionFlag)
  | unknownOption (argument : String)
  | unexpected (argument : String)
  | noRom
  | badFrames (value : String) (cause : Text.NumberError)
  | badEnvironment (value : String) (cause : Text.NumberError)
  deriving DecidableEq, Repr

namespace OptionsError

def usage : String := "usage: pocketboy <rom.gb> [-o save.sav] [-f frames] [-d frame.rgb]"

def notAFrameCount (value : String) : String := s!"'{value}' is not a frame count"

def chain : OptionsError → List String
  | missingValue flag => [s!"{flag.name} needs a value\n{usage}"]
  | unknownOption argument => [s!"unknown option '{argument}'\n{usage}"]
  | unexpected argument => [s!"unexpected argument '{argument}'\n{usage}"]
  | noRom => [s!"no ROM path given\n{usage}"]
  | badFrames value cause => [notAFrameCount value, cause.message]
  | badEnvironment value cause =>
    ["invalid POCKETBOY_FRAMES", notAFrameCount value, cause.message]

end OptionsError

namespace RunOptions

def parseFrames (value : String) : Except Text.NumberError Nat :=
  Text.readWord32 (Text.trimList value.toList)

structure Draft where
  rom : Option String := none
  save : Option String := none
  frames : Nat
  dump : Option String := none

def Draft.give (draft : Draft) (flag : OptionFlag) (value : String) : Except OptionsError Draft :=
  match flag with
  | .save => .ok { draft with save := some value }
  | .dump => .ok { draft with dump := some value }
  | .frames =>
    match parseFrames value with
    | .ok frames => .ok { draft with frames }
    | .error cause => .error (.badFrames value cause)

/-- Reads arguments from left to right; a flag takes the next argument, whatever it looks like. -/
def readArguments (draft : Draft) : List String → Except OptionsError Draft
  | [] => .ok draft
  | argument :: rest =>
    match OptionFlag.ofArgument? argument with
    | some flag =>
      match rest with
      | [] => .error (.missingValue flag)
      | value :: rest =>
        match draft.give flag value with
        | .error error => .error error
        | .ok draft => readArguments draft rest
    | none =>
      if argument.toList.head? = some '-' then .error (.unknownOption argument)
      else if draft.rom.isSome then .error (.unexpected argument)
      else readArguments { draft with rom := some argument } rest

/-- The frames to run unless an option says otherwise. There is no value if the variable is not set, and also if its
value is not Unicode. -/
def defaultFrames (environment : Option String) : Except OptionsError Nat :=
  match environment with
  | none => .ok usualFrames
  | some value => (parseFrames value).mapError (.badEnvironment value)

/-- The environment is looked at before the arguments. -/
def parse (arguments : List String) (environment : Option String) : Except OptionsError RunOptions :=
  match defaultFrames environment with
  | .error error => .error error
  | .ok frames =>
    match readArguments { frames } arguments with
    | .error error => .error error
    | .ok draft =>
      match draft.rom with
      | none => .error .noRom
      | some romPath =>
        .ok { romPath, savePath := draft.save, frames := draft.frames, dumpPath := draft.dump }

end RunOptions

end DotMatrix
