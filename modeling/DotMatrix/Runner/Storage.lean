/-!
Where a run reads and writes files, and a storage that lives in memory: a tree of files and
directories, seen from one of its directories.
-/

namespace DotMatrix

inductive FileError where
  | notFound
  | notDirectory
  | isDirectory
  | badName
  | other (reason : String)
  deriving DecidableEq, Repr

def FileError.message : FileError → String
  | notFound => "No such file or directory (os error 2)"
  | notDirectory => "Not a directory (os error 20)"
  | isDirectory => "Is a directory (os error 21)"
  | badName => "File name too long (os error 36)"
  | other reason => reason

class Storage (m : Type → Type) where
  read : String → m (Except FileError ByteArray)
  /-- Replaces a file, or creates it. -/
  write : String → ByteArray → m (Except FileError Unit)

inductive Node where
  | file (bytes : ByteArray)
  | directory

/-- The names from the root of a tree down. -/
abbrev Place := List String

structure Files where
  nodes : List (Place × Node)
  /-- The directory that paths start from. -/
  current : Place

namespace Files

def empty : Files := ⟨[(["work"], .directory)], ["work"]⟩

def node? (files : Files) (place : Place) : Option Node :=
  if place = [] then some .directory else (files.nodes.find? fun entry => entry.1 = place).map Prod.snd

def nameLimit : Nat := 255

def requireDirectory (files : Files) (place : Place) : Except FileError Unit :=
  match files.node? place with
  | none => .error .notFound
  | some (.file _) => .error .notDirectory
  | some .directory => .ok ()

/-- The place that a component names from a place on. Whether anything is there is left open. -/
def enter (files : Files) (place : Place) (component : String) : Except FileError Place :=
  match files.requireDirectory place with
  | .error error => .error error
  | .ok () =>
    if component = "" ∨ component = "." then .ok place
    else if component = ".." then .ok place.dropLast
    else if nameLimit < component.utf8ByteSize then .error .badName
    else .ok (place ++ [component])

def enterAll (files : Files) (place : Place) : List String → Except FileError Place
  | [] => .ok place
  | component :: rest =>
    match files.enter place component with
    | .error error => .error error
    | .ok place => files.enterAll place rest

def start (files : Files) (path : String) : Place :=
  if path.toList.head? = some '/' then [] else files.current

def components (path : String) : List String := (path.toList.splitOn '/').map String.ofList

def pathLimit : Nat := 4095

/-- Why a path is refused, whatever the tree holds. -/
def refusal? (path : String) : Option FileError :=
  if path.toList.contains '\x00' then some .badName
  else if path = "" then some .notFound
  else if pathLimit < path.utf8ByteSize then some .badName
  else none

def read (files : Files) (path : String) : Except FileError ByteArray :=
  match refusal? path with
  | some error => .error error
  | none =>
    match files.enterAll (files.start path) (components path) with
    | .error error => .error error
    | .ok place =>
      match files.node? place with
      | none => .error .notFound
      | some .directory => .error .isDirectory
      | some (.file bytes) => .ok bytes

def withoutSlashes (path : String) : String :=
  String.ofList (path.toList.reverse.dropWhile (· == '/')).reverse

/-- The place where a file is written: a name in a directory that exists. -/
def target (files : Files) (path : String) : Except FileError Place :=
  let parts := components (withoutSlashes path)
  match files.enterAll (files.start path) parts.dropLast with
  | .error error => .error error
  | .ok parent =>
    let name := parts.getLastD ""
    match files.requireDirectory parent with
    | .error error => .error error
    | .ok () =>
      if name = "" ∨ name = "." ∨ name = ".." ∨ withoutSlashes path ≠ path then .error .isDirectory
      else files.enter parent name

def put (files : Files) (place : Place) (node : Node) : Files :=
  { files with nodes := (place, node) :: files.nodes.filter fun entry => entry.1 ≠ place }

def write (files : Files) (path : String) (bytes : ByteArray) : Except FileError Unit × Files :=
  match refusal? path with
  | some error => (.error error, files)
  | none =>
    match files.target path with
    | .error error => (.error error, files)
    | .ok place =>
      match files.node? place with
      | some .directory => (.error .isDirectory, files)
      | _ => (.ok (), files.put place (.file bytes))

def makeDirectories (files : Files) (path : String) : Files :=
  if (refusal? path).isSome then files else go files (files.start path) (components path)
where
  go (files : Files) (place : Place) : List String → Files
    | [] => files
    | component :: rest =>
      match files.enter place component with
      | .error _ => files
      | .ok place =>
        let files := if (files.node? place).isSome then files else files.put place .directory
        go files place rest

instance : Storage (StateM Files) where
  read path := fun files => (files.read path, files)
  write path bytes := fun files => files.write path bytes

end Files

end DotMatrix
