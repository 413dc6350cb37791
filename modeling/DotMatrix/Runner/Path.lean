/-!
Paths with slashes. The name of a path is its last component that is not a single dot; the extension
is what follows the last dot of the name, unless the name begins with it.
-/

namespace DotMatrix.Path

/-- A path from its last character on, without the slashes and single dots at its end. -/
def dropTail : List Char → List Char
  | '/' :: rest => dropTail rest
  | '.' :: '/' :: rest => dropTail rest
  | other => other

def splitName (path : List Char) : List Char × List Char :=
  let body := dropTail path.reverse
  ((body.dropWhile (· != '/')).reverse, (body.takeWhile (· != '/')).reverse)

def splitExtension (name : List Char) : List Char × Option (List Char) :=
  let fromEnd := name.reverse
  match fromEnd.dropWhile (· != '.') with
  | _ :: stem@(_ :: _) => (stem.reverse, some (fromEnd.takeWhile (· != '.')).reverse)
  | _ => (name, none)

def isNameless (name : List Char) : Bool := name == [] || name == ['.'] || name == ['.', '.']

/-- The path with another extension. A path without a name keeps its text. The extension is first cut
off the end of the text; if that leaves a path to the directory above, nothing is put in its place. -/
def withExtension (path extension : String) : String :=
  let (directory, name) := splitName path.toList
  if isNameless name then path
  else
    let stem := (splitExtension name).1
    if stem == ['.'] && directory ++ name == path.toList then
      String.ofList (directory ++ ['.', '.'])
    else String.ofList (directory ++ stem ++ '.' :: extension.toList)

end DotMatrix.Path
