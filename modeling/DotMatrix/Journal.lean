/-!
The journal of a run. An event has a level and a text, and is kept while its level is no more
verbose than the limit of the journal.
-/

namespace DotMatrix

inductive Level where
  | error | warn | info | debug | trace
  deriving DecidableEq, Repr

namespace Level

def verbosity : Level → Nat
  | error => 1
  | warn => 2
  | info => 3
  | debug => 4
  | trace => 5

def name : Level → String
  | error => "ERROR"
  | warn => "WARN"
  | info => "INFO"
  | debug => "DEBUG"
  | trace => "TRACE"

end Level

class Event (ε : Type) where
  level : ε → Level
  text : ε → String

structure Entry where
  level : Level
  text : String
  deriving DecidableEq, Repr

def Entry.line (entry : Entry) : String := s!"{entry.level.name} {entry.text}"

/-- Without a limit nothing is kept. -/
structure Journal where
  limit : Option Level := none
  entries : Array Entry := #[]

namespace Journal

def keeps (journal : Journal) (level : Level) : Bool :=
  match journal.limit with
  | none => false
  | some limit => level.verbosity ≤ limit.verbosity

@[specialize] def record {ε : Type} [Event ε] (journal : Journal) (event : ε) : Journal :=
  if journal.keeps (Event.level event) then
    { journal with entries := journal.entries.push ⟨Event.level event, Event.text event⟩ }
  else journal

def restart (limit : Option Level) : Journal := { limit }

def cleared (journal : Journal) : Journal := { journal with entries := #[] }

end Journal

end DotMatrix
