import DotMatrix.Runner.Storage

/-!
What can be relied on when files are read and written: a read changes nothing, and a file that has been written
reads as what was written to it. A tree of files in memory keeps to this, and in it a file that can be written can
still be written after another.
-/

namespace DotMatrix

namespace Storage

variable {σ : Type} [Storage (StateM σ)]

def contents (files : σ) (path : String) : Except FileError ByteArray :=
  ((read path : StateM σ (Except FileError ByteArray)) files).1

def written (files : σ) (path : String) (bytes : ByteArray) : Except FileError Unit × σ :=
  (write path bytes : StateM σ (Except FileError Unit)) files

def Writable (files : σ) (path : String) : Prop := ∀ bytes, (written files path bytes).1 = .ok ()

end Storage

open Storage in
class LawfulStorage (σ : Type) [Storage (StateM σ)] : Prop where
  read_eq : ∀ (files : σ) (path : String),
    (read path : StateM σ (Except FileError ByteArray)) files = (contents files path, files)
  contents_written : ∀ {files after : σ} {path : String} {bytes : ByteArray},
    written files path bytes = (.ok (), after) → contents after path = .ok bytes

namespace Files

variable {files before after : Files} {place : Place} {path : String} {bytes : ByteArray}

theorem node?_put (filled : place ≠ []) (node : Node) (other : Place) :
    (files.put place node).node? other = if other = place then some node else files.node? other := by
  by_cases root : other = []
  · have apart : other ≠ place := fun same => filled (same.symm.trans root)
    rw [if_neg apart, node?, node?, if_pos root, if_pos root]
  · rw [node?, node?, if_neg root, if_neg root, put, List.find?_cons]
    by_cases same : other = place
    · rw [if_pos same, same]
      simp only [decide_true, Option.map_some]
    · have apart : decide (place = other) = false := decide_eq_false fun swapped => same swapped.symm
      rw [if_neg same, List.find?_filter]
      simp only [apart]
      congr 2
      funext entry
      by_cases here : entry.1 = other
      · simp [here, same]
      · simp [here]

theorem requireDirectory_eq_ok : files.requireDirectory place = .ok () ↔ files.node? place = some .directory := by
  unfold requireDirectory
  split <;> simp_all

structure KeepsDirectories (before after : Files) : Prop where
  current : after.current = before.current
  stays : ∀ place, before.node? place = some .directory → after.node? place = some .directory

theorem keepsDirectories_put (filled : place ≠ []) (free : files.node? place ≠ some .directory)
    (bytes : ByteArray) : KeepsDirectories files (files.put place (.file bytes)) where
  current := rfl
  stays other there := by
    have apart : other ≠ place := fun same => free (same ▸ there)
    rw [node?_put filled, if_neg apart]
    exact there

theorem KeepsDirectories.enter (h : KeepsDirectories before after) {component : String} {inner : Place}
    (entered : before.enter place component = .ok inner) : after.enter place component = .ok inner := by
  simp only [Files.enter] at entered ⊢
  cases there : before.requireDirectory place with
  | error =>
    rw [there] at entered
    cases entered
  | ok =>
    rw [there] at entered
    rw [requireDirectory_eq_ok.mpr (h.stays _ (requireDirectory_eq_ok.mp there))]
    exact entered

theorem KeepsDirectories.enterAll (h : KeepsDirectories before after) {components : List String} {inner : Place}
    (entered : before.enterAll place components = .ok inner) : after.enterAll place components = .ok inner := by
  induction components generalizing place with
  | nil => exact entered
  | cons component rest ih =>
    simp only [Files.enterAll] at entered ⊢
    cases first : before.enter place component with
    | error =>
      rw [first] at entered
      cases entered
    | ok next =>
      rw [first] at entered
      rw [h.enter first]
      exact ih entered

theorem enterAll_concat {components : List String} {parent inner : Place} {name : String}
    (outer : files.enterAll place components = .ok parent) (last : files.enter parent name = .ok inner) :
    files.enterAll place (components ++ [name]) = .ok inner := by
  induction components generalizing place with
  | nil =>
    cases outer
    simp only [List.nil_append, enterAll, last]
  | cons component rest ih =>
    simp only [List.cons_append, enterAll] at outer ⊢
    cases first : files.enter place component with
    | error =>
      rw [first] at outer
      cases outer
    | ok next =>
      rw [first] at outer
      exact ih outer

structure Targets (files : Files) (path : String) (parent place : Place) : Prop where
  whole : withoutSlashes path = path
  outer : files.enterAll (files.start path) (components path).dropLast = .ok parent
  named : (components path).getLastD "" ∉ ["", ".", ".."]
  last : files.enter parent ((components path).getLastD "") = .ok place

theorem requireDirectory_of_enter {component : String} {inner : Place}
    (entered : files.enter place component = .ok inner) : files.requireDirectory place = .ok () := by
  simp only [enter] at entered
  cases there : files.requireDirectory place with
  | error =>
    rw [there] at entered
    cases entered
  | ok => rfl

theorem target_eq_ok_iff : files.target path = .ok place ↔ ∃ parent, files.Targets path parent place := by
  constructor
  · intro found
    simp only [target] at found
    split at found
    next => cases found
    next parent outer =>
      split at found
      next => cases found
      next =>
        split at found
        next => cases found
        next plain =>
          simp only [not_or, ne_eq, Classical.not_not] at plain
          obtain ⟨filled, other, above, whole⟩ := plain
          rw [whole] at outer filled other above found
          have named : (components path).getLastD "" ∉ ["", ".", ".."] := by
            simp only [List.mem_cons, List.not_mem_nil, or_false, not_or]
            exact ⟨filled, other, above⟩
          exact ⟨parent, whole, outer, named, found⟩
  · rintro ⟨parent, whole, outer, named, last⟩
    have plain : ¬((components path).getLastD "" = "" ∨ (components path).getLastD "" = "." ∨
        (components path).getLastD "" = ".." ∨ path ≠ path) := by
      simpa using named
    simp only [target, whole, outer, requireDirectory_of_enter last]
    rw [if_neg plain]
    exact last

/-- A read looks for a file where a write puts it. -/
theorem Targets.reached {parent : Place} (h : files.Targets path parent place) :
    files.enterAll (files.start path) (components path) = .ok place := by
  have parts : components path = (components path).dropLast ++ [(components path).getLastD ""] := by
    have some : components path ≠ [] := by
      intro none
      apply h.named
      rw [none]
      exact List.mem_cons_self
    rw [List.getLastD_eq_getLast?, List.getLast?_eq_some_getLast some, Option.getD_some, List.dropLast_concat_getLast]
  rw [parts]
  exact enterAll_concat h.outer h.last

theorem Targets.filled {parent : Place} (h : files.Targets path parent place) : place ≠ [] := by
  obtain ⟨_, _, named, last⟩ := h
  have other := requireDirectory_of_enter last
  simp only [List.mem_cons, List.not_mem_nil, or_false, not_or] at named
  simp only [enter, other, if_neg (show ¬(_ = "" ∨ _ = ".") from not_or.mpr ⟨named.1, named.2.1⟩),
    if_neg named.2.2] at last
  split at last
  · cases last
  · cases last
    exact List.append_ne_nil_of_right_ne_nil _ (List.cons_ne_nil _ _)

theorem KeepsDirectories.targets (h : KeepsDirectories before after) {parent : Place}
    (found : before.Targets path parent place) : after.Targets path parent place where
  whole := found.whole
  outer := by
    have start : after.start path = before.start path := by rw [start, start, h.current]
    rw [start]
    exact h.enterAll found.outer
  named := found.named
  last := h.enter found.last

/-- How a write can go: it fails and changes nothing, or it puts its bytes at a place where no directory is. -/
inductive WriteOutcome (files : Files) (path : String) (bytes : ByteArray) :
    Except FileError Unit × Files → Prop where
  | refused (cause : FileError) : WriteOutcome files path bytes (.error cause, files)
  | stored {parent place : Place} (allowed : refusal? path = none) (targets : files.Targets path parent place)
      (free : files.node? place ≠ some .directory) :
      WriteOutcome files path bytes (.ok (), files.put place (.file bytes))

theorem write_outcome (files : Files) (path : String) (bytes : ByteArray) :
    files.WriteOutcome path bytes (files.write path bytes) := by
  unfold write
  split
  next => exact .refused _
  next allowed =>
    split
    next => exact .refused _
    next place found =>
      obtain ⟨parent, targets⟩ := target_eq_ok_iff.mp found
      split
      next => exact .refused _
      next free => exact .stored allowed targets free

theorem Targets.write {parent : Place} (targets : files.Targets path parent place) (allowed : refusal? path = none)
    (free : files.node? place ≠ some .directory) (bytes : ByteArray) :
    files.write path bytes = (.ok (), files.put place (.file bytes)) := by
  simp only [Files.write, allowed, target_eq_ok_iff.mpr ⟨parent, targets⟩]

theorem keepsDirectories_write (files : Files) (path : String) (bytes : ByteArray) :
    KeepsDirectories files (files.write path bytes).2 := by
  have outcome := files.write_outcome path bytes
  generalize files.write path bytes = x at outcome ⊢
  cases outcome with
  | refused => exact ⟨rfl, fun _ there => there⟩
  | stored _ targets free => exact keepsDirectories_put targets.filled free bytes

theorem node?_write_ne (free : files.node? place ≠ some .directory) (path : String) (bytes : ByteArray) :
    (files.write path bytes).2.node? place ≠ some .directory := by
  have outcome := files.write_outcome path bytes
  generalize files.write path bytes = x at outcome ⊢
  cases outcome with
  | refused => exact free
  | stored _ targets =>
    rw [node?_put targets.filled]
    split
    · nofun
    · exact free

theorem read_of_write (done : before.write path bytes = (.ok (), after)) : after.read path = .ok bytes := by
  have outcome := before.write_outcome path bytes
  rw [done] at outcome
  cases outcome with
  | stored allowed targets free =>
    have kept := (keepsDirectories_put targets.filled free bytes).targets targets
    simp only [read, allowed, kept.reached]
    rw [node?_put targets.filled, if_pos rfl]

instance lawfulStorage : LawfulStorage Files where
  read_eq _ _ := rfl
  contents_written {files after path bytes} done := by
    change files.write path bytes = (.ok (), after) at done
    change after.read path = .ok bytes
    exact read_of_write done

/-- A file that can be written can still be written after another, whether that one could be or not. -/
theorem writable_write (writable : Storage.Writable files path) (other : String) (bytes : ByteArray) :
    Storage.Writable (files.write other bytes).2 path := by
  intro later
  have now : (files.write path later).1 = .ok () := writable later
  have outcome := files.write_outcome path later
  generalize files.write path later = x at now outcome
  cases outcome with
  | refused => cases now
  | stored allowed targets free =>
    have kept := (keepsDirectories_write files other bytes).targets targets
    exact congrArg Prod.fst (kept.write allowed (node?_write_ne free other bytes) later)

/-- A name stands for an entry of the directory that paths start from. -/
structure IsName (name : String) : Prop where
  alone : components name = [name]
  whole : withoutSlashes name = name
  allowed : refusal? name = none
  relative : name.toList.head? ≠ some '/'
  named : name ∉ ["", ".", ".."]
  short : ¬nameLimit < name.utf8ByteSize

instance (name : String) : Decidable (IsName name) :=
  decidable_of_iff
    (components name = [name] ∧ withoutSlashes name = name ∧ refusal? name = none ∧ name.toList.head? ≠ some '/' ∧
      name ∉ ["", ".", ".."] ∧ ¬nameLimit < name.utf8ByteSize)
    ⟨fun ⟨alone, whole, allowed, relative, named, short⟩ => ⟨alone, whole, allowed, relative, named, short⟩,
      fun h => ⟨h.alone, h.whole, h.allowed, h.relative, h.named, h.short⟩⟩

section Names

variable {name : String}

theorem IsName.start (h : IsName name) : files.start name = files.current := if_neg h.relative

theorem IsName.enter (h : IsName name) (there : files.node? place = some .directory) :
    files.enter place name = .ok (place ++ [name]) := by
  have named := h.named
  simp only [List.mem_cons, List.not_mem_nil, or_false, not_or] at named
  simp only [Files.enter, requireDirectory_eq_ok.mpr there, named, h.short, or_false, if_false]

theorem IsName.targets (h : IsName name) (there : files.node? files.current = some .directory) :
    files.Targets name files.current (files.current ++ [name]) where
  whole := h.whole
  outer := by
    rw [h.start, h.alone]
    rfl
  named := by
    rw [h.alone]
    exact h.named
  last := by
    rw [h.alone]
    exact h.enter there

theorem IsName.read_file (h : IsName name) (there : files.node? files.current = some .directory)
    (found : files.node? (files.current ++ [name]) = some (.file bytes)) : files.read name = .ok bytes := by
  simp only [read, h.allowed, (h.targets there).reached, found]

theorem IsName.read_none (h : IsName name) (there : files.node? files.current = some .directory)
    (absent : files.node? (files.current ++ [name]) = none) : files.read name = .error .notFound := by
  simp only [read, h.allowed, (h.targets there).reached, absent]

theorem IsName.writable (h : IsName name) (there : files.node? files.current = some .directory)
    (free : files.node? (files.current ++ [name]) ≠ some .directory) : Storage.Writable files name := fun bytes =>
  congrArg Prod.fst ((h.targets there).write h.allowed free bytes)

end Names

/-! ### One file -/

def single (name : String) (bytes : ByteArray) : Files := empty.put ["work", name] (.file bytes)

theorem node?_single (name : String) (bytes : ByteArray) (place : Place) :
    (single name bytes).node? place = if place = ["work", name] then some (.file bytes) else empty.node? place :=
  node?_put (List.cons_ne_nil _ _) _ place

theorem current_single (name : String) (bytes : ByteArray) :
    (single name bytes).node? (single name bytes).current = some .directory := by
  rw [show (single name bytes).current = ["work"] from rfl, node?_single, if_neg (by simp)]
  rfl

theorem node?_single_of_ne {name other : String} (apart : other ≠ name) (bytes : ByteArray) :
    (single name bytes).node? ((single name bytes).current ++ [other]) = none := by
  rw [show (single name bytes).current ++ [other] = ["work", other] from rfl, node?_single,
    if_neg (by simpa using apart)]
  simp [node?, empty]

section Single

variable {name other : String}

theorem IsName.read_single (h : IsName name) (bytes : ByteArray) : (single name bytes).read name = .ok bytes := by
  apply h.read_file (current_single name bytes)
  rw [node?_single, if_pos (show (single name bytes).current ++ [name] = ["work", name] from rfl)]

theorem IsName.read_single_of_ne (h : IsName other) (apart : other ≠ name) (bytes : ByteArray) :
    (single name bytes).read other = .error .notFound :=
  h.read_none (current_single name bytes) (node?_single_of_ne apart bytes)

theorem IsName.writable_single (h : IsName other) (name : String) (bytes : ByteArray) :
    Storage.Writable (single name bytes) other := by
  apply h.writable (current_single name bytes)
  by_cases same : other = name
  · rw [same, node?_single, if_pos (show (single name bytes).current ++ [name] = ["work", name] from rfl)]
    nofun
  · rw [node?_single_of_ne same]
    nofun

end Single

end Files

end DotMatrix
