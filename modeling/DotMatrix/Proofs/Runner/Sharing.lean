import DotMatrix.Proofs.Runner.Path
import DotMatrix.Proofs.Runner.Storage

/-!
Which files a write can change. Two paths share a file when what is written under the first is read under the second,
and a write spares all paths that do not share its file. In a tree without links the paths of one file end in its name.
-/

namespace DotMatrix

namespace Storage

variable {σ : Type} [Storage (StateM σ)]

def found (files : σ) (path : String) : Option ByteArray := (contents files path).toOption

end Storage

open Storage in
class FramedStorage (σ : Type) [Storage (StateM σ)] extends LawfulStorage σ where
  /-- What is written under the first path is read under the second. -/
  Shares : σ → String → String → Prop
  shares_of_written : ∀ {files : σ} {path : String} {bytes : ByteArray} {first second : String},
    Shares (written files path bytes).2 first second → Shares files first second
  found_written : ∀ {files : σ} {path : String} {bytes : ByteArray} {other : String},
    ¬Shares files path other → found (written files path bytes).2 other = found files other

open FramedStorage in
/-- Paths that share a file end in its name, as they do where there are no links. -/
def Storage.NamesTell {σ : Type} [Storage (StateM σ)] [FramedStorage σ] (files : σ) : Prop :=
  ∀ first second, Shares files first second →
    Path.lastName first = Path.lastName second ∧ Path.lastName first ∉ Path.directoryNames

namespace Files

variable {files before after : Files} {place inner : Place} {path first second other : String} {bytes : ByteArray}

def Shares (files : Files) (first second : String) : Prop :=
  ∃ parent place, files.Targets first parent place ∧
    files.enterAll (files.start second) (components second) = .ok place ∧ files.node? place ≠ some .directory

/-! ### What a write leaves -/

theorem keepsDirectories_back (files : Files) (path : String) (bytes : ByteArray) :
    KeepsDirectories (files.write path bytes).2 files where
  current := (keepsDirectories_write files path bytes).current.symm
  stays _ there := Classical.byContradiction fun free => node?_write_ne free path bytes there

theorem KeepsDirectories.start (h : KeepsDirectories before after) (path : String) :
    after.start path = before.start path := by
  rw [Files.start, Files.start, h.current]

theorem KeepsDirectories.reached (h : KeepsDirectories before after)
    (reached : before.enterAll (before.start path) (components path) = .ok place) :
    after.enterAll (after.start path) (components path) = .ok place := by
  rw [h.start]
  exact h.enterAll reached

theorem shares_of_write (shared : (files.write path bytes).2.Shares first second) : files.Shares first second := by
  obtain ⟨parent, place, targets, reached, free⟩ := shared
  have back := keepsDirectories_back files path bytes
  exact ⟨parent, place, back.targets targets, back.reached reached,
    fun there => free ((keepsDirectories_write files path bytes).stays place there)⟩

theorem read_eq_ok_iff : files.read path = .ok bytes ↔ refusal? path = none ∧ ∃ place,
    files.enterAll (files.start path) (components path) = .ok place ∧ files.node? place = some (.file bytes) := by
  unfold read
  constructor
  · intro found
    split at found
    next => cases found
    next allowed =>
      split at found
      next => cases found
      next place reached =>
        split at found
        next => cases found
        next => cases found
        next there =>
          cases found
          exact ⟨allowed, place, reached, there⟩
  · rintro ⟨allowed, place, reached, there⟩
    simp only [allowed, reached, there]

theorem node?_write_of_not_shares (apart : ¬files.Shares path other)
    (reached : files.enterAll (files.start other) (components other) = .ok place) :
    (files.write path bytes).2.node? place = files.node? place := by
  have outcome := files.write_outcome path bytes
  generalize files.write path bytes = x at outcome ⊢
  cases outcome with
  | refused => rfl
  | @stored parent written _ targets free =>
    -- read at the place of the write, the file would be shared
    have elsewhere : place ≠ written := fun same => apart ⟨parent, written, targets, same ▸ reached, free⟩
    rw [node?_put targets.filled, if_neg elsewhere]

theorem read_write_eq_ok_iff (apart : ¬files.Shares path other) (bytes found : ByteArray) :
    (files.write path bytes).2.read other = .ok found ↔ files.read other = .ok found := by
  rw [read_eq_ok_iff, read_eq_ok_iff]
  refine and_congr_right fun _ => exists_congr fun place => ?_
  constructor
  · rintro ⟨reached, there⟩
    have before := (keepsDirectories_back files path bytes).reached reached
    exact ⟨before, (node?_write_of_not_shares apart before).symm.trans there⟩
  · rintro ⟨reached, there⟩
    exact ⟨(keepsDirectories_write files path bytes).reached reached,
      (node?_write_of_not_shares apart reached).trans there⟩

theorem toOption_read_write (apart : ¬files.Shares path other) (bytes : ByteArray) :
    ((files.write path bytes).2.read other).toOption = (files.read other).toOption := by
  have same (found : ByteArray) := read_write_eq_ok_iff apart bytes found
  generalize (files.write path bytes).2.read other = later at same ⊢
  cases later with
  | ok found => rw [(same found).mp rfl]
  | error =>
    cases now : files.read other with
    | ok found => cases (same found).mpr now
    | error => rfl

theorem found_eq (files : Files) (path : String) : Storage.found files path = (files.read path).toOption := rfl

theorem written_eq (files : Files) (path : String) (bytes : ByteArray) :
    Storage.written files path bytes = files.write path bytes := rfl

instance framedStorage : FramedStorage Files where
  Shares := Shares
  shares_of_written shared := by
    rw [written_eq] at shared
    exact shares_of_write shared
  found_written apart := by
    rw [found_eq, found_eq, written_eq]
    exact toOption_read_write apart _

/-! ### Names -/

/-- Above every directory there is one. -/
def IsTree (files : Files) : Prop :=
  ∀ place, files.node? place = some .directory → files.node? place.dropLast = some .directory

theorem getLast?_splitOn (text : List Char) : (text.splitOn '/').getLast? = some (text.rtakeWhile (· != '/')) := by
  have slashless := Path.slash_not_mem_rtakeWhile text
  have parts : text.rdropWhile (· != '/') ++ text.rtakeWhile (· != '/') = text := List.rdropWhile_append_rtakeWhile
  have stop := List.rdropWhile_last_not (· != '/') text
  generalize text.rtakeWhile (· != '/') = name at slashless parts
  rcases List.eq_nil_or_concat' (text.rdropWhile (· != '/')) with bare | ⟨directory, c, ends⟩
  · rw [bare, List.nil_append] at parts
    rw [← parts, List.splitOn_eq_singleton slashless, List.getLast?_singleton]
  · have slash : c = '/' := by simpa [ends] using stop
    rw [ends, slash, List.append_assoc, List.singleton_append] at parts
    rw [← parts, List.splitOn_append_cons_self, List.splitOn_eq_singleton slashless, List.getLast?_concat]

theorem getLast?_components (path : String) : (components path).getLast? = some (Path.lastName path) := by
  rw [components, List.getLast?_map, getLast?_splitOn]
  rfl

theorem getLastD_components (path : String) : (components path).getLastD "" = Path.lastName path := by
  rw [List.getLastD_eq_getLast?, getLast?_components, Option.getD_some]

theorem enterAll_append {front back : List String} (entered : files.enterAll place (front ++ back) = .ok inner) :
    ∃ middle, files.enterAll place front = .ok middle ∧ files.enterAll middle back = .ok inner := by
  induction front generalizing place with
  | nil => exact ⟨place, rfl, entered⟩
  | cons component front ih =>
    simp only [List.cons_append, enterAll] at entered ⊢
    cases first : files.enter place component with
    | error =>
      rw [first] at entered
      cases entered
    | ok next =>
      rw [first] at entered
      exact ih entered

/-- A component that does not lead to a directory is the name of what it leads to. -/
theorem IsTree.enter (tree : files.IsTree) {component : String} (entered : files.enter place component = .ok inner)
    (free : files.node? inner ≠ some .directory) :
    inner = place ++ [component] ∧ component ∉ Path.directoryNames := by
  have there := requireDirectory_of_enter entered
  simp only [Files.enter, there] at entered
  have directory := requireDirectory_eq_ok.mp there
  split at entered
  next =>
    cases entered
    exact absurd directory free
  next plain =>
    split at entered
    next =>
      cases entered
      exact absurd (tree place directory) free
    next other =>
      split at entered
      next => cases entered
      next =>
        cases entered
        simp only [not_or] at plain
        exact ⟨rfl, by simp [Path.directoryNames, plain, other]⟩

theorem isTree_empty : empty.IsTree := by
  intro place there
  by_cases above : place = []
  · rw [above]
    rfl
  · simp only [node?, if_neg above, empty, List.find?_cons] at there
    split at there
    next work =>
      rw [← of_decide_eq_true work]
      rfl
    next => cases there

theorem IsTree.put (tree : files.IsTree) (filled : place ≠ []) (free : files.node? place ≠ some .directory)
    (bytes : ByteArray) : (files.put place (.file bytes)).IsTree := by
  intro other there
  rw [node?_put filled] at there
  split at there
  next => cases there
  next => exact (keepsDirectories_put filled free bytes).stays _ (tree other there)

theorem isTree_single (name : String) (bytes : ByteArray) : (single name bytes).IsTree := by
  apply isTree_empty.put (List.cons_ne_nil _ _)
  rw [show empty.node? ["work", name] = none from rfl]
  nofun

theorem namesTell_of_isTree (tree : files.IsTree) : Storage.NamesTell files := by
  rintro first second ⟨parent, place, targets, reached, free⟩
  have last := getLastD_components first ▸ targets.last
  obtain ⟨place_eq, named⟩ := tree.enter last free
  have parts := List.dropLast_append_getLast? _ (getLast?_components second)
  rw [← parts] at reached
  obtain ⟨above, _, entered⟩ := enterAll_append reached
  simp only [enterAll] at entered
  split at entered
  next => cases entered
  next next_eq =>
    cases entered
    obtain ⟨place_eq', _⟩ := tree.enter next_eq free
    have same := List.append_inj_right' (place_eq.symm.trans place_eq') rfl
    exact ⟨List.singleton_inj.mp same, named⟩

end Files

end DotMatrix
