import DotMatrix.Proofs.Runner.FrameCount
import Mathlib.Data.List.Basic

/-!
The grammar of the command line. Arguments are items from left to right: a flag with the argument behind it, or the
path of a ROM. They are accepted when all items are in order and one of them is a ROM, and they are refused for the
first item that is not.
-/

namespace DotMatrix

namespace OptionFlag

theorem ofArgument?_eq_some_iff {argument : String} {flag : OptionFlag} :
    ofArgument? argument = some flag ↔ flag.name = argument := by
  constructor
  · intro found
    rw [ofArgument?] at found
    simpa using List.find?_some found
  · rintro rfl
    cases flag <;> decide

theorem ofArgument?_eq_none_iff {argument : String} :
    ofArgument? argument = none ↔ ∀ flag : OptionFlag, flag.name ≠ argument := by
  simp only [← ofArgument?_eq_some_iff.not, Option.eq_none_iff_forall_ne_some, ne_eq]

end OptionFlag

namespace RunOptions

/-! ### Items -/

def Dashed (argument : String) : Prop := argument.toList.head? = some '-'

instance : DecidablePred Dashed := fun argument => inferInstanceAs (Decidable (argument.toList.head? = some '-'))

theorem dashed_name (flag : OptionFlag) : Dashed flag.name := by
  cases flag <;> decide

theorem ofArgument?_of_plain {argument : String} (plain : ¬Dashed argument) : OptionFlag.ofArgument? argument = none :=
  OptionFlag.ofArgument?_eq_none_iff.mpr fun flag same => plain (same ▸ dashed_name flag)

inductive Item where
  | rom (path : String)
  | setting (flag : OptionFlag) (value : String)
  deriving DecidableEq

namespace Item

def words : Item → List String
  | rom path => [path]
  | setting flag value => [flag.name, value]

/-- An item that is accepted wherever it stands, unless a ROM has been given before. -/
def InOrder : Item → Prop
  | rom path => ¬Dashed path
  | setting .frames value => ∃ n, FrameCount value n
  | setting _ _ => True

def rom? : Item → Option String
  | rom path => some path
  | setting _ _ => none

def value? (flag : OptionFlag) : Item → Option String
  | rom _ => none
  | setting other value => if other = flag then some value else none

end Item

def romPaths (items : List Item) : List String := items.filterMap Item.rom?

def lastValue (flag : OptionFlag) (items : List Item) : Option String := (items.filterMap (Item.value? flag)).getLast?

/-- The number of frames that a text gives, if there is one. -/
def FramesFrom : Option String → Nat → Nat → Prop
  | none, otherwise, n => n = otherwise
  | some value, _, n => FrameCount value n

/-- What is wrong with the arguments from some item on, where a ROM may have been given before. -/
inductive Offends (romGiven : Prop) : List String → OptionsError → Prop where
  | missingValue (flag : OptionFlag) : Offends romGiven [flag.name] (.missingValue flag)
  | badFrames {value : String} {cause : Text.NumberError} {rest : List String} (fault : FrameFault value cause) :
      Offends romGiven (OptionFlag.frames.name :: value :: rest) (.badFrames value cause)
  | unknownOption {argument : String} {rest : List String} (dashed : Dashed argument)
      (unnamed : ∀ flag : OptionFlag, flag.name ≠ argument) :
      Offends romGiven (argument :: rest) (.unknownOption argument)
  | unexpected {argument : String} {rest : List String} (plain : ¬Dashed argument) (given : romGiven) :
      Offends romGiven (argument :: rest) (.unexpected argument)

variable {flag : OptionFlag} {value path : String} {item : Item} {items : List Item}

@[simp]
theorem romPaths_nil : romPaths [] = [] := rfl

@[simp]
theorem romPaths_rom : romPaths (.rom path :: items) = path :: romPaths items := rfl

@[simp]
theorem romPaths_setting : romPaths (.setting flag value :: items) = romPaths items := rfl

@[simp]
theorem lastValue_nil : lastValue flag [] = none := rfl

@[simp]
theorem lastValue_rom : lastValue flag (.rom path :: items) = lastValue flag items := rfl

@[simp]
theorem lastValue_setting_self :
    lastValue flag (.setting flag value :: items) = (lastValue flag items).or (some value) := by
  have given : (Item.setting flag value).value? flag = some value := if_pos rfl
  rw [lastValue, List.filterMap_cons_some given, List.getLast?_cons, lastValue]
  cases (items.filterMap (Item.value? flag)).getLast? <;> rfl

theorem lastValue_setting_of_ne {other : OptionFlag} (apart : other ≠ flag) :
    lastValue flag (.setting other value :: items) = lastValue flag items := by
  have other : (Item.setting other value).value? flag = none := if_neg apart
  rw [lastValue, List.filterMap_cons_none other, lastValue]

/-- The first argument tells whether a ROM or a setting comes first, so that arguments are split in one way only. -/
theorem flatMap_words_injective {others : List Item} (inOrder : ∀ item ∈ items, item.InOrder)
    (inOrder' : ∀ item ∈ others, item.InOrder) (same : items.flatMap Item.words = others.flatMap Item.words) :
    items = others := by
  induction items generalizing others with
  | nil =>
    cases others with
    | nil => rfl
    | cons other others => cases other <;> cases same
  | cons item items ih =>
    cases others with
    | nil => cases item <;> cases same
    | cons other others =>
      obtain ⟨first, later⟩ := List.forall_mem_cons.mp inOrder
      obtain ⟨first', later'⟩ := List.forall_mem_cons.mp inOrder'
      cases item with
      | rom path =>
        cases other with
        | rom path' =>
          obtain ⟨paths, rest⟩ := List.cons.inj same
          rw [paths, ih later later' rest]
        | setting flag value =>
          obtain ⟨named, _⟩ := List.cons.inj same
          exact absurd (named ▸ dashed_name flag) first
      | setting flag value =>
        cases other with
        | rom path =>
          obtain ⟨named, _⟩ := List.cons.inj same
          exact absurd (named ▸ dashed_name flag) first'
        | setting flag' value' =>
          obtain ⟨named, behind⟩ := List.cons.inj same
          obtain ⟨values, rest⟩ := List.cons.inj behind
          have known : OptionFlag.ofArgument? flag.name = some flag := OptionFlag.ofArgument?_eq_some_iff.mpr rfl
          obtain rfl : flag = flag' :=
            Option.some.inj (known.symm.trans (OptionFlag.ofArgument?_eq_some_iff.mpr named.symm))
          rw [values, ih later later' rest]

/-! ### Reading items -/

namespace Draft

inductive Takes (draft : Draft) : Item → Draft → Prop where
  | rom {path : String} (plain : ¬Dashed path) (free : draft.rom = none) :
      Takes draft (.rom path) { draft with rom := some path }
  | setting {flag : OptionFlag} {value : String} {next : Draft} (given : draft.give flag value = .ok next) :
      Takes draft (.setting flag value) next

inductive Fills : Draft → List Item → Draft → Prop where
  | nil (draft : Draft) : Fills draft [] draft
  | cons {draft next final : Draft} {item : Item} {items : List Item} (first : draft.Takes item next)
      (others : Fills next items final) : Fills draft (item :: items) final

structure Filled (draft : Draft) (items : List Item) (final : Draft) : Prop where
  inOrder : ∀ item ∈ items, item.InOrder
  rom : draft.rom.toList ++ romPaths items = final.rom.toList
  save : final.save = (lastValue .save items).or draft.save
  dump : final.dump = (lastValue .dump items).or draft.dump
  frames : FramesFrom (lastValue .frames items) draft.frames final.frames

variable {draft next final : Draft}

theorem Filled.refl (draft : Draft) : draft.Filled [] draft := ⟨nofun, List.append_nil _, rfl, rfl, rfl⟩

theorem Filled.cons_rom (plain : ¬Dashed path) (free : draft.rom = none)
    (others : { draft with rom := some path }.Filled items final) : draft.Filled (.rom path :: items) final where
  inOrder := List.forall_mem_cons.mpr ⟨plain, others.inOrder⟩
  rom := by
    rw [free]
    exact others.rom
  save := others.save
  dump := others.dump
  frames := others.frames

theorem Filled.cons_save (others : { draft with save := some value }.Filled items final) :
    draft.Filled (.setting .save value :: items) final where
  inOrder := List.forall_mem_cons.mpr ⟨trivial, others.inOrder⟩
  rom := others.rom
  save := by
    rw [lastValue_setting_self, others.save, Option.or_assoc]
    rfl
  dump := by
    rw [lastValue_setting_of_ne (by decide), others.dump]
  frames := by
    rw [lastValue_setting_of_ne (by decide)]
    exact others.frames

theorem Filled.cons_dump (others : { draft with dump := some value }.Filled items final) :
    draft.Filled (.setting .dump value :: items) final where
  inOrder := List.forall_mem_cons.mpr ⟨trivial, others.inOrder⟩
  rom := others.rom
  save := by
    rw [lastValue_setting_of_ne (by decide), others.save]
  dump := by
    rw [lastValue_setting_self, others.dump, Option.or_assoc]
    rfl
  frames := by
    rw [lastValue_setting_of_ne (by decide)]
    exact others.frames

theorem Filled.cons_frames {n : Nat} (count : FrameCount value n)
    (others : { draft with frames := n }.Filled items final) :
    draft.Filled (.setting .frames value :: items) final where
  inOrder := List.forall_mem_cons.mpr ⟨⟨n, count⟩, others.inOrder⟩
  rom := others.rom
  save := by
    rw [lastValue_setting_of_ne (by decide), others.save]
  dump := by
    rw [lastValue_setting_of_ne (by decide), others.dump]
  frames := by
    have later := others.frames
    rw [lastValue_setting_self]
    cases last : lastValue .frames items with
    | none =>
      rw [last] at later
      cases later
      exact count
    | some =>
      rw [last] at later
      exact later

theorem give_frames_eq_ok : draft.give .frames value = .ok next ↔
    ∃ n, FrameCount value n ∧ next = { draft with frames := n } := by
  simp only [give, ← parseFrames_eq_ok_iff]
  cases parseFrames value <;> simp [eq_comm]

theorem Fills.filled (h : draft.Fills items final) : draft.Filled items final := by
  induction h with
  | nil draft => exact .refl draft
  | cons first _ ih =>
    cases first with
    | rom plain free => exact .cons_rom plain free ih
    | @setting flag value next given =>
      cases flag with
      | save =>
        cases given
        exact .cons_save ih
      | dump =>
        cases given
        exact .cons_dump ih
      | frames =>
        obtain ⟨n, count, rfl⟩ := give_frames_eq_ok.mp given
        exact .cons_frames count ih

theorem exists_give (draft : Draft) (inOrder : (Item.setting flag value).InOrder) :
    ∃ next, draft.give flag value = .ok next ∧ next.rom = draft.rom := by
  cases flag with
  | save => exact ⟨_, rfl, rfl⟩
  | dump => exact ⟨_, rfl, rfl⟩
  | frames =>
    obtain ⟨n, count⟩ := inOrder
    exact ⟨_, give_frames_eq_ok.mpr ⟨n, count, rfl⟩, rfl⟩

theorem exists_fills (draft : Draft) (inOrder : ∀ item ∈ items, item.InOrder)
    (single : (draft.rom.toList ++ romPaths items).length ≤ 1) : ∃ final, draft.Fills items final := by
  -- the draft stands for the items before: a ROM in it counts with those that follow
  induction items generalizing draft with
  | nil => exact ⟨draft, .nil draft⟩
  | cons item items ih =>
    obtain ⟨first, others⟩ := List.forall_mem_cons.mp inOrder
    cases item with
    | rom path =>
      rw [romPaths_rom, List.length_append, List.length_cons] at single
      have free : draft.rom = none := by
        cases given : draft.rom with
        | none => rfl
        | some other =>
          rw [given, Option.toList_some, List.length_singleton] at single
          omega
      have left : ([path] ++ romPaths items).length ≤ 1 := by
        rw [List.length_append, List.length_singleton]
        omega
      obtain ⟨final, filled⟩ := ih { draft with rom := some path } others left
      exact ⟨final, .cons (.rom first free) filled⟩
    | setting flag value =>
      obtain ⟨next, given, same⟩ := exists_give draft first
      obtain ⟨final, filled⟩ := ih next others (same ▸ single)
      exact ⟨final, .cons (.setting given) filled⟩

end Draft

variable {draft final : Draft} {words : List String} {error : OptionsError}

theorem readArguments_rom (plain : ¬Dashed path) (free : draft.rom = none) (rest : List String) :
    readArguments draft (path :: rest) = readArguments { draft with rom := some path } rest := by
  have undashed : ¬path.toList.head? = some '-' := plain
  rw [readArguments.eq_def]
  simp only [ofArgument?_of_plain plain, if_neg undashed, free, Option.isSome_none, Bool.false_eq_true, if_false]

theorem readArguments_setting {next : Draft} (given : draft.give flag value = .ok next) (rest : List String) :
    readArguments draft (flag.name :: value :: rest) = readArguments next rest := by
  rw [readArguments.eq_def]
  simp only [OptionFlag.ofArgument?_eq_some_iff.mpr rfl, given]

theorem readArguments_of_fills (filled : draft.Fills items final) (rest : List String) :
    readArguments draft (items.flatMap Item.words ++ rest) = readArguments final rest := by
  induction filled with
  | nil => rfl
  | cons first _ ih =>
    rw [List.flatMap_cons, List.append_assoc, ← ih]
    cases first with
    | rom plain free => exact readArguments_rom plain free _
    | setting given => exact readArguments_setting given _

theorem give_frames_eq_error {cause : Text.NumberError} (fault : FrameFault value cause) :
    draft.give .frames value = .error (.badFrames value cause) := by
  simp only [Draft.give, parseFrames_eq_error_iff.mpr fault]

theorem readArguments_of_offends (offends : Offends (draft.rom ≠ none) words error) :
    readArguments draft words = .error error := by
  rw [readArguments.eq_def]
  cases offends with
  | missingValue flag => simp only [OptionFlag.ofArgument?_eq_some_iff.mpr rfl]
  | badFrames fault => simp only [OptionFlag.ofArgument?_eq_some_iff.mpr rfl, give_frames_eq_error fault]
  | unknownOption dashed unnamed =>
    have begins : _ = some '-' := dashed
    simp only [OptionFlag.ofArgument?_eq_none_iff.mpr unnamed, if_pos begins]
  | @unexpected argument _ plain given =>
    have undashed : ¬argument.toList.head? = some '-' := plain
    simp only [ofArgument?_of_plain plain, if_neg undashed, if_pos (Option.isSome_iff_ne_none.mpr given)]

/-- How reading ends: all arguments are items, or some are and then one follows that offends. -/
inductive Ending (draft : Draft) (words : List String) : Except OptionsError Draft → Prop where
  | filled (items : List Item) {final : Draft} (split : words = items.flatMap Item.words)
      (filled : draft.Fills items final) : Ending draft words (.ok final)
  | offended (items : List Item) {rest : List String} {reached : Draft} {error : OptionsError}
      (split : words = items.flatMap Item.words ++ rest) (filled : draft.Fills items reached)
      (offends : Offends (reached.rom ≠ none) rest error) : Ending draft words (.error error)

theorem Ending.cons {next : Draft} {result : Except OptionsError Draft} (first : draft.Takes item next)
    (others : Ending next words result) : Ending draft (item.words ++ words) result := by
  cases others with
  | filled items split filled =>
    refine .filled (item :: items) ?_ (.cons first filled)
    rw [split, List.flatMap_cons]
  | offended items split filled offends =>
    refine .offended (item :: items) ?_ (.cons first filled) offends
    rw [split, List.flatMap_cons, List.append_assoc]

theorem Ending.of_offends (offends : Offends (draft.rom ≠ none) words error) : Ending draft words (.error error) :=
  .offended [] rfl (.nil draft) offends

theorem give_eq_error (failed : draft.give flag value = .error error) :
    ∃ cause, flag = .frames ∧ FrameFault value cause ∧ error = .badFrames value cause := by
  cases flag with
  | save => cases failed
  | dump => cases failed
  | frames =>
    simp only [Draft.give] at failed
    split at failed
    next => cases failed
    next cause found =>
      cases failed
      exact ⟨cause, rfl, parseFrames_eq_error_iff.mp found, rfl⟩

theorem ending_readArguments (draft : Draft) (words : List String) :
    Ending draft words (readArguments draft words) := by
  -- an item that is taken goes in front of how the rest ends, and any other ends it
  fun_induction readArguments draft words with
  | case1 draft => exact .filled [] rfl (.nil draft)
  | case2 draft argument flag found =>
    cases OptionFlag.ofArgument?_eq_some_iff.mp found
    exact .of_offends (.missingValue flag)
  | case3 draft argument flag found value rest error failed =>
    cases OptionFlag.ofArgument?_eq_some_iff.mp found
    obtain ⟨cause, rfl, fault, rfl⟩ := give_eq_error failed
    exact .of_offends (.badFrames fault)
  | case4 draft argument flag found value rest next given ih =>
    cases OptionFlag.ofArgument?_eq_some_iff.mp found
    exact ih.cons (.setting given)
  | case5 draft argument rest unnamed dashed =>
    exact .of_offends (.unknownOption dashed (OptionFlag.ofArgument?_eq_none_iff.mp unnamed))
  | case6 draft argument rest unnamed plain taken =>
    exact .of_offends (.unexpected plain (Option.isSome_iff_ne_none.mp taken))
  | case7 draft argument rest unnamed plain free ih =>
    exact ih.cons (.rom plain (Option.not_isSome_iff_eq_none.mp free))

theorem readArguments_eq_ok_iff : readArguments draft words = .ok final ↔
    ∃ items, words = items.flatMap Item.words ∧ draft.Fills items final := by
  constructor
  · intro read
    have ending := ending_readArguments draft words
    rw [read] at ending
    cases ending with
    | filled items split filled => exact ⟨items, split, filled⟩
  · rintro ⟨items, rfl, filled⟩
    have read := readArguments_of_fills filled []
    rw [List.append_nil] at read
    exact read

theorem readArguments_eq_error_iff : readArguments draft words = .error error ↔ ∃ items rest reached,
    words = items.flatMap Item.words ++ rest ∧ draft.Fills items reached ∧ Offends (reached.rom ≠ none) rest error := by
  constructor
  · intro read
    have ending := ending_readArguments draft words
    rw [read] at ending
    cases ending with
    | offended items split filled offends => exact ⟨items, _, _, split, filled, offends⟩
  · rintro ⟨items, rest, reached, rfl, filled, offends⟩
    rw [readArguments_of_fills filled, readArguments_of_offends offends]

end RunOptions

end DotMatrix
