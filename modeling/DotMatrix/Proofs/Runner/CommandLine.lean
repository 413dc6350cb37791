import DotMatrix.Proofs.Runner.Arguments

/-!
Which command lines are accepted and what they say, which error the others are refused with, and how options are
written as arguments. Written in any order, options are read back.
-/

namespace DotMatrix.RunOptions

def Usual (environment : Option String) (usual : Nat) : Prop := FramesFrom environment usualFrames usual

/-- What the items of a command line say, all of them in order and one of them a ROM. -/
structure Describes (environment : Option String) (items : List Item) (options : RunOptions) : Prop where
  inOrder : ∀ item ∈ items, item.InOrder
  rom : romPaths items = [options.romPath]
  save : options.savePath = lastValue .save items
  dump : options.dumpPath = lastValue .dump items
  frames : ∃ usual, Usual environment usual ∧ FramesFrom (lastValue .frames items) usual options.frames

/-- The first thing that is wrong with a command line: the environment, then the first item that offends, then that
there is no ROM. -/
inductive Reports (arguments : List String) (environment : Option String) : OptionsError → Prop where
  | environment {value : String} {cause : Text.NumberError} (given : environment = some value)
      (fault : FrameFault value cause) : Reports arguments environment (.badEnvironment value cause)
  | item {usual : Nat} {earlier : List Item} {rest : List String} {error : OptionsError}
      (usable : Usual environment usual) (split : arguments = earlier.flatMap Item.words ++ rest)
      (inOrder : ∀ item ∈ earlier, item.InOrder) (single : (romPaths earlier).length ≤ 1)
      (offends : Offends (romPaths earlier ≠ []) rest error) : Reports arguments environment error
  | noRom {usual : Nat} {items : List Item} (usable : Usual environment usual)
      (split : arguments = items.flatMap Item.words) (inOrder : ∀ item ∈ items, item.InOrder)
      (missing : romPaths items = []) : Reports arguments environment .noRom

def toItems (options : RunOptions) : List Item :=
  .rom options.romPath :: .setting .frames (toString options.frames) ::
    ((options.savePath.map (Item.setting .save)).toList ++ (options.dumpPath.map (Item.setting .dump)).toList)

def valueOf (options : RunOptions) : OptionFlag → Option String
  | .save => options.savePath
  | .frames => some (toString options.frames)
  | .dump => options.dumpPath

variable {arguments : List String} {environment : Option String} {options : RunOptions} {error : OptionsError}
  {usual : Nat} {items : List Item}

/-! ### The environment -/

theorem defaultFrames_eq_ok_iff : defaultFrames environment = .ok usual ↔ Usual environment usual := by
  cases environment with
  | none => simp [defaultFrames, Usual, FramesFrom, eq_comm]
  | some value =>
    rw [Usual, FramesFrom, ← parseFrames_eq_ok_iff, defaultFrames]
    cases parseFrames value <;> simp [Except.mapError]

theorem defaultFrames_eq_error_iff : defaultFrames environment = .error error ↔
    ∃ value cause, environment = some value ∧ FrameFault value cause ∧ error = .badEnvironment value cause := by
  cases environment with
  | none => simp [defaultFrames]
  | some value =>
    simp only [defaultFrames, ← parseFrames_eq_error_iff, Option.some.injEq, exists_and_left, exists_eq_left']
    cases parseFrames value <;> simp [Except.mapError, eq_comm]

/-! ### Accepted command lines -/

def blank (usual : Nat) : Draft := { frames := usual }

theorem romPaths_of_filled {final : Draft} (filled : (blank usual).Filled items final) :
    romPaths items = final.rom.toList := filled.rom

theorem describes_of_filled {final : Draft} {romPath : String} (usable : Usual environment usual)
    (filled : (blank usual).Filled items final) (given : final.rom = some romPath) :
    Describes environment items
      { romPath, savePath := final.save, frames := final.frames, dumpPath := final.dump } where
  inOrder := filled.inOrder
  rom := by rw [romPaths_of_filled filled, given, Option.toList_some]
  save := filled.save.trans (Option.or_none)
  dump := filled.dump.trans (Option.or_none)
  frames := ⟨usual, usable, filled.frames⟩

theorem FramesFrom.unique {value : Option String} {otherwise n other : Nat} (h : FramesFrom value otherwise n)
    (h' : FramesFrom value otherwise other) : n = other := by
  cases value with
  | none => exact Eq.trans h (Eq.symm h')
  | some value => exact FrameCount.unique h h'

theorem Describes.unique {other : RunOptions} (h : Describes environment items options)
    (h' : Describes environment items other) : options = other := by
  obtain ⟨_, rom, save, dump, usual, usable, frames⟩ := h
  obtain ⟨_, rom', save', dump', usual', usable', frames'⟩ := h'
  obtain rfl := FramesFrom.unique usable usable'
  cases options
  cases other
  simp only [RunOptions.mk.injEq]
  exact ⟨List.singleton_inj.mp (rom.symm.trans rom'), save.trans save'.symm, frames.unique frames',
    dump.trans dump'.symm⟩

theorem parse_of_fills {final : Draft} {romPath : String} (usable : Usual environment usual)
    (filled : (blank usual).Fills items final) (given : final.rom = some romPath) :
    parse (items.flatMap Item.words) environment =
      .ok { romPath, savePath := final.save, frames := final.frames, dumpPath := final.dump } := by
  have read : readArguments { frames := usual } (items.flatMap Item.words) = .ok final :=
    readArguments_eq_ok_iff.mpr ⟨items, rfl, filled⟩
  simp only [parse, defaultFrames_eq_ok_iff.mpr usable, read, given]

theorem parse_of_describes (described : Describes environment items options) :
    parse (items.flatMap Item.words) environment = .ok options := by
  obtain ⟨usual, usable, _⟩ := described.frames
  have single : ((blank usual).rom.toList ++ romPaths items).length ≤ 1 := by
    rw [described.rom]
    exact le_rfl
  obtain ⟨final, filled⟩ := Draft.exists_fills (blank usual) described.inOrder single
  have given : final.rom = some options.romPath := by
    have paths := (romPaths_of_filled filled.filled).symm.trans described.rom
    rwa [Option.toList_eq_singleton_iff] at paths
  rw [parse_of_fills usable filled given, (describes_of_filled usable filled.filled given).unique described]

theorem parse_outcome (arguments : List String) (environment : Option String) :
    match parse arguments environment with
    | .ok options => ∃ items, arguments = items.flatMap Item.words ∧ Describes environment items options
    | .error error => Reports arguments environment error := by
  cases started : defaultFrames environment with
  | error error =>
    obtain ⟨value, cause, given, fault, rfl⟩ := defaultFrames_eq_error_iff.mp started
    simp only [parse, started]
    exact .environment given fault
  | ok usual =>
    have usable := defaultFrames_eq_ok_iff.mp started
    cases read : readArguments { frames := usual } arguments with
    | error error =>
      obtain ⟨earlier, rest, reached, split, filled, offends⟩ := readArguments_eq_error_iff.mp read
      have paths := romPaths_of_filled filled.filled
      simp only [parse, started, read]
      refine .item usable split filled.filled.inOrder ?_ ?_
      · rw [paths]
        exact Option.length_toList_le
      · simpa [paths] using offends
    | ok final =>
      obtain ⟨items, split, filled⟩ := readArguments_eq_ok_iff.mp read
      simp only [parse, started, read]
      cases given : final.rom with
      | none =>
        refine .noRom usable split filled.filled.inOrder ?_
        rw [romPaths_of_filled filled.filled, given, Option.toList_none]
      | some romPath => exact ⟨items, split, describes_of_filled usable filled.filled given⟩

theorem parse_of_reports (reported : Reports arguments environment error) :
    parse arguments environment = .error error := by
  cases reported with
  | environment given fault =>
    simp only [parse, defaultFrames_eq_error_iff.mpr ⟨_, _, given, fault, rfl⟩]
  | @item usual earlier rest _ usable split inOrder single offends =>
    obtain ⟨reached, filled⟩ := Draft.exists_fills (blank usual) inOrder single
    have paths := romPaths_of_filled filled.filled
    have read : readArguments { frames := usual } arguments = .error error := by
      refine readArguments_eq_error_iff.mpr ⟨earlier, rest, reached, split, filled, ?_⟩
      simpa [paths] using offends
    simp only [parse, defaultFrames_eq_ok_iff.mpr usable, read]
  | @noRom usual items usable split inOrder missing =>
    have single : ((blank usual).rom.toList ++ romPaths items).length ≤ 1 := by
      rw [missing]
      exact Nat.zero_le 1
    obtain ⟨final, filled⟩ := Draft.exists_fills (blank usual) inOrder single
    have read : readArguments { frames := usual } arguments = .ok final :=
      readArguments_eq_ok_iff.mpr ⟨items, split, filled⟩
    have free : final.rom = none := by
      have paths := (romPaths_of_filled filled.filled).symm.trans missing
      rwa [Option.toList_eq_nil_iff] at paths
    simp only [parse, defaultFrames_eq_ok_iff.mpr usable, read, free]

/-! ### Written options -/

theorem romPaths_toItems (options : RunOptions) : romPaths options.toItems = [options.romPath] := by
  obtain ⟨romPath, save, frames, dump⟩ := options
  cases save <;> cases dump <;> rfl

theorem values_toItems (options : RunOptions) (flag : OptionFlag) :
    options.toItems.filterMap (Item.value? flag) = (options.valueOf flag).toList := by
  obtain ⟨romPath, save, frames, dump⟩ := options
  cases flag <;> cases save <;> cases dump <;> rfl

theorem inOrder_toItems (small : options.frames < 2 ^ 32) (plain : ¬Dashed options.romPath) :
    ∀ item ∈ options.toItems, item.InOrder := by
  intro item listed
  simp only [toItems, List.mem_cons, List.mem_append, Option.mem_toList, Option.map_eq_some_iff] at listed
  rcases listed with rfl | rfl | ⟨path, _, rfl⟩ | ⟨path, _, rfl⟩
  · exact plain
  · exact ⟨options.frames, frameCount_toString small⟩
  · trivial
  · trivial

theorem lastValue_of_perm (perm : items.Perm options.toItems) (flag : OptionFlag) :
    lastValue flag items = options.valueOf flag := by
  have values := perm.filterMap (Item.value? flag)
  rw [values_toItems] at values
  -- an order of at most one value is that value
  cases given : options.valueOf flag with
  | none =>
    rw [given] at values
    rw [lastValue, values.eq_nil]
    rfl
  | some value =>
    rw [given] at values
    rw [lastValue, values.eq_singleton]
    rfl

theorem describes_of_perm (small : options.frames < 2 ^ 32) (plain : ¬Dashed options.romPath)
    (usable : Usual environment usual) (perm : items.Perm options.toItems) : Describes environment items options where
  inOrder item listed := inOrder_toItems small plain item (perm.mem_iff.mp listed)
  rom := by
    have paths := perm.filterMap Item.rom?
    rw [show options.toItems.filterMap Item.rom? = _ from romPaths_toItems options] at paths
    exact paths.eq_singleton
  save := (lastValue_of_perm perm .save).symm
  dump := (lastValue_of_perm perm .dump).symm
  frames := by
    rw [lastValue_of_perm perm]
    exact ⟨usual, usable, frameCount_toString small⟩

/-- Arguments are accepted exactly when they are items in order with one ROM among them and the environment can be
used; the items are then the only ones, and the options are what they say. Otherwise the error is the first that the
environment, the items from left to right and the missing ROM give rise to. Options that can be written are read back
from any order of their items. -/
theorem parse_follows_grammar (arguments : List String) (environment : Option String) :
    (∀ options, parse arguments environment = .ok options ↔
      ∃! items, arguments = items.flatMap Item.words ∧ Describes environment items options) ∧
    (∀ error, parse arguments environment = .error error ↔ Reports arguments environment error) ∧
    ∀ (options : RunOptions) (items : List Item) (usual : Nat), options.frames < 2 ^ 32 →
      ¬Dashed options.romPath → Usual environment usual → items.Perm options.toItems →
      parse (items.flatMap Item.words) environment = .ok options := by
  have outcome := parse_outcome arguments environment
  refine ⟨fun options => ⟨fun read => ?_, ?_⟩, fun error => ⟨fun read => ?_, parse_of_reports⟩, ?_⟩
  · rw [read] at outcome
    obtain ⟨items, split, described⟩ := outcome
    refine ⟨items, ⟨split, described⟩, fun others ⟨split', described'⟩ => ?_⟩
    exact flatMap_words_injective described'.inOrder described.inOrder (split'.symm.trans split)
  · rintro ⟨items, ⟨rfl, described⟩, _⟩
    exact parse_of_describes described
  · rwa [read] at outcome
  · intro options items usual small plain usable perm
    exact parse_of_describes (describes_of_perm small plain usable perm)

/-- A flag may be the value of a flag, and the environment gives way to an option. -/
theorem parse_follows_grammar_flag_as_value :
    ["-o", "-f", "game.gb", "-f", "5"] =
      [Item.setting .save "-f", .rom "game.gb", .setting .frames "5"].flatMap Item.words ∧
    parse ["-o", "-f", "game.gb", "-f", "5"] (some " +7 ") =
      .ok { romPath := "game.gb", savePath := some "-f", frames := 5 } := by
  have usable : Usual (some " +7 ") 7 := defaultFrames_eq_ok_iff.mp (by decide)
  exact ⟨by decide, (parse_follows_grammar ["-o", "-f", "game.gb", "-f", "5"] (some " +7 ")).2.2
    { romPath := "game.gb", savePath := some "-f", frames := 5 }
    [.setting .save "-f", .rom "game.gb", .setting .frames "5"] 7 (by decide) (by decide) usable (by decide)⟩

end DotMatrix.RunOptions
