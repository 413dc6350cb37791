import DotMatrix.Runner.Path
import Mathlib.Data.List.DropRight

/-!
The name at the end of a path, and what another extension makes of it. A path whose name is kept by the change is kept
as a whole, and had that extension before.
-/

namespace DotMatrix.Path

def lastName (path : String) : String := String.ofList (path.toList.rtakeWhile (· != '/'))

def directoryNames : List String := ["", ".", ".."]

def extension? (path : String) : Option String :=
  let name := (splitName path.toList).2
  if isNameless name then none else (splitExtension name).2.map String.ofList

variable {path extension : String} {before name stem chars : List Char}

theorem rtakeWhile_append (p : Char → Bool) (inside : ∀ c ∈ name, p c) :
    (before ++ name).rtakeWhile p = before.rtakeWhile p ++ name := by
  have all : ∀ c ∈ name.reverse, p c := fun c listed => inside c (List.mem_reverse.mp listed)
  rw [List.rtakeWhile, List.reverse_append, List.takeWhile_append_of_pos all, List.reverse_append, List.reverse_reverse]
  rfl

theorem rtakeWhile_rdropWhile (p : Char → Bool) (text : List Char) : (text.rdropWhile p).rtakeWhile p = [] :=
  List.rtakeWhile_eq_nil_iff.mpr (List.rdropWhile_last_not p text)

theorem slash_not_mem_rtakeWhile (text : List Char) : '/' ∉ text.rtakeWhile (· != '/') := by
  intro listed
  have apart := List.mem_rtakeWhile_imp listed
  simp at apart

theorem lastName_ofList_append (text : List Char) (whole : '/' ∉ name) :
    lastName (String.ofList (text.rdropWhile (· != '/') ++ name)) = String.ofList name := by
  have inside : ∀ c ∈ name, (c != '/') = true := fun c listed => bne_iff_ne.mpr fun same => whole (same ▸ listed)
  rw [lastName, String.toList_ofList, rtakeWhile_append _ inside, rtakeWhile_rdropWhile, List.nil_append]

theorem dropTail_eq_self (name : chars.takeWhile (· != '/') ∉ [[], ['.']]) : dropTail chars = chars := by
  unfold dropTail
  split
  next => simp at name
  next => simp at name
  next => rfl

theorem splitName_eq (named : lastName path ∉ directoryNames) :
    splitName path.toList = (path.toList.rdropWhile (· != '/'), path.toList.rtakeWhile (· != '/')) := by
  have name : path.toList.reverse.takeWhile (· != '/') ∉ [[], ['.']] := by
    simp only [lastName, List.rtakeWhile] at named
    intro listed
    apply named
    simp only [List.mem_cons, List.not_mem_nil, or_false] at listed
    rcases listed with bare | dot
    · rw [bare]
      decide
    · rw [dot]
      decide
  simp only [splitName, dropTail_eq_self name]
  rfl

theorem isNameless_eq_false (named : lastName path ∉ directoryNames) :
    isNameless (path.toList.rtakeWhile (· != '/')) = false := by
  simp only [lastName] at named
  generalize path.toList.rtakeWhile (· != '/') = name at named
  simp only [isNameless, Bool.or_eq_false_iff, beq_eq_false_iff_ne]
  refine ⟨⟨?_, ?_⟩, ?_⟩ <;> rintro rfl <;> exact named (by decide)

/-- A name with an extension is its two parts with a dot between them, and one without is its stem. -/
inductive Splits (name : List Char) : List Char × Option (List Char) → Prop where
  | whole : Splits name (name, none)
  | dotted {stem extension : List Char} (parts : name = stem ++ '.' :: extension) : Splits name (stem, some extension)

theorem splits_splitExtension (name : List Char) : Splits name (splitExtension name) := by
  simp only [splitExtension]
  split
  next dot first rest behind =>
    have front := List.takeWhile_append_dropWhile (p := (· != '.')) (l := name.reverse)
    have stop := List.head?_dropWhile_not (· != '.') name.reverse
    rw [behind] at front stop
    have same : dot = '.' := by simpa using stop
    have parts := congrArg List.reverse front
    rw [List.reverse_reverse, List.reverse_append, List.reverse_cons, same, List.append_assoc, List.singleton_append]
      at parts
    exact .dotted parts.symm
  next => exact .whole

theorem withExtension_eq (named : lastName path ∉ directoryNames) (extension : String) :
    withExtension path extension =
      if (splitExtension (path.toList.rtakeWhile (· != '/'))).1 = ['.'] then
        String.ofList (path.toList.rdropWhile (· != '/') ++ ['.', '.'])
      else
        String.ofList (path.toList.rdropWhile (· != '/') ++
          ((splitExtension (path.toList.rtakeWhile (· != '/'))).1 ++ '.' :: extension.toList)) := by
  simp only [withExtension, splitName_eq named, isNameless_eq_false named, List.rdropWhile_append_rtakeWhile,
    Bool.false_eq_true, if_false, beq_self_eq_true, Bool.and_true, beq_iff_eq, List.append_assoc]

example : withExtension "roms/.gb" "sav" = "roms/.gb.sav" := by cbv

example : withExtension "roms/..gb" "sav" = "roms/.." := by cbv

theorem extension?_eq (named : lastName path ∉ directoryNames) :
    extension? path = (splitExtension (path.toList.rtakeWhile (· != '/'))).2.map String.ofList := by
  simp only [extension?, splitName_eq named, isNameless_eq_false named, Bool.false_eq_true, if_false]

/-- A change of the extension that keeps the name keeps the path, which had the extension before. -/
theorem withExtension_of_lastName (named : lastName path ∉ directoryNames) (whole : '/' ∉ extension.toList)
    (kept : lastName (withExtension path extension) = lastName path) :
    withExtension path extension = path ∧ extension? path = some extension := by
  rw [withExtension_eq named] at kept ⊢
  rw [extension?_eq named]
  have splits := splits_splitExtension (path.toList.rtakeWhile (· != '/'))
  have slashless := slash_not_mem_rtakeWhile path.toList
  have text : path = String.ofList (path.toList.rdropWhile (· != '/') ++ path.toList.rtakeWhile (· != '/')) := by
    rw [List.rdropWhile_append_rtakeWhile, String.ofList_toList]
  generalize splitExtension (path.toList.rtakeWhile (· != '/')) = parts at splits kept ⊢
  split at kept
  next =>
    rw [lastName_ofList_append _ (by decide)] at kept
    exact absurd kept.symm fun same => named (same ▸ by decide)
  next plain =>
    have stem : '/' ∉ parts.1 := by
      cases splits with
      | whole => exact slashless
      | dotted same => exact fun listed => slashless (same ▸ List.mem_append_left _ listed)
    have joined : '/' ∉ parts.1 ++ '.' :: extension.toList := by simp [stem, whole]
    rw [lastName_ofList_append _ joined, lastName, String.ofList_inj] at kept
    rw [if_neg plain, kept]
    refine ⟨text.symm, ?_⟩
    cases splits with
    | whole => simp at kept
    | @dotted stem found same =>
      have behind : found = extension.toList :=
        List.tail_eq_of_cons_eq (List.append_cancel_left (same.symm.trans kept.symm))
      rw [behind, Option.map_some, String.ofList_toList]

/-- A path that has the extension already is kept. What is left of a name with two dots in front is no name. -/
theorem withExtension_of_extension (named : lastName path ∉ directoryNames) (had : extension? path = some extension)
    (other : lastName path ≠ String.ofList ('.' :: '.' :: extension.toList)) : withExtension path extension = path := by
  rw [extension?_eq named] at had
  rw [withExtension_eq named]
  have splits := splits_splitExtension (path.toList.rtakeWhile (· != '/'))
  have text : path = String.ofList (path.toList.rdropWhile (· != '/') ++ path.toList.rtakeWhile (· != '/')) := by
    rw [List.rdropWhile_append_rtakeWhile, String.ofList_toList]
  rw [lastName] at other
  generalize splitExtension (path.toList.rtakeWhile (· != '/')) = parts at splits had ⊢
  cases splits with
  | whole => cases had
  | @dotted stem found same =>
    obtain rfl : String.ofList found = extension := Option.some.inj had
    rw [String.toList_ofList] at other ⊢
    have dots : stem ≠ ['.'] := fun dot => other (congrArg String.ofList (same.trans (dot ▸ rfl)))
    rw [if_neg dots, ← same]
    exact text.symm

example : withExtension "roms/a.sav" "sav" = "roms/a.sav" := by cbv

end DotMatrix.Path
