import DotMatrix.Runner.Options
import Mathlib.Algebra.Order.Ring.Int
import Mathlib.Data.List.DropRight

/-!
Texts that give a number of frames: blanks, an optional plus sign, digits whose value has 32 bits, and blanks. Any
other text has one fault, the first that is met from left to right.
-/

namespace DotMatrix

namespace Text

/-! ### Trimming -/

structure Trims (text core : List Char) : Prop where
  around : ∃ before after, text = before ++ core ++ after ∧ (∀ c ∈ before, isBlank c) ∧ ∀ c ∈ after, isBlank c
  first : ∀ c, core.head? = some c → isBlank c = false
  last : ∀ c, core.getLast? = some c → isBlank c = false

theorem trimList_eq_rdropWhile (text : List Char) : trimList text = (text.dropWhile isBlank).rdropWhile isBlank := rfl

theorem dropWhile_isBlank_append {before rest : List Char} (blank : ∀ c ∈ before, isBlank c)
    (first : ∀ c, rest.head? = some c → isBlank c = false) : (before ++ rest).dropWhile isBlank = rest := by
  rw [List.dropWhile_append_of_pos blank]
  cases rest with
  | nil => rfl
  | cons c rest => exact List.dropWhile_cons_of_neg (by simp [first c rfl])

theorem Trims.trimList_eq {text core : List Char} (h : Trims text core) : trimList text = core := by
  obtain ⟨before, after, rfl, blank, blank'⟩ := h.around
  cases core with
  | nil =>
    -- nothing stops the cut from the left, which takes all blanks at once
    have all : ∀ c ∈ before ++ [] ++ after, isBlank c := by
      intro c listed
      rw [List.append_nil, List.mem_append] at listed
      exact listed.elim (blank c) (blank' c)
    rw [trimList, List.dropWhile_eq_nil_iff.mpr all]
    rfl
  | cons c core =>
    have front : (before ++ (c :: core) ++ after).dropWhile isBlank = (c :: core) ++ after := by
      rw [List.append_assoc]
      exact dropWhile_isBlank_append blank h.first
    have back : ((c :: core) ++ after).reverse.dropWhile isBlank = (c :: core).reverse := by
      rw [List.reverse_append]
      apply dropWhile_isBlank_append
      · intro c listed
        exact blank' c (List.mem_reverse.mp listed)
      · intro c ends
        rw [List.head?_reverse] at ends
        exact h.last c ends
    rw [trimList, front, back, List.reverse_reverse]

theorem trims_trimList (text : List Char) : Trims text (trimList text) where
  around := by
    refine ⟨text.takeWhile isBlank, (text.dropWhile isBlank).rtakeWhile isBlank, ?_, ?_, ?_⟩
    · rw [trimList_eq_rdropWhile, List.append_assoc, List.rdropWhile_append_rtakeWhile, List.takeWhile_append_dropWhile]
    · exact fun c => List.mem_takeWhile_imp
    · exact fun c => List.mem_rtakeWhile_imp
  first c begins := by
    obtain ⟨after, whole⟩ := List.rdropWhile_prefix isBlank (text.dropWhile isBlank)
    rw [trimList_eq_rdropWhile] at begins
    have kept := List.head?_dropWhile_not isBlank text
    rw [← whole, List.head?_append, begins] at kept
    exact kept
  last c ends := by
    rw [trimList_eq_rdropWhile] at ends
    obtain ⟨some, rfl⟩ := List.mem_getLast?_eq_getLast ends
    exact Bool.eq_false_iff.mpr (List.rdropWhile_last_not isBlank _ some)

theorem trims_iff {text core : List Char} : Trims text core ↔ trimList text = core :=
  ⟨Trims.trimList_eq, fun same => same ▸ trims_trimList text⟩

/-! ### Digits -/

theorem digit?_eq (c : Char) : digit? c = if c.isDigit then some (c.toNat - '0'.toNat) else none := by
  have bounds : c.isDigit = true ↔ 48 ≤ c.toNat ∧ c.toNat ≤ 57 := by
    simp only [Char.isDigit, Bool.and_eq_true, decide_eq_true_eq, ge_iff_le, UInt32.le_iff_toNat_le]
    rfl
  simp only [digit?, bounds]
  rfl

variable {c : Char} {chars digits rest : List Char} {value n : Nat} {cause : NumberError}

theorem readDigits_nil (value : Nat) : readDigits value [] = .ok value := rfl

theorem readDigits_step (value : Nat) (c : Char) (rest : List Char) : readDigits value (c :: rest) =
    match digit? c with
    | none => .error .invalidDigit
    | some d => if value * 10 + d < 2 ^ 32 then readDigits (value * 10 + d) rest else .error .tooLarge := rfl

theorem readDigits_cons (digit : c.isDigit) : readDigits value (c :: rest) =
    if 10 * value + (c.toNat - '0'.toNat) < 2 ^ 32 then readDigits (10 * value + (c.toNat - '0'.toNat)) rest
    else .error .tooLarge := by
  rw [readDigits_step, digit?_eq, if_pos digit, Nat.mul_comm value 10]

theorem readDigits_cons_of_not_digit (spoiled : c.isDigit = false) :
    readDigits value (c :: rest) = .error .invalidDigit := by
  rw [readDigits_step, digit?_eq, if_neg (by simp [spoiled])]

theorem le_ofDigitChars (digits : List Char) (value : Nat) : value ≤ Nat.ofDigitChars 10 digits value := by
  rw [Nat.ofDigitChars_eq_ofDigitChars_zero]
  have := Nat.le_mul_of_pos_left value (show 0 < 10 ^ digits.length from Nat.pow_pos (by decide))
  omega

theorem readDigits_eq_ok_iff (small : value < 2 ^ 32) : readDigits value digits = .ok n ↔
    (∀ c ∈ digits, c.isDigit) ∧ Nat.ofDigitChars 10 digits value = n ∧ n < 2 ^ 32 := by
  induction digits generalizing value with
  | nil =>
    simp only [readDigits_nil, Except.ok.injEq, Nat.ofDigitChars_nil]
    constructor
    · rintro rfl
      exact ⟨nofun, rfl, small⟩
    · exact fun h => h.2.1
  | cons c digits ih =>
    cases digit : c.isDigit with
    | false => simp [readDigits_cons_of_not_digit digit, digit]
    | true =>
      rw [readDigits_cons digit, Nat.ofDigitChars_cons, List.forall_mem_cons]
      split
      next fits => rw [ih fits, and_iff_right digit]
      next large =>
        -- the value only grows with the digits that follow
        have grows := le_ofDigitChars digits (10 * value + (c.toNat - '0'.toNat))
        constructor
        · nofun
        · rintro ⟨_, rfl, fits⟩
          omega

/-- What spoils a row of digits that are read behind a value. -/
inductive DigitFault (value : Nat) (digits : List Char) : NumberError → Prop where
  | invalidDigit (front : List Char) {rest : List Char} {c : Char} (shape : digits = front ++ c :: rest)
      (good : ∀ d ∈ front, d.isDigit) (small : Nat.ofDigitChars 10 front value < 2 ^ 32)
      (spoiled : c.isDigit = false) : DigitFault value digits .invalidDigit
  | tooLarge (front : List Char) {rest : List Char} (shape : digits = front ++ rest) (good : ∀ d ∈ front, d.isDigit)
      (large : 2 ^ 32 ≤ Nat.ofDigitChars 10 front value) : DigitFault value digits .tooLarge

theorem DigitFault.cons (digit : c.isDigit)
    (fault : DigitFault (10 * value + (c.toNat - '0'.toNat)) rest cause) : DigitFault value (c :: rest) cause := by
  cases fault with
  | invalidDigit front shape good small spoiled =>
    refine .invalidDigit (c :: front) (congrArg (c :: ·) shape) (List.forall_mem_cons.mpr ⟨digit, good⟩) ?_ spoiled
    rwa [Nat.ofDigitChars_cons]
  | tooLarge front shape good large =>
    refine .tooLarge (c :: front) (congrArg (c :: ·) shape) (List.forall_mem_cons.mpr ⟨digit, good⟩) ?_
    rwa [Nat.ofDigitChars_cons]

theorem digitFault_of_readDigits (small : value < 2 ^ 32) (failed : readDigits value digits = .error cause) :
    DigitFault value digits cause := by
  induction digits generalizing value with
  | nil => cases failed
  | cons c digits ih =>
    cases digit : c.isDigit with
    | false =>
      rw [readDigits_cons_of_not_digit digit] at failed
      cases failed
      exact .invalidDigit [] rfl nofun small digit
    | true =>
      rw [readDigits_cons digit] at failed
      split at failed
      next fits => exact (ih fits failed).cons digit
      next large =>
        cases failed
        exact .tooLarge [c] rfl (by simp [digit]) (Nat.le_of_not_lt large)

theorem readDigits_of_spoiled (spoiled : c.isDigit = false) (good : ∀ d ∈ digits, d.isDigit)
    (small : Nat.ofDigitChars 10 digits value < 2 ^ 32) :
    readDigits value (digits ++ c :: rest) = .error .invalidDigit := by
  induction digits generalizing value with
  | nil => exact readDigits_cons_of_not_digit spoiled
  | cons d digits ih =>
    obtain ⟨digit, good⟩ := List.forall_mem_cons.mp good
    rw [Nat.ofDigitChars_cons] at small
    rw [List.cons_append, readDigits_cons digit, if_pos (Nat.lt_of_le_of_lt (le_ofDigitChars ..) small)]
    exact ih good small

theorem readDigits_of_large (good : ∀ d ∈ digits, d.isDigit) (small : value < 2 ^ 32)
    (large : 2 ^ 32 ≤ Nat.ofDigitChars 10 digits value) : readDigits value (digits ++ rest) = .error .tooLarge := by
  induction digits generalizing value with
  | nil => exact absurd small (Nat.not_lt.mpr large)
  | cons d digits ih =>
    obtain ⟨digit, good⟩ := List.forall_mem_cons.mp good
    rw [Nat.ofDigitChars_cons] at large
    rw [List.cons_append, readDigits_cons digit]
    split
    next fits => exact ih good fits large
    next => rfl

theorem readDigits_eq_error_iff (small : value < 2 ^ 32) :
    readDigits value digits = .error cause ↔ DigitFault value digits cause := by
  constructor
  · exact digitFault_of_readDigits small
  · intro fault
    cases fault with
    | invalidDigit _ shape good fits spoiled =>
      rw [shape]
      exact readDigits_of_spoiled spoiled good fits
    | tooLarge _ shape good large =>
      rw [shape]
      exact readDigits_of_large good small large

/-! ### Numbers -/

def afterSign : List Char → List Char
  | '+' :: rest => rest
  | chars => chars

/-- An optional plus sign, and at least one digit, with a value of 32 bits. -/
structure IsNumber (chars : List Char) (n : Nat) : Prop where
  filled : afterSign chars ≠ []
  digits : ∀ c ∈ afterSign chars, c.isDigit
  value : Nat.ofDigitChars 10 (afterSign chars) 0 = n
  small : n < 2 ^ 32

inductive NumberFault : List Char → NumberError → Prop where
  | empty : NumberFault [] .empty
  | lonelySign : NumberFault ['+'] .invalidDigit
  | digits {chars : List Char} {cause : NumberError} (fault : DigitFault 0 (afterSign chars) cause) :
      NumberFault chars cause

theorem readWord32_eq (filled : afterSign chars ≠ []) : readWord32 chars = readDigits 0 (afterSign chars) := by
  unfold readWord32
  split
  · exact absurd rfl filled
  · exact absurd rfl filled
  · rfl
  next unsigned =>
    rw [afterSign]
    exact unsigned

theorem not_digitFault_nil : ¬DigitFault 0 [] cause := by
  intro fault
  have read := (readDigits_eq_error_iff (by decide)).mpr fault
  cases read

theorem numberFault_nil_iff : NumberFault [] cause ↔ cause = .empty := by
  constructor
  · rintro (_ | _ | fault)
    · rfl
    · exact (not_digitFault_nil fault).elim
  · rintro rfl
    exact .empty

theorem numberFault_sign_iff : NumberFault ['+'] cause ↔ cause = .invalidDigit := by
  constructor
  · rintro (_ | _ | fault)
    · rfl
    · exact (not_digitFault_nil fault).elim
  · rintro rfl
    exact .lonelySign

theorem eq_of_afterSign_eq_nil (bare : afterSign chars = []) : chars = [] ∨ chars = ['+'] := by
  unfold afterSign at bare
  split at bare
  next rest => exact .inr (congrArg ('+' :: ·) bare)
  next => exact .inl bare

theorem readWord32_eq_ok_iff : readWord32 chars = .ok n ↔ IsNumber chars n := by
  by_cases bare : afterSign chars = []
  · have none : ¬IsNumber chars n := fun number => number.filled bare
    rcases eq_of_afterSign_eq_nil bare with rfl | rfl <;> simp [readWord32, none]
  · rw [readWord32_eq bare, readDigits_eq_ok_iff (by decide)]
    constructor
    · rintro ⟨digits, value, small⟩
      exact ⟨bare, digits, value, small⟩
    · exact fun h => ⟨h.digits, h.value, h.small⟩

theorem readWord32_eq_error_iff : readWord32 chars = .error cause ↔ NumberFault chars cause := by
  by_cases bare : afterSign chars = []
  · rcases eq_of_afterSign_eq_nil bare with rfl | rfl
    · rw [numberFault_nil_iff, readWord32, Except.error.injEq, eq_comm]
    · rw [numberFault_sign_iff, readWord32, Except.error.injEq, eq_comm]
  · rw [readWord32_eq bare, readDigits_eq_error_iff (by decide)]
    constructor
    · exact .digits
    · rintro (_ | _ | fault)
      · exact absurd rfl bare
      · exact absurd rfl bare
      · exact fault

theorem isBlank_of_isDigit (digit : c.isDigit) : isBlank c = false := by
  have bounds : 48 ≤ c.toNat ∧ c.toNat ≤ 57 := by
    have found := digit?_eq c
    rw [if_pos digit, digit?] at found
    by_contra outside
    rw [if_neg outside] at found
    cases found
  simp only [isBlank, Bool.or_eq_false_iff, Bool.and_eq_false_iff, decide_eq_false_iff_not, beq_eq_false_iff_ne]
  omega

theorem Trims.of_digits (digits : ∀ c ∈ chars, c.isDigit) : Trims chars chars where
  around := ⟨[], [], by simp, nofun, nofun⟩
  first c begins := isBlank_of_isDigit (digits c (List.mem_of_head? begins))
  last c ends := isBlank_of_isDigit (digits c (List.mem_of_getLast? ends))

theorem afterSign_of_digits (digits : ∀ c ∈ chars, c.isDigit) : afterSign chars = chars := by
  unfold afterSign
  split
  next => exact absurd (digits '+' List.mem_cons_self) (by decide)
  next => rfl

theorem isDigit_toDigits (n : Nat) : ∀ c ∈ Nat.toDigits 10 n, c.isDigit := fun _ =>
  Nat.isDigit_of_mem_toDigits (by decide) (by decide)

theorem isNumber_toDigits (small : n < 2 ^ 32) : IsNumber (Nat.toDigits 10 n) n := by
  have plain := afterSign_of_digits (isDigit_toDigits n)
  constructor
  · rw [plain]
    exact Nat.toDigits_ne_nil
  · rw [plain]
    exact isDigit_toDigits n
  · rw [plain, Nat.ofDigitChars_ten_toDigits]
  · exact small

end Text

namespace RunOptions

open Text

def FrameCount (value : String) (n : Nat) : Prop := ∃ core, Trims value.toList core ∧ IsNumber core n

def FrameFault (value : String) (cause : NumberError) : Prop :=
  ∃ core, Trims value.toList core ∧ NumberFault core cause

variable {value : String} {n : Nat} {cause : NumberError}

theorem parseFrames_eq_ok_iff : parseFrames value = .ok n ↔ FrameCount value n := by
  simp only [parseFrames, readWord32_eq_ok_iff, FrameCount, trims_iff, exists_eq_left']

theorem parseFrames_eq_error_iff : parseFrames value = .error cause ↔ FrameFault value cause := by
  simp only [parseFrames, readWord32_eq_error_iff, FrameFault, trims_iff, exists_eq_left']

theorem FrameCount.unique {other : Nat} (h : FrameCount value n) (h' : FrameCount value other) : n = other :=
  Except.ok.inj ((parseFrames_eq_ok_iff.mpr h).symm.trans (parseFrames_eq_ok_iff.mpr h'))

theorem frameCount_toString (small : n < 2 ^ 32) : FrameCount (toString n) n := by
  refine ⟨Nat.toDigits 10 n, ?_, isNumber_toDigits small⟩
  rw [Nat.toString_eq_ofList_toDigits, String.toList_ofList]
  exact .of_digits (isDigit_toDigits n)

end RunOptions

end DotMatrix
