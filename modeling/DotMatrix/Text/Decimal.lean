/-!
Decimal numbers: reading an unsigned number of 32 bits, and writing a fraction with two places.
-/

namespace DotMatrix.Text

inductive NumberError where
  | empty
  | invalidDigit
  | tooLarge
  deriving DecidableEq, Repr

def NumberError.message : NumberError → String
  | empty => "cannot parse integer from empty string"
  | invalidDigit => "invalid digit found in string"
  | tooLarge => "number too large to fit in target type"

def digit? (c : Char) : Option Nat :=
  if 48 ≤ c.toNat ∧ c.toNat ≤ 57 then some (c.toNat - 48) else none

/-- Reads digits behind a value; the first character that spoils the number decides the error. -/
def readDigits (value : Nat) : List Char → Except NumberError Nat
  | [] => .ok value
  | c :: rest =>
    match digit? c with
    | none => .error .invalidDigit
    | some d => if value * 10 + d < 2 ^ 32 then readDigits (value * 10 + d) rest else .error .tooLarge

def readWord32 : List Char → Except NumberError Nat
  | [] => .error .empty
  | ['+'] => .error .invalidDigit
  | '+' :: digits => readDigits 0 digits
  | digits => readDigits 0 digits

/-- The quotient to the nearest number, a half to the even neighbor. -/
def roundDiv (numerator denominator : Nat) : Nat :=
  let quotient := numerator / denominator
  let twice := numerator % denominator * 2
  if denominator < twice ∨ denominator = twice ∧ quotient % 2 = 1 then quotient + 1 else quotient

/-- No number is nearer to the quotient, and of two that are equally near the even one is chosen. -/
theorem roundDiv_nearest (numerator : Nat) {denominator : Nat} (positive : 0 < denominator) :
    2 * numerator ≤ 2 * (roundDiv numerator denominator * denominator) + denominator ∧
    2 * (roundDiv numerator denominator * denominator) ≤ 2 * numerator + denominator ∧
    (2 * numerator = 2 * (roundDiv numerator denominator * denominator) + denominator ∨
      2 * (roundDiv numerator denominator * denominator) = 2 * numerator + denominator →
      roundDiv numerator denominator % 2 = 0) := by
  have whole := Nat.div_add_mod' numerator denominator
  have rest := Nat.mod_lt numerator positive
  simp only [roundDiv]
  split
  next up =>
    rw [Nat.add_one_mul (numerator / denominator)]
    omega
  next down => omega

example : roundDiv 25 2 = 12 := by decide

example : roundDiv 75 2 = 38 := by decide

def twoPlaces (numerator denominator : Nat) : String :=
  let hundredths := roundDiv (numerator * 100) denominator
  s!"{hundredths / 100}.{hundredths % 100 / 10}{hundredths % 10}"

end DotMatrix.Text
