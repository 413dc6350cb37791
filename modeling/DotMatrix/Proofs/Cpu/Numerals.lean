import DotMatrix.Word
import Mathlib.Algebra.Order.Ring.Int
import Mathlib.Tactic.Linarith
import Mathlib.Tactic.Ring

/-!
Numbers in bytes, the lowest digit first. A byte holds a digit in base 256, or two decimal digits that make
one in base 100. A sum or a difference that accounts for its carry is exact, because numbers of the same
size that are equal have the same bytes.
-/

namespace DotMatrix

structure Numerals where
  base : Nat
  /-- The bytes that stand for a digit. -/
  valid : UInt8 → Prop
  digit : UInt8 → Nat
  /-- The byte of the lowest digit of a number. -/
  byte : Nat → UInt8
  digit_lt : ∀ x, valid x → digit x < base
  byte_digit : ∀ x rest, valid x → byte (digit x + base * rest) = x

namespace Numerals

def binary : Numerals where
  base := 256
  valid _ := True
  digit := UInt8.toNat
  byte n := UInt8.ofNat n
  digit_lt x _ := x.toNat_lt
  byte_digit x rest _ := by
    have small := x.toNat_lt
    apply UInt8.toNat.inj
    rw [UInt8.toNat_ofNat']
    omega

def IsPacked (x : UInt8) : Prop := x.toNat / 16 ≤ 9 ∧ x.toNat % 16 ≤ 9

instance (x : UInt8) : Decidable (IsPacked x) := inferInstanceAs (Decidable (_ ∧ _))

def packed : Numerals where
  base := 100
  valid := IsPacked
  digit x := 10 * (x.toNat / 16) + x.toNat % 16
  byte n := UInt8.ofNat (16 * (n % 100 / 10) + n % 10)
  digit_lt x h := by
    have tens := h.1
    have units := h.2
    omega
  byte_digit x rest h := by
    have parts := Nat.div_add_mod x.toNat 16
    obtain ⟨tens, units⟩ := h
    generalize x.toNat / 16 = t at tens parts ⊢
    generalize x.toNat % 16 = u at units parts ⊢
    have high : (10 * t + u + 100 * rest) % 100 / 10 = t := by omega
    have low : (10 * t + u + 100 * rest) % 10 = u := by omega
    rw [high, low, parts, UInt8.ofNat_toNat]

variable (s : Numerals)

def value : List UInt8 → Nat
  | [] => 0
  | x :: rest => s.digit x + s.base * value rest

/-- The lowest digits of a number, as many as are asked for. -/
def bytes : Nat → Nat → List UInt8
  | 0, _ => []
  | size + 1, n => s.byte n :: bytes size (n / s.base)

variable {s} {xs ys zs : List UInt8}

theorem value_lt (valid : ∀ x ∈ xs, s.valid x) : s.value xs < s.base ^ xs.length := by
  induction xs with
  | nil => exact Nat.one_pos
  | cons x rest ih =>
    rw [List.forall_mem_cons] at valid
    have first := s.digit_lt x valid.1
    have others := Nat.mul_le_mul_left s.base (ih valid.2)
    rw [Nat.mul_succ] at others
    rw [value, List.length_cons, Nat.pow_succ, Nat.mul_comm (s.base ^ rest.length)]
    omega

/-- The bytes behind others count by the power of the base that those take up. -/
theorem value_append : s.value (xs ++ ys) = s.value xs + s.base ^ xs.length * s.value ys := by
  induction xs with
  | nil => rw [List.nil_append, value, List.length_nil, Nat.pow_zero, Nat.one_mul, Nat.zero_add]
  | cons x rest ih =>
    rw [List.cons_append, value, value, ih, List.length_cons, Nat.pow_succ]
    ring

theorem bytes_value (valid : ∀ x ∈ xs, s.valid x) : s.bytes xs.length (s.value xs) = xs := by
  induction xs with
  | nil => rfl
  | cons x rest ih =>
    rw [List.forall_mem_cons] at valid
    have first := s.digit_lt x valid.1
    have positive : 0 < s.base := by omega
    rw [value, List.length_cons, bytes, s.byte_digit x _ valid.1, Nat.add_mul_div_left _ _ positive,
      Nat.div_eq_of_lt first, Nat.zero_add, ih valid.2]

/-- Bytes whose number is known are known. -/
theorem eq_bytes {n : Nat} (valid : ∀ z ∈ zs, s.valid z) (size : zs.length = xs.length) (same : s.value zs = n) :
    zs = s.bytes xs.length n := by
  rw [← size, ← same, bytes_value valid]

/-- Numbers of one size that differ by a carry of the whole size are the same. -/
theorem eq_of_tally (valid : ∀ z ∈ zs, s.valid z) (whole : ∀ x ∈ xs, s.valid x) (size : zs.length = xs.length)
    (carry borrow : Bool)
    (tally : s.value zs + s.base ^ xs.length * carry.toNat = s.value xs + s.base ^ xs.length * borrow.toNat) :
    zs = xs := by
  have below := value_lt valid
  have first := value_lt whole
  rw [size] at below
  have same : s.value zs = s.value xs := by
    cases carry <;> cases borrow <;> simp only [Bool.toNat_false, Bool.toNat_true] at tally <;> omega
  rw [eq_bytes valid size same, bytes_value whole]

theorem sum_eq (valid : ∀ z ∈ zs, s.valid z) (size : zs.length = xs.length) {n : Nat} {carry : Bool}
    (tally : s.value zs + s.base ^ xs.length * carry.toNat = n) :
    zs = s.bytes xs.length (n % s.base ^ xs.length) ∧ (carry = true ↔ s.base ^ xs.length ≤ n) := by
  have below := value_lt valid
  rw [size] at below
  have value : s.value zs = n % s.base ^ xs.length := by
    rw [← tally, Nat.add_mul_mod_self_left, Nat.mod_eq_of_lt below]
  refine ⟨eq_bytes valid size value, ?_⟩
  cases carry with
  | false =>
    rw [Bool.toNat_false, Nat.mul_zero] at tally
    exact iff_of_false Bool.false_ne_true (by omega)
  | true =>
    rw [Bool.toNat_true, Nat.mul_one] at tally
    exact iff_of_true rfl (by omega)

theorem difference_eq (valid : ∀ z ∈ zs, s.valid z) (size : zs.length = xs.length)
    (whole : ∀ x ∈ xs, s.valid x) {n : Nat} (less : n < s.base ^ xs.length) {borrow : Bool}
    (tally : s.value zs + n = s.value xs + s.base ^ xs.length * borrow.toNat) :
    zs = s.bytes xs.length ((s.value xs + s.base ^ xs.length - n) % s.base ^ xs.length) ∧
      (borrow = true ↔ s.value xs < n) := by
  have below := value_lt valid
  have first := value_lt whole
  rw [size] at below
  cases borrow with
  | false =>
    rw [Bool.toNat_false, Nat.mul_zero, Nat.add_zero] at tally
    have value : s.value zs = (s.value xs + s.base ^ xs.length - n) % s.base ^ xs.length := by
      rw [show s.value xs + s.base ^ xs.length - n = s.value zs + s.base ^ xs.length by omega, Nat.add_mod_right,
        Nat.mod_eq_of_lt below]
    exact ⟨eq_bytes valid size value, iff_of_false Bool.false_ne_true (by omega)⟩
  | true =>
    rw [Bool.toNat_true, Nat.mul_one] at tally
    have value : s.value zs = (s.value xs + s.base ^ xs.length - n) % s.base ^ xs.length := by
      rw [show s.value xs + s.base ^ xs.length - n = s.value zs by omega, Nat.mod_eq_of_lt below]
    exact ⟨eq_bytes valid size value, iff_of_true rfl (by omega)⟩

end Numerals
end DotMatrix
