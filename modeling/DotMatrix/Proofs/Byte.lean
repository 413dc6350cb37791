import DotMatrix.Word
import Mathlib.Algebra.Order.Ring.Int

/-!
Masks and bits of bytes. There are 256 bytes, so that what can be decided of one can be decided of all.
-/

namespace DotMatrix.Byte

variable {P : UInt8 → Prop}

theorem forall_iff : (∀ byte, P byte) ↔ ∀ n : Fin 256, P (UInt8.ofNat n.val) := by
  constructor
  · exact fun all n => all _
  · intro all byte
    have here := all ⟨byte.toNat, byte.toNat_lt⟩
    rwa [UInt8.ofNat_toNat] at here

instance decidableForall [DecidablePred P] : Decidable (∀ byte, P byte) := decidable_of_iff _ forall_iff.symm

theorem or_and (x y mask : UInt8) : (x ||| y) &&& mask = x &&& mask ||| y &&& mask := by
  apply UInt8.toBitVec_inj.mp
  simp only [UInt8.toBitVec_and, UInt8.toBitVec_or]
  exact BitVec.and_or_distrib_right

theorem or_and_self (x mask : UInt8) : mask ||| x &&& mask = mask := by
  apply UInt8.toBitVec_inj.mp
  rw [UInt8.toBitVec_or, UInt8.toBitVec_and]
  ext i inside
  rw [BitVec.getElem_or, BitVec.getElem_and, Bool.and_comm]
  cases mask.toBitVec[i] <;> rfl

theorem toNat_and_mask (byte : UInt8) (bits : Nat) (small : bits ≤ 8) :
    (byte &&& UInt8.ofNat (2 ^ bits - 1)).toNat = byte.toNat % 2 ^ bits := by
  have fits : 2 ^ bits - 1 < 2 ^ 8 := by
    have := Nat.pow_le_pow_right (n := 2) (by decide) small
    have := Nat.two_pow_pos bits
    omega
  rw [UInt8.toNat_and, UInt8.toNat_ofNat', Nat.mod_eq_of_lt fits, Nat.and_two_pow_sub_one_eq_mod]

theorem has_eq_testBit (n : Fin 8) (byte : UInt8) :
    has byte (UInt8.ofNat (2 ^ n.val)) = byte.toNat.testBit n.val := by
  revert n byte
  decide +kernel

theorem shiftRight_and_one (n : Fin 8) (byte : UInt8) :
    byte >>> UInt8.ofNat n.val &&& 1 = (byte.toNat.testBit n.val).toUInt8 := by
  revert n byte
  decide +kernel

theorem toNat_even (byte : UInt8) : (byte &&& 0xFE).toNat = byte.toNat / 2 * 2 := by
  revert byte
  decide +kernel

theorem lower_of_upper (byte : UInt8) : byte &&& 0xF0 &&& 0x0F = 0 := by
  revert byte
  decide +kernel

end DotMatrix.Byte
