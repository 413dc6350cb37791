/-!
Countdowns of clock cycles. Countdowns and batches of cycles are signed numbers of 32 bits, so a batch
may count backwards, and a batch that takes a countdown out of range cannot be counted.
-/

namespace DotMatrix.Countdown

/-- A signed number of 32 bits: neither it nor its complement reaches half the range. -/
def inRange (n : Int) : Bool := n.toNat < 0x80000000 && (-1 - n).toNat < 0x80000000

theorem inRange_iff {n : Int} : inRange n ↔ -0x80000000 ≤ n ∧ n < 0x80000000 := by
  simp only [inRange, Bool.and_eq_true, decide_eq_true_eq]
  omega

/-- The batch that a number of cycles makes; from half the range on it is negative. -/
def batch (cycles : Nat) : Int :=
  if cycles < 0x80000000 then cycles else Int.bmod cycles 0x100000000

def admits (countdown cycles : Int) : Bool := inRange (countdown - cycles)

theorem admits_of_pos {countdown cycles : Int} (running : 0 < countdown) (fits : countdown < 0x80000000)
    (forwards : 0 ≤ cycles) (small : cycles < 0x80000000) : admits countdown cycles := by
  rw [admits, inRange_iff]
  omega

end DotMatrix.Countdown
