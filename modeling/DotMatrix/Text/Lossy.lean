/-!
Bytes read as UTF-8. Each longest run that begins a character but does not become one is read as the
replacement character, and so is each byte that begins none.
-/

namespace DotMatrix.Text

def replacement : Char := Char.ofNat 0xFFFD

/-- What the first byte of a longer character says: how many bytes follow, the range of the first of
them, and the bits it contributes. -/
structure Lead where
  following : Nat
  low : UInt8
  high : UInt8
  bits : Nat

def lead? (byte : UInt8) : Option Lead :=
  let b := byte.toNat
  if b < 0xC2 then none
  else if b < 0xE0 then some ⟨1, 0x80, 0xBF, b % 32⟩
  else if b < 0xF0 then
    some ⟨2, if b = 0xE0 then 0xA0 else 0x80, if b = 0xED then 0x9F else 0xBF, b % 16⟩
  else if b < 0xF5 then
    some ⟨3, if b = 0xF0 then 0x90 else 0x80, if b = 0xF4 then 0x8F else 0xBF, b % 8⟩
  else none

def follow : Nat → UInt8 → UInt8 → Nat → List UInt8 → Char × List UInt8
  | 0, _, _, value, rest => (Char.ofNat value, rest)
  | _ + 1, _, _, _, [] => (replacement, [])
  | n + 1, low, high, value, b :: rest =>
    if low ≤ b ∧ b ≤ high then follow n 0x80 0xBF (value * 64 + b.toNat % 64) rest
    else (replacement, b :: rest)

theorem length_follow_le (n : Nat) (low high : UInt8) (value : Nat) (bytes : List UInt8) :
    (follow n low high value bytes).2.length ≤ bytes.length := by
  induction n generalizing low high value bytes with
  | zero => simp only [follow, Nat.le_refl]
  | succ n ih =>
    cases bytes with
    | nil => simp only [follow, Nat.le_refl]
    | cons b rest =>
      simp only [follow]
      split
      · exact Nat.le_succ_of_le (ih ..)
      · exact Nat.le_refl _

def decodeLossy : List UInt8 → List Char
  | [] => []
  | b :: rest =>
    if b < 0x80 then Char.ofNat b.toNat :: decodeLossy rest
    else
      match lead? b with
      | none => replacement :: decodeLossy rest
      | some lead =>
        have := length_follow_le lead.following lead.low lead.high lead.bits rest
        (follow lead.following lead.low lead.high lead.bits rest).1
          :: decodeLossy (follow lead.following lead.low lead.high lead.bits rest).2
termination_by bytes => bytes.length
decreasing_by all_goals simp only [List.length_cons]; omega

end DotMatrix.Text
