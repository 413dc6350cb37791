import DotMatrix.Proofs.Memory
import DotMatrix.Word
import Mathlib.Algebra.Order.Ring.Int

/-!
Arithmetic with checks. A number is held in a word of some width, a difference of numbers without a
sign does not fall below zero, and a memory is reached at the places that it has. A check that fails
gives nothing.
-/

namespace DotMatrix.Checked

/-- A number in a word of so many bits. -/
def fits (bits n : Nat) : Option Nat := if n < 2 ^ bits then some n else none

def fitsSigned (bits : Nat) (n : Int) : Option Int :=
  if -2 ^ (bits - 1) ≤ n ∧ n < 2 ^ (bits - 1) then some n else none

def minus (a b : Nat) : Option Nat := if b ≤ a then some (a - b) else none

def remainder (a b : Nat) : Option Nat := if b = 0 then none else some (a % b)

def shiftLeft (byte : UInt8) (places : Nat) : Option UInt8 :=
  if places < 8 then some (byte <<< UInt8.ofNat places) else none

def shiftRight (byte : UInt8) (places : Nat) : Option UInt8 :=
  if places < 8 then some (byte >>> UInt8.ofNat places) else none

def slot (n i : Nat) : Option (Fin n) := if h : i < n then some ⟨i, h⟩ else none

theorem fits_eq {bits n : Nat} (h : n < 2 ^ bits) : fits bits n = some n := if_pos h

theorem fitsSigned_eq {bits : Nat} {n : Int} (low : -2 ^ (bits - 1) ≤ n) (high : n < 2 ^ (bits - 1)) :
    fitsSigned bits n = some n := if_pos ⟨low, high⟩

theorem minus_eq {a b : Nat} (h : b ≤ a) : minus a b = some (a - b) := if_pos h

theorem remainder_eq {a b : Nat} (h : 0 < b) : remainder a b = some (a % b) := if_neg (by omega)

theorem shiftLeft_eq {byte : UInt8} {places : Nat} (h : places < 8) :
    shiftLeft byte places = some (byte <<< UInt8.ofNat places) := if_pos h

theorem shiftRight_eq {byte : UInt8} {places : Nat} (h : places < 8) :
    shiftRight byte places = some (byte >>> UInt8.ofNat places) := if_pos h

theorem slot_eq {n i : Nat} (h : i < n) : slot n i = some ⟨i, h⟩ := dif_pos h

theorem mapM_eq {α β : Type} {f : α → Option β} {g : α → β} (all : ∀ a, f a = some (g a)) (l : List α) :
    l.mapM f = some (l.map g) := by
  have same : f = fun a => pure (g a) := by
    funext a
    exact all a
  rw [same]
  exact List.mapM_pure

variable {σ τ : Type}

/-- Runs the body for `count` numbers from a first one on, in ascending order. -/
def ascending (body : Nat → σ → Option σ) : Nat → Nat → σ → Option σ
  | _, 0, s => some s
  | first, count + 1, s => do
    let s ← body first s
    ascending body (first + 1) count s

def descending (body : Nat → σ → Option σ) : Nat → σ → Option σ
  | 0, s => some s
  | count + 1, s => do
    let s ← body count s
    descending body count s

/-- A loop is carried out if its body is, in each of the states that the loop is to go through. -/
theorem ascending_eq {body : Nat → σ → Option σ} (states : Nat → σ) (first count : Nat)
    (step : ∀ i, first ≤ i → i < first + count → body i (states i) = some (states (i + 1))) :
    ascending body first count (states first) = some (states (first + count)) := by
  induction count generalizing first with
  | zero => rfl
  | succ count ih =>
    have next := ih (first + 1) fun i low high => step i (by omega) (by omega)
    simp only [ascending, step first (Nat.le_refl _) (by omega), Option.bind_eq_bind, Option.bind_some]
    rw [next, Nat.add_right_comm]
    rfl

theorem ascending_set {n : Nat} {body : Nat → Block n → Option (Block n)} (f : Nat → UInt8)
    (first count : Nat) (inside : first + count ≤ n)
    (step : ∀ i m, first ≤ i → (low : i < first + count) →
      body i m = some (m.set ⟨i, Nat.lt_of_lt_of_le low inside⟩ (f i)))
    (m : Block n) : ascending body first count m = some (m.patch first (first + count) f) := by
  have filled (i : Nat) (late : first ≤ i) (early : i < first + count) :
      body i (m.patch first i f) = some (m.patch first (i + 1) f) := by
    rw [step i _ late early, Block.set_patch m f late]
  have done := ascending_eq (fun i => m.patch first i f) first count filled
  rwa [Block.patch_self] at done

/-- A loop that does what a fold does, seen through a view of the state of the fold. -/
theorem ascending_foldl {body : Nat → σ → Option σ} (view : τ → σ) {n : Nat} (f : τ → Fin n → τ)
    (first : Nat) (step : ∀ i t, body (first + i.val) (view t) = some (view (f t i))) (t : τ) :
    ascending body first n (view t) = some (view (Fin.foldl n f t)) := by
  induction n generalizing first t with
  | zero => rfl
  | succ n ih =>
    have now : body first (view t) = some (view (f t 0)) := step 0 t
    simp only [ascending, now, Option.bind_eq_bind, Option.bind_some, Fin.foldl_succ]
    apply ih (fun t i => f t i.succ)
    intro i t
    rw [← step i.succ t, Fin.val_succ, Nat.add_right_comm, Nat.add_assoc]

theorem descending_foldr {body : Nat → σ → Option σ} (view : τ → σ) {n : Nat} (f : Fin n → τ → τ)
    (step : ∀ i t, body i.val (view t) = some (view (f i t))) (t : τ) :
    descending body n (view t) = some (view (Fin.foldr n f t)) := by
  induction n generalizing t with
  | zero => rfl
  | succ n ih =>
    have now : body n (view t) = some (view (f (Fin.last n) t)) := step (Fin.last n) t
    simp only [descending, now, Option.bind_eq_bind, Option.bind_some, Fin.foldr_succ_last]
    exact ih (fun i t => f i.castSucc t) (fun i t => step i.castSucc t) _

end DotMatrix.Checked
