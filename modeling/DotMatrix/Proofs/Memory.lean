import DotMatrix.Memory

/-!
Blocks byte by byte: how they are told apart, cut from bytes and filled.
-/

namespace DotMatrix.Block

variable {n k : Nat}

theorem ext_get {m k : Block n} (same : ∀ i, m.get i = k.get i) : m = k := by
  apply Block.ext
  apply ByteArray.ext_getElem
  · rw [m.size_eq, k.size_eq]
  · intro i low high
    exact same ⟨i, by rw [← m.size_eq]; exact low⟩

theorem get_ofBytes_getD (bytes : ByteArray) (i : Fin n) : (ofBytes n bytes).get i = bytes[i.val]?.getD 0 := by
  rw [get_ofBytes]
  split
  next stored => rw [getElem?_pos bytes i.val stored, Option.getD_some]
  next beyond => rw [getElem?_neg bytes i.val beyond, Option.getD_none]

theorem getElem?_bytes (m : Block n) (i : Nat) :
    m.bytes[i]? = if h : i < n then some (m.get ⟨i, h⟩) else none := by
  have size := m.size_eq
  split
  next inside => exact getElem?_pos m.bytes i (by omega)
  next beyond => exact getElem?_neg m.bytes i (by omega)

def patch (m : Block n) (start stop : Nat) (f : Nat → UInt8) : Block n :=
  ofFn fun i => if start ≤ i.val ∧ i.val < stop then f i.val else m.get i

theorem get_patch (m : Block n) (start stop : Nat) (f : Nat → UInt8) (i : Fin n) :
    (m.patch start stop f).get i = if start ≤ i.val ∧ i.val < stop then f i.val else m.get i :=
  get_ofFn _ i

@[simp] theorem patch_self (m : Block n) (start : Nat) (f : Nat → UInt8) : m.patch start start f = m := by
  apply ext_get
  intro i
  rw [get_patch, if_neg (by omega)]

theorem set_patch (m : Block n) {start stop : Nat} (f : Nat → UInt8) (first : start ≤ stop)
    (inside : stop < n) :
    (m.patch start stop f).set ⟨stop, inside⟩ (f stop) = m.patch start (stop + 1) f := by
  apply ext_get
  intro i
  rw [get_set, get_patch, get_patch]
  by_cases last : i = ⟨stop, inside⟩
  · subst last
    rw [if_pos rfl, if_pos (by simp only; omega)]
  · have other : i.val ≠ stop := fun same => last (Fin.ext same)
    rw [if_neg (Ne.symm last)]
    congr 1
    rw [eq_iff_iff]
    omega

theorem patch_all (m : Block n) (f : Nat → UInt8) : m.patch 0 n f = ofFn fun i => f i.val := by
  apply ext_get
  intro i
  rw [get_patch, get_ofFn, if_pos (by omega)]

theorem patch_eq_overlay (m : Block n) (start : Nat) (byte : UInt8) (fits : start + k ≤ n) :
    m.patch start (start + k) (fun _ => byte) = m.overlay start (filled k byte) fits := by
  apply ext_get
  intro i
  rw [get_patch, get_overlay]
  split
  next inside => rw [get_filled]
  next => rfl

def part (m : Block n) (start : Nat) (fits : start + k ≤ n) : Block k :=
  ofFn fun i => m.get ⟨start + i.val, by omega⟩

theorem overlay_part (m : Block n) (start : Nat) (fits : start + k ≤ n) :
    m.overlay start (m.part start fits) fits = m := by
  apply ext_get
  intro i
  rw [get_overlay]
  split
  next inside =>
    rw [part, get_ofFn]
    congr 1
    apply Fin.ext
    exact Nat.add_sub_cancel' inside.1
  next => rfl

theorem set_overlay (m : Block n) (start : Nat) (piece : Block k) (fits : start + k ≤ n) (x : Fin k)
    (byte : UInt8) :
    (m.overlay start piece fits).set ⟨start + x.val, by omega⟩ byte =
      m.overlay start (piece.set x byte) fits := by
  apply ext_get
  intro i
  rw [get_set, get_overlay, get_overlay]
  by_cases here : i.val = start + x.val
  · have place : (⟨i.val - start, by omega⟩ : Fin k) = x := Fin.ext (by simp only; omega)
    rw [if_pos (Fin.ext here.symm), dif_pos (by omega), place, get_set_self]
  · rw [if_neg fun same => here (congrArg Fin.val same).symm]
    split
    next inside =>
      rw [get_set_of_ne]
      intro same
      have := congrArg Fin.val same
      simp only at this
      omega
    next => rfl

end DotMatrix.Block
