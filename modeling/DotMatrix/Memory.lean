/-!
Blocks of memory of a fixed size. An address inside a block is bounded by its type, so every access
is in range.
-/

namespace DotMatrix

structure Block (n : Nat) where
  bytes : ByteArray
  size_eq : bytes.size = n

namespace Block

variable {n : Nat}

theorem ext {m k : Block n} (h : m.bytes = k.bytes) : m = k := by
  cases m; cases k; cases h; rfl

def filled (n : Nat) (byte : UInt8) : Block n :=
  ⟨⟨Array.replicate n byte⟩, Array.size_replicate⟩

@[inline] def get (m : Block n) (i : Fin n) : UInt8 :=
  have : i.val < m.bytes.size := by rw [m.size_eq]; exact i.isLt
  m.bytes[i.val]

@[inline] def set (m : Block n) (i : Fin n) (byte : UInt8) : Block n :=
  ⟨m.bytes.set i.val byte (by rw [m.size_eq]; exact i.isLt),
    (Array.size_set ..).trans m.size_eq⟩

def ofFn (f : Fin n → UInt8) : Block n := ⟨⟨Array.ofFn f⟩, Array.size_ofFn⟩

def overlay {k : Nat} (m : Block n) (start : Nat) (piece : Block k) (fits : start + k ≤ n) : Block n :=
  ⟨piece.bytes.copySlice 0 m.bytes start k, by
    have hm : m.bytes.data.size = n := m.size_eq
    have hp : piece.bytes.data.size = k := piece.size_eq
    simp only [ByteArray.copySlice, ByteArray.size, Array.size_append, Array.size_extract, hm, hp]
    omega⟩

def ofBytes (n : Nat) (bytes : ByteArray) : Block n :=
  ⟨bytes.extract 0 n ++ (filled (n - bytes.size) 0).bytes, by
    rw [ByteArray.size_append, ByteArray.size_extract, (filled _ 0).size_eq]; omega⟩

@[simp] theorem get_filled (byte : UInt8) (i : Fin n) : (filled n byte).get i = byte := by
  simp only [filled, get, ByteArray.getElem_eq_getElem_data, Array.getElem_replicate]

theorem get_set (m : Block n) (i j : Fin n) (byte : UInt8) :
    (m.set i byte).get j = if i = j then byte else m.get j := by
  simp only [set, get, ByteArray.set, ByteArray.getElem_eq_getElem_data, Array.getElem_set, Fin.ext_iff]

@[simp] theorem get_set_self (m : Block n) (i : Fin n) (byte : UInt8) : (m.set i byte).get i = byte := by
  rw [get_set, if_pos rfl]

theorem get_set_of_ne (m : Block n) {i j : Fin n} (h : i ≠ j) (byte : UInt8) :
    (m.set i byte).get j = m.get j := by
  rw [get_set, if_neg h]

@[simp] theorem get_ofFn (f : Fin n → UInt8) (i : Fin n) : (ofFn f).get i = f i := by
  simp only [ofFn, get, ByteArray.getElem_eq_getElem_data, Array.getElem_ofFn]

theorem get_overlay {k : Nat} (m : Block n) (start : Nat) (piece : Block k) (fits : start + k ≤ n)
    (i : Fin n) :
    (m.overlay start piece fits).get i =
      if h : start ≤ i.val ∧ i.val < start + k then piece.get ⟨i.val - start, by omega⟩ else m.get i := by
  have hi := i.isLt
  have hm : m.bytes.data.size = n := m.size_eq
  have hp : piece.bytes.data.size = k := piece.size_eq
  simp only [overlay, get, ByteArray.getElem_eq_getElem_data, ByteArray.copySlice, Array.getElem_append,
    Array.size_append, Array.size_extract, Array.getElem_extract, hm, hp]
  split
  next inner =>
    split
    next before => rw [dif_neg (by omega)]; simp only [Nat.zero_add]
    next after =>
      rw [dif_pos (by omega)]
      congr 1
      omega
  next outer =>
    rw [dif_neg (by omega)]
    congr 1
    omega

theorem get_ofBytes (bytes : ByteArray) (i : Fin n) :
    (ofBytes n bytes).get i = if h : i.val < bytes.size then bytes[i.val] else 0 := by
  have hi := i.isLt
  have size : (bytes.extract 0 n).size = min n bytes.size := by
    rw [ByteArray.size_extract]; omega
  simp only [ofBytes, get]
  split
  next h =>
    rw [ByteArray.getElem_append_left (by omega), ByteArray.getElem_extract]
    simp only [Nat.zero_add]
  next h =>
    rw [ByteArray.getElem_append_right (by omega)]
    simp only [filled, ByteArray.getElem_eq_getElem_data, Array.getElem_replicate]

end Block

end DotMatrix
