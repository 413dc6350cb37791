import DotMatrix.Proofs.Cartridge.Cells

/-!
What the RAM of a cartridge owes to its history. The bytes of the RAM follow from the writes that have reached it, in
their order, and the cell that an address stands for from the writes to the controller alone.
-/

namespace DotMatrix

def Header.paddedRam (header : Header) (saved : Option ByteArray) : ByteArray :=
  ⟨Array.ofFn fun i : Fin header.ramSize => (saved.getD ByteArray.empty)[i.val]?.getD 0⟩

namespace History

def controls (history : History) : History := history.filter fun write => write.address.toNat < 0x8000

def ramPlace? (header : Header) (write : Write) (earlier : History) : Option Nat :=
  if write.into 0xA000 0xBFFF then
    match earlier.cell? header write.address with
    | some (.ram place) => some place
    | _ => none
  else none

def ramWrites (header : Header) : History → List (Nat × UInt8)
  | [] => []
  | write :: earlier =>
    match ramPlace? header write earlier with
    | some place => (place, write.byte) :: ramWrites header earlier
    | none => ramWrites header earlier

def ramBytes (header : Header) (saved : Option ByteArray) (history : History) : ByteArray :=
  ⟨Array.ofFn fun i : Fin header.ramSize => history.byteOf header saved (.ram i.val)⟩

variable {header : Header} {saved : Option ByteArray} {history : History} {address : UInt16} {place : Nat}

theorem size_ramBytes (header : Header) (saved : Option ByteArray) (history : History) :
    (history.ramBytes header saved).size = header.ramSize := Array.size_ofFn

theorem getElem?_ramBytes (inside : place < header.ramSize) :
    (history.ramBytes header saved)[place]? = some (history.byteOf header saved (.ram place)) := by
  have size : place < (history.ramBytes header saved).size := by rwa [size_ramBytes]
  rw [getElem?_pos (history.ramBytes header saved) place size]
  exact congrArg some (Array.getElem_ofFn _)

/-- What depends on the writes to the controller alone can be read off them. -/
theorem last_controls {α : Type} {meets : Write → History → Bool}
    (low : ∀ write earlier, meets write earlier = true → write.address.toNat < 0x8000)
    (through : ∀ write earlier, meets write (controls earlier) = meets write earlier) (value : UInt8 → α) (initial : α)
    (history : History) : last meets value initial history.controls = last meets value initial history := by
  induction history with
  | nil => rfl
  | cons write earlier ih =>
    by_cases control : write.address.toNat < 0x8000
    · have kept : controls (write :: earlier) = write :: controls earlier :=
        List.filter_cons_of_pos (decide_eq_true control)
      simp only [kept, last, through, ih]
    · have dropped : controls (write :: earlier) = controls earlier :=
        List.filter_cons_of_neg (by simpa only [decide_eq_true_eq] using control)
      have miss : meets write earlier = false := by
        apply Bool.eq_false_iff.mpr
        exact fun hit => control (low write earlier hit)
      rw [dropped, last_miss miss, ih]

theorem low_of_into {first last' : Nat} {write : Write} (into : write.into first last' = true)
    (below : last' < 0x8000) : write.address.toNat < 0x8000 := by
  simp only [Write.into, Bool.and_eq_true, decide_eq_true_eq] at into
  omega

theorem ramEnabled_controls (history : History) : history.controls.ramEnabled = history.ramEnabled :=
  last_controls (fun _ _ into => low_of_into into (by decide)) (fun _ _ => rfl) _ _ _

theorem ramMode_controls (history : History) : history.controls.ramMode = history.ramMode :=
  last_controls (fun _ _ into => low_of_into into (by decide)) (fun _ _ => rfl) _ _ _

theorem upperBits_controls (inRamMode : Bool) (history : History) :
    history.controls.upperBits inRamMode = history.upperBits inRamMode := by
  apply last_controls
  · intro write earlier hit
    exact low_of_into (Bool.and_eq_true_iff.mp hit).1 (by decide)
  · intro write earlier
    rw [ramMode_controls]

theorem selector_controls (history : History) : history.controls.selector = history.selector := by
  apply last_controls
  · intro write earlier hit
    exact low_of_into (Bool.and_eq_true_iff.mp hit).1 (by decide)
  · exact fun _ _ => rfl

/-- The writes to the controller decide which cell an address stands for. -/
theorem cell?_controls (header : Header) (address : UInt16) (history : History) :
    history.controls.cell? header address = history.cell? header address := by
  simp only [cell?, ramEnabled_controls, upperBits_controls, selector_controls]

theorem lt_of_cell? (found : history.cell? header address = some (.ram place)) : place < header.ramSize := by
  have within {bank : Nat} (found : ramCell? header.ramSize bank address = some (.ram place)) :
      place < header.ramSize := by
    rw [ramCell?] at found
    split at found
    next => cases found
    next filled =>
      cases found
      exact Nat.mod_lt _ (Nat.pos_of_ne_zero filled)
  rw [cell?] at found
  split at found
  next => exact within found
  next =>
    split at found
    next => exact within found
    next => cases found
  next =>
    split at found
    next =>
      split at found
      next => exact within found
      next => cases found
    next => cases found

/-- The last write to a place of the RAM says what it holds. -/
theorem byteOf_ram (header : Header) (saved : Option ByteArray) (place : Nat) (history : History) :
    history.byteOf header saved (.ram place) =
      ((history.ramWrites header).lookup place).getD ((Cell.ram place).initial header saved) := by
  induction history with
  | nil => rfl
  | cons write earlier ih =>
    have reaches : (write.into 0xA000 0xBFFF && cell? header write.address earlier == some (.ram place)) =
        (ramPlace? header write earlier == some place) := by
      rw [Bool.eq_iff_iff, ramPlace?]
      cases write.into 0xA000 0xBFFF with
      | false => simp only [Bool.false_and, Bool.false_eq_true, if_false, beq_iff_eq, reduceCtorEq]
      | true =>
        rcases cell? header write.address earlier with _ | ⟨other⟩ | ⟨register⟩ <;>
          simp only [Bool.true_and, if_true, beq_iff_eq, reduceCtorEq, Option.some.injEq, Cell.ram.injEq]
    rw [byteOf] at ih ⊢
    simp only [last, reaches, ramWrites]
    cases reached : ramPlace? header write earlier with
    | none => simpa using ih
    | some other =>
      by_cases here : other = place
      · subst here
        simp
      · have apart : (place == other) = false := beq_false_of_ne (Ne.symm here)
        simp [List.lookup_cons, here, apart, ih]

theorem ramBytes_of_untouched (untouched : history.ramWrites header = []) :
    history.ramBytes header saved = header.paddedRam saved := by
  have each (i : Fin header.ramSize) :
      history.byteOf header saved (.ram i.val) = (saved.getD ByteArray.empty)[i.val]?.getD 0 := by
    rw [byteOf_ram, untouched]
    exact if_pos i.isLt
  simp only [ramBytes, Header.paddedRam, each]

/-- A history that starts from the RAM of another one goes on as the other would. -/
theorem byteOf_resumed {earlier later whole : History} (inside : place < header.ramSize)
    (same : whole.ramWrites header = later.ramWrites header ++ earlier.ramWrites header) :
    later.byteOf header (some (earlier.ramBytes header saved)) (.ram place) =
      whole.byteOf header saved (.ram place) := by
  have start : (Cell.ram place).initial header (some (earlier.ramBytes header saved)) =
      earlier.byteOf header saved (.ram place) := by
    simp only [Cell.initial, if_pos inside, Option.getD_some, getElem?_ramBytes inside]
  rw [byteOf_ram, byteOf_ram, start, byteOf_ram, same, List.lookup_append]
  cases (later.ramWrites header).lookup place <;> rfl

theorem ramBytes_resumed (header : Header) (saved : Option ByteArray) (history : History) :
    ramBytes header (some (history.ramBytes header saved)) [] = history.ramBytes header saved := by
  have each (i : Fin header.ramSize) :
      byteOf header (some (history.ramBytes header saved)) (.ram i.val) [] =
        history.byteOf header saved (.ram i.val) := byteOf_resumed i.isLt rfl
  rw [ramBytes]
  simp only [each]
  rfl

end History

namespace Cartridge

variable {c : Cartridge} {header : Header} {image : ByteArray} {saved : Option ByteArray} {history : History}

theorem Reflects.bytes_ram (h : c.Reflects header image saved history) :
    c.ram.bytes = history.ramBytes header saved := by
  apply ByteArray.ext_getElem
  · rw [c.ram.size_eq, h.ramSize, History.size_ramBytes]
  · intro i low high
    have inside : i < c.ramSize := by rwa [c.ram.size_eq] at low
    have declared : i < header.ramSize := h.ramSize ▸ inside
    have byte : c.ram.get ⟨i, inside⟩ = history.byteOf header saved (.ram i) := by
      rw [← h.contents]
      exact (show c.contents (.ram i) = c.ram.get ⟨i, inside⟩ from dif_pos inside).symm
    have shown := @History.getElem?_ramBytes header saved history i declared
    rw [getElem?_pos (history.ramBytes header saved) i high, ← byte] at shown
    exact (Option.some.inj shown).symm

end Cartridge

namespace Board

variable {b : Board} {header : Header} {image : ByteArray} {saved : Option ByteArray} {history : History}

theorem Holds.cartridgeRam (holds : b.Holds header image saved history) :
    b.cartridgeRam = some (history.ramBytes header saved) := by
  obtain ⟨c, inserted, reflects⟩ := holds
  rw [Board.cartridgeRam, inserted, Option.map_some, reflects.bytes_ram]

/-- The RAM area shows the byte of the cell for which the address stands. -/
theorem Holds.read_ram (holds : b.Holds header image saved history) {address : UInt16}
    (inside : 0xA000 ≤ address.toNat ∧ address.toNat ≤ 0xBFFF) :
    b.read address = match history.cell? header address with
      | some cell => history.byteOf header saved cell
      | none => 0 := by
  obtain ⟨c, inserted, reflects⟩ := holds
  have place : address.toNat = 0xA000 + (address.toNat - 0xA000) := by omega
  let offset : Fin 0x2000 := ⟨address.toNat - 0xA000, by omega⟩
  have region : Region.ofAddress address = .cartridgeRam offset := Region.ofAddress_eq_cartridgeRam.mpr place
  have shown : c.cell? offset = history.cell? header address := reflects.cell? place
  rw [read, region]
  simp only [readRegion, inserted]
  rw [Cartridge.readRam_eq, shown]
  cases history.cell? header address with
  | some cell => exact reflects.contents cell
  | none => rfl

end Board
end DotMatrix
