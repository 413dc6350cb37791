import DotMatrix.Proofs.Byte
import DotMatrix.Proofs.Console.Saving

/-!
Which images can be loaded. The length of an image and three codes of its header decide, looked at in this order,
and the first that cannot be accepted is the error. An image that is refused leaves the console as it was.
-/

namespace DotMatrix

namespace Header

def knownTypes : List UInt8 := [0x00, 0x01, 0x02, 0x03, 0x08, 0x09, 0x0F, 0x10, 0x11, 0x12, 0x13]

def knownRomSizes : List UInt8 := [0x00, 0x01, 0x02, 0x03, 0x04, 0x05, 0x06, 0x07, 0x08, 0x52, 0x53, 0x54]

def knownRamSizes : List UInt8 := [0x00, 0x01, 0x02, 0x03, 0x04, 0x05]

def faults (image : ByteArray) : List HeaderError :=
  (if image.size < 0x150 then [.tooShort image.size] else [])
    ++ ((image[0x147]?.filter fun code => !knownTypes.contains code).map .cartridgeType).toList
    ++ ((image[0x148]?.filter fun code => !knownRomSizes.contains code).map .romSize).toList
    ++ ((image[0x149]?.filter fun code => !knownRamSizes.contains code).map .ramSize).toList

variable {image other : ByteArray} {error : HeaderError}

theorem isSome_controller (code : UInt8) : (Controller.ofCode? code).isSome = knownTypes.contains code := by
  revert code
  decide +kernel

theorem isSome_romSize (code : UInt8) : (RomSize.ofCode? code).isSome = knownRomSizes.contains code := by
  revert code
  decide +kernel

theorem isSome_ramSize (code : UInt8) : (ramSizeOfCode? code).isSome = knownRamSizes.contains code := by
  revert code
  decide +kernel

theorem getElem?_of_long (long : ¬image.size < reach) {i : Nat} (inside : i < reach) :
    image[i]? = some ((Block.ofBytes reach image).get ⟨i, inside⟩) := by
  have stored : i < image.size := by omega
  rw [Block.get_ofBytes_getD, getElem?_pos image i stored, Option.getD_some]

/-- The first fault of an image is the error. -/
theorem parse_eq_error_iff : parse image = .error error ↔ (faults image).head? = some error := by
  unfold parse faults
  by_cases short : image.size < reach
  · rw [if_pos short, if_pos (show image.size < 0x150 from short)]
    simp only [List.cons_append, List.head?_cons, Except.error.injEq, Option.some.injEq]
  · rw [if_neg short, if_neg (show ¬image.size < 0x150 from short), getElem?_of_long short (show 0x147 < reach by decide),
      getElem?_of_long short (show 0x148 < reach by decide), getElem?_of_long short (show 0x149 < reach by decide),
      ofPage]
    generalize (Block.ofBytes reach image).get ⟨0x147, _⟩ = type
    generalize (Block.ofBytes reach image).get ⟨0x148, _⟩ = rom
    generalize (Block.ofBytes reach image).get ⟨0x149, _⟩ = ram
    simp only [Option.filter_some, ← isSome_controller, ← isSome_romSize, ← isSome_ramSize]
    cases Controller.ofCode? type with
    | none => simp
    | some controller =>
      cases RomSize.ofCode? rom with
      | none => simp
      | some romSize =>
        cases ramSizeOfCode? ram with
        | none => simp
        | some ramSize => simp

/-- Nothing but the bytes from the title to the last code makes a header what it is. -/
theorem ofPage_congr {page side : Block reach}
    (same : ∀ i : Fin reach, 0x134 ≤ i.val → i.val ≤ 0x149 → page.get i = side.get i) : ofPage page = ofPage side := by
  have title : titleBytes page = titleBytes side := by
    apply List.map_congr_left
    intro i _
    have last := i.isLt
    exact same _ (Nat.le_add_right _ _) (by simp only; omega)
  rw [ofPage, ofPage, title, same ⟨0x143, by decide⟩ (by decide) (by decide),
    same ⟨0x147, by decide⟩ (by decide) (by decide), same ⟨0x148, by decide⟩ (by decide) (by decide),
    same ⟨0x149, by decide⟩ (by decide) (by decide)]

theorem parse_congr (long : 0x150 ≤ image.size) (enough : 0x150 ≤ other.size)
    (same : ∀ i, 0x134 ≤ i → i ≤ 0x149 → image[i]? = other[i]?) : parse image = parse other := by
  rw [parse, parse, if_neg (show ¬image.size < reach from Nat.not_lt_of_le long),
    if_neg (show ¬other.size < reach from Nat.not_lt_of_le enough)]
  apply ofPage_congr
  intro i low high
  rw [Block.get_ofBytes_getD, Block.get_ofBytes_getD, same i.val low high]

end Header

namespace Program

variable {banks : Nat} {kind rom ram : UInt8}

theorem getElem?_low (filled : 0 < banks) {i : Nat} (inside : i < 0x4000) :
    (numbered banks kind rom ram).bytes[i]? =
      some (if i = 0x147 then kind else if i = 0x148 then rom else if i = 0x149 then ram else 0) := by
  have first : i / 0x4000 = 0 := by omega
  rw [Block.getElem?_bytes, dif_pos (by omega), numbered, Block.get_ofFn, first]
  rfl

end Program

namespace Console

variable {c : Console} {image : ByteArray} {saved : Option ByteArray} {error : HeaderError} {header : Header}

/-- An image is refused exactly if something is wrong with it, and the first thing that is wrong is the error; then the
whole console is as it was. Otherwise the cartridge and the model are new, the load is noted, and nothing else has
changed. The header depends on no byte of the image beyond its own, and not on the length. -/
theorem load_refuses_or_inserts (c : Console) (image : ByteArray) (saved : Option ByteArray) :
    (∀ error, (c.load image saved).1 = .error error ↔ (Header.faults image).head? = some error) ∧
    (∀ error, (c.load image saved).1 = .error error → (c.load image saved).2 = c) ∧
    (∀ header, (c.load image saved).1 = .ok header → (c.load image saved).2 = c.mapBoard fun b =>
      { b with
        cartridge := some (Cartridge.build header image saved)
        model := header.model
        journal := Board.noteLoad header image saved b.journal }) ∧
    ∀ (other : ByteArray) (kept : Option ByteArray) (d : Console), 0x150 ≤ image.size → 0x150 ≤ other.size →
      (∀ i, 0x134 ≤ i → i ≤ 0x149 → image[i]? = other[i]?) → (d.load other kept).1 = (c.load image saved).1 := by
  simp only [result_load]
  refine ⟨fun error => Header.parse_eq_error_iff, ?_, ?_, ?_⟩
  · intro error refused
    simp only [load, Board.load, refused]
  · intro header accepted
    simp only [load, Board.load_eq accepted]
    rfl
  · intro other kept d long enough same
    exact (Header.parse_congr long enough same).symm

/-- A console that is running with its RAM open is given an image with two unknown codes: the first is the error, and
nothing has changed. Images of two and of five banks with the same codes have the same header. -/
theorem load_refuses_two_codes :
    let running := ((postBoot {}).load (Program.numbered 2 0x13 0x00 0x01).bytes none).2.operateAll
      [.write 0x0000 0x0A, .write 0xA001 0x55, .call .step]
    let image := (Program.numbered 2 0x01 0x09 0x06).bytes
    running.load image none = (.error (.romSize 0x09), running) ∧
      ((postBoot {}).load (Program.numbered 5 0x01 0x02 0x00).bytes none).1 =
        (running.load (Program.numbered 2 0x01 0x02 0x00).bytes none).1 := by
  intro running image
  -- whatever the console is, so that its step is not carried out
  clear_value running
  obtain ⟨refused, kept, _⟩ := load_refuses_or_inserts running image none
  have code {i : Nat} (inside : i < 0x4000) := @Program.getElem?_low 2 0x01 0x09 0x06 (by decide) i inside
  have error : (running.load image none).1 = .error (.romSize 0x09) := by
    rw [refused, Header.faults, code (by decide), code (by decide), code (by decide),
      if_neg (show ¬image.size < 0x150 by rw [Block.size_eq]; decide)]
    decide
  refine ⟨Prod.ext error (kept _ error), ?_⟩
  obtain ⟨_, _, _, same⟩ := load_refuses_or_inserts running (Program.numbered 2 0x01 0x02 0x00).bytes none
  apply same
  · rw [Block.size_eq]
    decide
  · rw [Block.size_eq]
    decide
  · intro i low high
    rw [Program.getElem?_low (by decide) (by omega), Program.getElem?_low (by decide) (by omega)]

end Console
end DotMatrix
