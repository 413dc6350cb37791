import DotMatrix.Proofs.Cartridge.Replay
import DotMatrix.Proofs.Console.RomMapping

/-!
Handing the RAM over and putting it back. What is handed over is the RAM as the writes since the load have left it,
and a console into which the image is loaded with these bytes goes on where the first one was.
-/

namespace DotMatrix

namespace Console

variable {c loaded : Console} {image : ByteArray} {saved : Option ByteArray} {header : Header}

theorem operateAll_append (first second : List Operation) (c : Console) :
    c.operateAll (first ++ second) = (c.operateAll first).operateAll second := List.foldl_append

/-- The RAM is handed over if someone keeps it and it is not empty; handing it over changes nothing of it. -/
theorem save_eq {ram : ByteArray} (holds : c.board.cartridgeRam = some ram) :
    c.save.1 = (if c.hasKeeper = true ∧ ram.size ≠ 0 then some ram else none) ∧
      c.save.2.hasKeeper = c.hasKeeper ∧ c.save.2.board.cartridgeRam = some ram := by
  rw [save]
  by_cases kept : c.hasKeeper = true
  · rw [if_pos kept, holds]
    by_cases empty : ram.size = 0
    · rw [if_neg fun both => both.2 empty]
      simp only [if_pos empty]
      exact ⟨trivial, rfl, holds⟩
    · rw [if_pos ⟨kept, empty⟩]
      simp only [if_neg empty]
      exact ⟨trivial, rfl, holds⟩
  · rw [if_neg kept, if_neg (fun both => kept both.1)]
    exact ⟨rfl, rfl, holds⟩

/-- Saving hands over the RAM of the declared size, once and only if there is any and someone keeps it, and as long as
nothing was written to it that is the saved RAM, cut off or followed by zeros. Loaded again with these bytes, into a
fresh console or any other, the image has the same RAM, which is handed over again; and from then on the two consoles
show the same bytes of it, as long as the writes to the controllers have been the same since the image was loaded, and
those to the RAM since it was handed over. -/
theorem save_restores_ram (inserted : c.load image saved = (.ok header, loaded)) (operations : List Operation)
    (stay : ∀ operation ∈ operations, operation.keepsCartridge = true) :
    let final := loaded.operateAll operations
    let history := loaded.writesOf operations
    let ram := history.ramBytes header saved
    final.save.1 = (if final.hasKeeper = true ∧ header.ramSize ≠ 0 then some ram else none) ∧
    ram.size = header.ramSize ∧
    (history.ramWrites header = [] → ram = header.paddedRam saved) ∧
    final.save.2.save.1 = final.save.1 ∧
    ∀ other : Console, ∃ restored, other.load image (some ram) = (.ok header, restored) ∧
      final.board.cartridgeRam = some ram ∧ restored.board.cartridgeRam = some ram ∧
      restored.save.1 = (if other.hasKeeper = true ∧ header.ramSize ≠ 0 then some ram else none) ∧
      ∀ further replayed : List Operation,
        (∀ operation ∈ further ++ replayed, operation.keepsCartridge = true) →
        let whole := loaded.writesOf (operations ++ further)
        let later := restored.writesOf replayed
        whole.controls = later.controls → whole.ramWrites header = later.ramWrites header ++ history.ramWrites header →
        ∀ address : UInt16, 0xA000 ≤ address.toNat ∧ address.toNat ≤ 0xBFFF →
          (∀ register, later.cell? header address ≠ some (.clock register)) →
          (final.operateAll further).board.read address = (restored.operateAll replayed).board.read address := by
  intro final history ram
  have holds : final.board.cartridgeRam = some ram := (holds_operateAll inserted stay).cartridgeRam
  have size : ram.size = header.ramSize := History.size_ramBytes ..
  obtain ⟨handed, keeper, kept⟩ := save_eq holds
  have again := (save_eq kept).1
  rw [size] at handed again
  refine ⟨handed, size, History.ramBytes_of_untouched, ?_, ?_⟩
  · rw [again, handed, keeper]
  intro other
  have reload := load_eq_of_parse (parse_of_load inserted) (some ram) other
  generalize (other.load image (some ram)).2 = restored at reload
  have sameKeeper : restored.hasKeeper = other.hasKeeper :=
    (congrArg (fun x => hasKeeper x.2) reload).symm.trans rfl
  have same : restored.board.cartridgeRam = some ram := by
    rw [(holds_loaded reload).cartridgeRam, History.ramBytes_resumed]
  refine ⟨restored, reload, holds, same, ?_, ?_⟩
  · rw [(save_eq same).1, size, sameKeeper]
  intro further replayed stays whole later controls writes address inside noClock
  obtain ⟨here, there⟩ := List.forall_mem_append.mp stays
  have shown := (holds_operateAll inserted (List.forall_mem_append.mpr ⟨stay, here⟩)).read_ram inside
  have shown' := (holds_operateAll reload there).read_ram inside
  have cell : whole.cell? header address = later.cell? header address := by
    rw [← History.cell?_controls header address whole, controls, History.cell?_controls]
  rw [operateAll_append, cell] at shown
  rw [shown, shown']
  cases found : later.cell? header address with
  | none => rfl
  | some cell =>
    cases cell with
    | clock register => exact absurd found (noClock register)
    | ram place => exact (History.byteOf_resumed (History.lt_of_cell? found) writes).symm

/-- A RAM of 2 KiB, saved as two bytes: one of them is overwritten, the RAM is handed over with both, and a new console
with a keeper of its own shows them after the same writes to the controller. -/
theorem save_restores_ram_small :
    let image := (Program.numbered 2 0x13 0x00 0x01).bytes
    let saved : ByteArray := ⟨#[0x11, 0x22]⟩
    let loaded := ((postBoot {}).load image (some saved)).2
    let operations : List Operation :=
      [.call .keep, .write 0x0000 0x0A, .write 0xA001 0x55, .call (.press .start), .tick 80]
    ∃ ram restored, (loaded.operateAll operations).save.1 = some ram ∧ ram.size = 0x800 ∧
      (postBoot {}).load image (some ram) = (.ok ⟨"", .mbc3, ⟨2, by decide⟩, 0x800, false⟩, restored) ∧
      restored.board.cartridgeRam = some ram ∧
      (restored.operateAll [.write 0x0000 0x0A]).board.read 0xA801 =
        (loaded.operateAll operations).board.read 0xA801 := by
  intro image saved loaded operations
  have parsed := @Program.parse_numbered 2 0x13 0x00 0x01 (by decide) .mbc3 ⟨2, by decide⟩ 0x800 rfl rfl rfl
  have inserted := load_eq_of_parse parsed (some saved) (postBoot {})
  obtain ⟨handed, size, _, _, again⟩ := save_restores_ram inserted operations (by decide)
  obtain ⟨restored, reload, _, same, _, shows'⟩ := again (postBoot {})
  have kept : (loaded.operateAll operations).hasKeeper = true := rfl
  refine ⟨_, restored, handed.trans (if_pos ⟨kept, by decide⟩), size, reload, same, ?_⟩
  have replayed : restored.writesOf [.write 0x0000 0x0A] = [⟨0x0000, 0x0A⟩] := rfl
  have whole : loaded.writesOf (operations ++ []) = [⟨0xA001, 0x55⟩, ⟨0x0000, 0x0A⟩] := rfl
  have earlier : loaded.writesOf operations = [⟨0xA001, 0x55⟩, ⟨0x0000, 0x0A⟩] := rfl
  have further := shows' [] [.write 0x0000 0x0A] (by decide)
  rw [replayed, whole, earlier, ← operateAll_append, List.append_nil] at further
  symm
  apply further (by decide) (by decide) 0xA801 (by decide)
  have cell : History.cell? ⟨"", .mbc3, ⟨2, by decide⟩, 0x800, false⟩ 0xA801 [⟨0x0000, 0x0A⟩] = some (.ram 1) := by
    decide
  intro register
  rw [cell]
  nofun

end Console
end DotMatrix
