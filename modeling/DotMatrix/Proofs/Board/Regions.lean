import DotMatrix.Board.Address

/-!
The address map read backwards: which addresses reach a region.
-/

namespace DotMatrix

namespace AudioRegister

def offset : AudioRegister → Nat
  | channel index => index.val
  | status => 0x16
  | unused index => 0x17 + index.val
  | wave index => 0x20 + index.val

def address (register : AudioRegister) : UInt16 := UInt16.ofNat (0xFF10 + register.offset)

theorem offset_lt (register : AudioRegister) : register.offset < 0x30 := by
  cases register with
  | status => decide
  | channel index | unused index | wave index =>
    simp only [offset]
    omega

theorem ofOffset_offset (register : AudioRegister) : ofOffset ⟨register.offset, register.offset_lt⟩ = register := by
  cases register with
  | status => rfl
  | channel index | unused index | wave index =>
    revert index
    decide

theorem address_inj {register other : AudioRegister} : register.address = other.address ↔ register = other := by
  refine ⟨?_, congrArg address⟩
  intro same
  have places := congrArg UInt16.toNat same
  have inside := register.offset_lt
  have insideAlso := other.offset_lt
  rw [address, address, UInt16.toNat_ofNat', UInt16.toNat_ofNat'] at places
  have offsets : register.offset = other.offset := by omega
  rw [← ofOffset_offset register, ← ofOffset_offset other]
  exact congrArg ofOffset (Fin.ext offsets)

theorem address_ne {register other : AudioRegister} (apart : register ≠ other) : register.address ≠ other.address :=
  fun same => apart (address_inj.mp same)

end AudioRegister

namespace IoRegister

def offset : IoRegister → Nat
  | joypad => 0x00
  | linkData => 0x01
  | linkControl => 0x02
  | divider => 0x04
  | counter => 0x05
  | modulo => 0x06
  | timerControl => 0x07
  | requests => 0x0F
  | audio register => 0x10 + register.offset
  | lcdControl => 0x40
  | lcdStatus => 0x41
  | scrollY => 0x42
  | scrollX => 0x43
  | line => 0x44
  | lineCompare => 0x45
  | dma => 0x46
  | backgroundPalette => 0x47
  | spritePalette0 => 0x48
  | spritePalette1 => 0x49
  | windowY => 0x4A
  | windowX => 0x4B
  | wramBank => 0x70
  | spare offset => offset.val

theorem offset_ofOffset (place : Fin 0x80) : (ofOffset place).offset = place.val := by
  revert place
  decide

end IoRegister

namespace Region

/-- The addresses at which a region is reached; the work RAM has two for each place. -/
inductive At (address : Nat) : Region → Prop
  | rom {place : Fin 0x8000} (same : address = place.val) : At address (.rom place)
  | vram {offset : Fin 0x2000} (same : address = 0x8000 + offset.val) : At address (.vram offset)
  | cartridgeRam {offset : Fin 0x2000} (same : address = 0xA000 + offset.val) : At address (.cartridgeRam offset)
  | wram {offset : Fin 0x2000} (same : address = 0xC000 + offset.val) : At address (.wram offset)
  | mirror {offset : Fin 0x2000} (same : address = 0xE000 + offset.val) : At address (.wram offset)
  | oam {offset : Fin 0xA0} (same : address = 0xFE00 + offset.val) : At address (.oam offset)
  | gap (inside : 0xFEA0 ≤ address ∧ address < 0xFF00) : At address .gap
  | register {place : Fin 0x80} (same : address = 0xFF00 + place.val) :
      At address (.register (IoRegister.ofOffset place))
  | hram {offset : Fin 0x7F} (same : address = 0xFF80 + offset.val) : At address (.hram offset)
  | enables (same : address = 0xFFFF) : At address .enables

theorem At.of_dite {address : Nat} {p : Prop} [Decidable p] {first : p → Region} {rest : ¬p → Region}
    (here : ∀ h, At address (first h)) (beyond : ∀ h, At address (rest h)) : At address (dite p first rest) := by
  by_cases h : p
  · rw [dif_pos h]
    exact here h
  · rw [dif_neg h]
    exact beyond h

theorem At.of_ite {address : Nat} {p : Prop} [Decidable p] {first rest : Region} (here : p → At address first)
    (beyond : ¬p → At address rest) : At address (if p then first else rest) := At.of_dite here beyond

theorem at_ofAddress (address : UInt16) : At address.toNat (ofAddress address) := by
  have last := address.toNat_lt
  have behind {start : Nat} (beyond : ¬address.toNat < start) : address.toNat = start + (address.toNat - start) :=
    (Nat.add_sub_cancel' (Nat.le_of_not_lt beyond)).symm
  refine .of_dite (fun _ => .rom rfl) fun rom => ?_
  refine .of_dite (fun _ => .vram (behind rom)) fun vram => ?_
  refine .of_dite (fun _ => .cartridgeRam (behind vram)) fun cartridgeRam => ?_
  refine .of_dite (fun _ => .wram (behind cartridgeRam)) fun wram => ?_
  refine .of_dite (fun _ => .mirror (behind wram)) fun mirror => ?_
  refine .of_dite (fun _ => .oam (behind mirror)) fun oam => ?_
  refine .of_ite (fun low => .gap ⟨Nat.le_of_not_lt oam, low⟩) fun gap => ?_
  refine .of_dite (fun _ => .register (behind gap)) fun register => ?_
  exact .of_dite (fun _ => .hram (behind register)) fun hram => .enables (by omega)

theorem at_of_found {address : UInt16} {region : Region} (found : ofAddress address = region) :
    At address.toNat region := by
  rw [← found]
  exact at_ofAddress address

theorem address_eq {address : UInt16} {register : IoRegister} (found : ofAddress address = .register register) :
    address = UInt16.ofNat (0xFF00 + register.offset) := by
  cases at_of_found found with
  | @register place same =>
    have inside := place.isLt
    apply UInt16.toNat.inj
    rw [IoRegister.offset_ofOffset, UInt16.toNat_ofNat', same]
    omega

theorem ofAddress_eq_rom {address : UInt16} {place : Fin 0x8000} :
    ofAddress address = .rom place ↔ address.toNat = place.val := by
  constructor
  · intro found
    cases at_of_found found with
    | rom same => exact same
  · intro same
    have inside : address.toNat < 0x8000 := same ▸ place.isLt
    simp only [ofAddress]
    rw [dif_pos inside]
    exact congrArg rom (Fin.ext same)

theorem ofAddress_eq_cartridgeRam {address : UInt16} {offset : Fin 0x2000} :
    ofAddress address = .cartridgeRam offset ↔ address.toNat = 0xA000 + offset.val := by
  constructor
  · intro found
    cases at_of_found found with
    | cartridgeRam same => exact same
  · intro same
    have inside := offset.isLt
    simp only [ofAddress]
    rw [dif_neg (by omega), dif_neg (by omega), dif_pos (by omega)]
    apply congrArg cartridgeRam
    apply Fin.ext
    simp only
    omega

theorem ofAddress_eq_oam {address : UInt16} {offset : Fin 0xA0} :
    ofAddress address = .oam offset ↔ address.toNat = 0xFE00 + offset.val := by
  constructor
  · intro found
    cases at_of_found found with
    | oam same => exact same
  · intro same
    have inside := offset.isLt
    simp only [ofAddress]
    rw [dif_neg (by omega), dif_neg (by omega), dif_neg (by omega), dif_neg (by omega), dif_neg (by omega),
      dif_pos (by omega)]
    apply congrArg oam
    apply Fin.ext
    simp only
    omega

theorem ofAddress_eq_audio {address : UInt16} {register : AudioRegister} :
    ofAddress address = .register (.audio register) ↔ address = register.address := by
  constructor
  · intro found
    rw [address_eq found, IoRegister.offset, ← Nat.add_assoc]
    rfl
  · rintro rfl
    cases register with
    | status => decide +kernel
    | channel index | unused index | wave index =>
      revert index
      decide +kernel

end Region
end DotMatrix
