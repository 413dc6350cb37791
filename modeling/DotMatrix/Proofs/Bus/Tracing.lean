import DotMatrix.FlatMemory
import DotMatrix.Proofs.Bus.Simulation

/-!
A memory that lists how it is accessed. Tracing changes no answer, and what memory holds afterwards can be read off
the list.
-/

namespace DotMatrix

inductive MemoryAccess where
  | read (address : UInt16) (byte : UInt8)
  | write (address : UInt16) (byte : UInt8)
  deriving DecidableEq, Repr

namespace MemoryAccess

def leaves (address : UInt16) (before : UInt8) : MemoryAccess → UInt8
  | .read .. => before
  | .write target byte => if target = address then byte else before

def replay (address : UInt16) (before : UInt8) (accesses : List MemoryAccess) : UInt8 :=
  accesses.foldl (leaves address) before

theorem replay_append (address : UInt16) (before : UInt8) (first second : List MemoryAccess) :
    replay address before (first ++ second) = replay address (replay address before first) second :=
  List.foldl_append

theorem replay_of_spared {address : UInt16} {accesses : List MemoryAccess}
    (spared : ∀ byte, .write address byte ∉ accesses) (before : UInt8) : replay address before accesses = before := by
  induction accesses with
  | nil => rfl
  | cons access rest ih =>
    have later : ∀ byte, .write address byte ∉ rest := fun byte listed => spared byte (List.mem_cons_of_mem _ listed)
    have here : access.leaves address before = before := by
      cases access with
      | read => rfl
      | write target byte =>
        have other : target ≠ address := by
          rintro rfl
          exact spared byte List.mem_cons_self
        exact if_neg other
    rw [replay, List.foldl_cons, here]
    exact ih later

end MemoryAccess

structure TracedMemory where
  memory : FlatMemory
  accesses : List MemoryAccess

namespace TracedMemory

instance : Bus TracedMemory where
  read address t :=
    (t.memory.get address, { t with accesses := t.accesses ++ [.read address (t.memory.get address)] })
  write address byte t := ⟨t.memory.put address byte, t.accesses ++ [.write address byte]⟩
  note _ t := t

theorem answers : Bus.Answers fun (t : TracedMemory) (memory : FlatMemory) => t.memory.get = memory.get where
  read address t memory same := ⟨congrFun same address, same⟩
  write address byte t memory same := by
    funext other
    change (t.memory.put address byte).get other = (memory.put address byte).get other
    rw [FlatMemory.get_put, FlatMemory.get_put, same]
  note _ _ _ same := same

/-- Memory holds what the accesses have left there. -/
theorem replays (address : UInt16) (before : UInt8) :
    Bus.AccessInvariant fun t : TracedMemory =>
      t.memory.get address = MemoryAccess.replay address before t.accesses where
  read target t holds := by
    change t.memory.get address = MemoryAccess.replay address before (t.accesses ++ [_])
    rw [MemoryAccess.replay_append]
    exact holds
  write target byte t holds := by
    change (t.memory.put target byte).get address = MemoryAccess.replay address before (t.accesses ++ [_])
    rw [MemoryAccess.replay_append, ← holds]
    exact FlatMemory.get_put t.memory target address byte
  note _ _ holds := holds

end TracedMemory

end DotMatrix
