import DotMatrix.Proofs.Board.History
import DotMatrix.Proofs.Console.Frames

/-!
What can be done to a console: a call, or a write or a batch of cycles put on its bus from outside. The writes of
an operation, those of the programs that run in it included, make up its history, and a law holds along any
operations that leave the cartridge in its place.
-/

namespace DotMatrix.Console

inductive Operation where
  | call (call : Call)
  | write (address : UInt16) (byte : UInt8)
  | tick (cycles : Nat)

def Operation.keepsCartridge : Operation → Bool
  | .call (.load _ _) | .call .reset => false
  | _ => true

def Operation.isReset : Operation → Bool
  | .call .reset => true
  | _ => false

def operate (c : Console) : Operation → Console
  | .call call => c.after call
  | .write address byte => c.mapBoard (·.write address byte)
  | .tick cycles => c.mapBoard fun b => (b.tick cycles).2

def operateAll (c : Console) (operations : List Operation) : Console := operations.foldl operate c

def accessesOf (c : Console) : Operation → List Access
  | .call .step => c.machine.traffic
  | .call .runFrame => c.frameTraffic
  | .write address byte => [.write address byte]
  | _ => []

def accessesOfAll : List Operation → Console → List Access
  | [], _ => []
  | operation :: rest, c => c.accessesOf operation ++ accessesOfAll rest (c.operate operation)

/-- What some operations write, those of the programs that run included. -/
def writesOf (c : Console) (operations : List Operation) : History :=
  Access.record (c.accessesOfAll operations) []

end Console

namespace Law

open Console

variable {P : History → Board → Prop} {history : History} {c : Console}

theorem consoleStep (law : Law P) (holds : P history c.board) :
    P (Access.record c.machine.traffic history) c.step.2.board := law.step holds

theorem continueFrame (law : Law P) {elapsed : Nat} (holds : P history c.board) :
    P (Access.record (c.continueTraffic elapsed) history) (c.continueFrame elapsed).2.board := by
  fun_induction Console.continueFrame elapsed c generalizing history with
  | case1 elapsed c fault next stepped =>
    have kept := law.consoleStep holds
    rw [stepped] at kept
    rw [continueTraffic_error stepped]
    exact kept
  | case2 elapsed c cycles next stepped within ends =>
    have kept := law.consoleStep holds
    rw [stepped] at kept
    rw [continueTraffic_ok stepped, if_pos within, if_pos ends, List.append_nil]
    exact law.clearFrame kept
  | case3 elapsed c cycles next stepped within goesOn ih =>
    have kept := law.consoleStep holds
    rw [stepped] at kept
    rw [continueTraffic_ok stepped, if_pos within, if_neg goesOn, Access.record_append]
    exact ih kept
  | case4 elapsed c cycles next stepped beyond =>
    have kept := law.consoleStep holds
    rw [stepped] at kept
    rw [continueTraffic_ok stepped, if_neg beyond, List.append_nil]
    exact kept

theorem runFrame (law : Law P) (holds : P history c.board) :
    P (Access.record c.frameTraffic history) c.runFrame.2.board :=
  law.continueFrame (c := c.clearFrame) (law.clearFrame holds)

theorem save (law : Law P) (holds : P history c.board) : P history c.save.2.board := by
  simp only [Console.save]
  split
  next =>
    split
    next =>
      split
      next => exact law.note holds _
      next => exact law.note holds _
    next => exact law.note holds _
  next => exact holds

/-- An operation other than a reset keeps a law if loading does. -/
theorem operate_loading (law : Law P) {operation : Operation} (goesOn : operation.isReset = false)
    (loads : ∀ image saved, operation = .call (.load image saved) → P history (c.board.load image saved).2)
    (holds : P history c.board) :
    P (Access.record (c.accessesOf operation) history) (c.operate operation).board := by
  cases operation with
  | write address byte => exact law.write holds address byte
  | tick cycles => exact law.tick holds cycles
  | call call =>
    cases call with
    | load image saved => exact loads image saved rfl
    | reset => cases goesOn
    | step => exact law.consoleStep holds
    | runFrame => exact law.runFrame holds
    | press button => exact law.press holds button
    | release button => exact law.release holds button
    | save => exact law.save holds
    | keep => exact holds
    | copyPicture => exact holds

theorem operate (law : Law P) {operation : Operation} (stays : operation.keepsCartridge = true)
    (holds : P history c.board) :
    P (Access.record (c.accessesOf operation) history) (c.operate operation).board := by
  apply law.operate_loading _ _ holds
  · cases operation with
    | call call => cases call <;> first | rfl | cases stays
    | _ => rfl
  · rintro image saved rfl
    cases stays

/-- What each of some operations keeps, all of them keep. -/
theorem operateAll_of {operations : List Operation}
    (each : ∀ operation ∈ operations, ∀ {c : Console} {history : History}, P history c.board →
      P (Access.record (c.accessesOf operation) history) (c.operate operation).board) (holds : P history c.board) :
    P (Access.record (c.accessesOfAll operations) history) (c.operateAll operations).board := by
  induction operations generalizing c history with
  | nil => exact holds
  | cons operation rest ih =>
    obtain ⟨here, later⟩ := List.forall_mem_cons.mp each
    rw [accessesOfAll, Access.record_append]
    exact ih later (here holds)

theorem operateAll (law : Law P) {operations : List Operation}
    (stay : ∀ operation ∈ operations, operation.keepsCartridge = true) (holds : P history c.board) :
    P (Access.record (c.accessesOfAll operations) history) (c.operateAll operations).board :=
  operateAll_of (fun operation listed => law.operate (stay operation listed)) holds

/-- A law that loading keeps holds until the console starts over. -/
theorem operateAll_loading (law : Law P)
    (loads : ∀ {history : History} {b : Board}, P history b → ∀ image saved, P history (b.load image saved).2)
    {operations : List Operation} (goOn : ∀ operation ∈ operations, operation.isReset = false)
    (holds : P history c.board) :
    P (Access.record (c.accessesOfAll operations) history) (c.operateAll operations).board := by
  apply operateAll_of _ holds
  intro operation listed c history here
  apply law.operate_loading (goOn operation listed) _ here
  intro image saved _
  exact loads here image saved

end Law
end DotMatrix
