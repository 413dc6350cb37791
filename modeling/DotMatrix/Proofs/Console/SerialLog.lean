import DotMatrix.Proofs.Board.Requests
import DotMatrix.Proofs.Byte
import DotMatrix.Proofs.Console.Ports

/-!
The bytes sent over the serial link. A transfer sends the byte last written to the link, or what a transfer has left
there, and the log of all bytes sent is told by the writes since the console started over.
-/

namespace DotMatrix

/-- A write that begins a transfer: the start bit and the internal clock. -/
def Write.transfers (write : Write) : Bool :=
  write.address == 0xFF02 && (Byte.has write.byte 0x80 && Byte.has write.byte 0x01)

namespace History

/-- The byte that would be sent next: the last one written to FF01 since the last transfer. If there is none, it is
the byte that the transfer received, or the one from before any transfer. -/
def outgoing (history : History) : UInt8 :=
  match (history.takeWhile (!·.transfers)).find? (·.address == 0xFF01) with
  | some write => write.byte
  | none => if history.any Write.transfers then 0xFF else 0x00

def sent : History → List UInt8
  | [] => []
  | write :: earlier => if write.transfers then sent earlier ++ [outgoing earlier] else sent earlier

variable {history : History} {write : Write}

theorem outgoing_of_transfers (transfers : write.transfers = true) : outgoing (write :: history) = 0xFF := by
  rw [outgoing, List.takeWhile_cons, transfers, List.any_cons, transfers]
  rfl

theorem outgoing_cons (quiet : write.transfers = false) :
    outgoing (write :: history) = if write.address = 0xFF01 then write.byte else history.outgoing := by
  rw [outgoing, List.takeWhile_cons, quiet, Bool.not_false, if_pos rfl, List.find?_cons, List.any_cons, quiet,
    Bool.false_or]
  by_cases data : write.address = 0xFF01
  · rw [if_pos data, beq_iff_eq.mpr data]
  · rw [if_neg data, beq_eq_false_iff_ne.mpr data, outgoing]

theorem sent_cons (write : Write) (history : History) :
    sent (write :: history) = if write.transfers then history.sent ++ [history.outgoing] else history.sent := rfl

end History

def Access.transfers : Access → Bool
  | .write address byte => Write.transfers ⟨address, byte⟩
  | _ => false

/-- Accesses add one byte for each transfer behind what has been sent. -/
theorem History.sent_record (seen : List Access) (history : History) :
    ∃ more, (Access.record seen history).sent = history.sent ++ more ∧ more.length = seen.countP Access.transfers := by
  induction seen generalizing history with
  | nil => exact ⟨[], (List.append_nil _).symm, rfl⟩
  | cons access seen ih =>
    obtain ⟨more, sent, size⟩ := ih (access.extend history)
    have first : Access.record (access :: seen) history = Access.record seen (access.extend history) := rfl
    rw [first, sent, List.countP_cons, ← size]
    cases access with
    | write address byte =>
      rw [Access.extend, sent_cons, Access.transfers]
      split
      next => exact ⟨history.outgoing :: more, List.append_assoc _ _ _, List.length_cons⟩
      next => exact ⟨more, rfl, rfl⟩
    | note event => exact ⟨more, rfl, rfl⟩
    | batch cycles => exact ⟨more, rfl, rfl⟩

namespace SerialLink

variable {link : SerialLink} {history : History}

theorem startsTransfer_eq (byte : UInt8) : startsTransfer byte = (Byte.has byte 0x80 && Byte.has byte 0x01) := by
  revert byte
  decide +kernel

theorem startsTransfer_ended (byte : UInt8) : startsTransfer (byte &&& 0x7F) = false := by
  revert byte
  decide +kernel

/-- The link holds what the writes have left in it, and no transfer is under way. -/
structure Follows (history : History) (link : SerialLink) : Prop where
  data : link.data = history.outgoing
  sent : link.sent.toList = history.sent
  idle : startsTransfer link.control = false

theorem follows_initial : Follows [] {} := ⟨rfl, rfl, rfl⟩

theorem Follows.elsewhere (h : Follows history link) {write : Write} (quiet : write.transfers = false)
    (apart : write.address ≠ 0xFF01) : Follows (write :: history) link where
  data := by
    rw [History.outgoing_cons quiet, if_neg apart]
    exact h.data
  sent := by
    rw [History.sent_cons, quiet]
    exact h.sent
  idle := h.idle

theorem Follows.writeData (h : Follows history link) (byte : UInt8) :
    Follows (⟨0xFF01, byte⟩ :: history) (link.writeData byte) where
  data := by
    rw [History.outgoing_cons rfl, if_pos rfl]
    rfl
  sent := h.sent
  idle := h.idle

theorem Follows.writeControl (h : Follows history link) (byte : UInt8) :
    Follows (⟨0xFF02, byte⟩ :: history) (link.writeControl byte) := by
  have transfers : Write.transfers ⟨0xFF02, byte⟩ = startsTransfer byte := (startsTransfer_eq byte).symm
  rw [SerialLink.writeControl]
  split
  next starts =>
    rw [starts] at transfers
    refine ⟨(History.outgoing_of_transfers transfers).symm, ?_, startsTransfer_ended byte⟩
    rw [History.sent_cons, transfers, if_pos rfl, Array.toList_push, h.sent, h.data]
  next starts =>
    rw [Bool.eq_false_iff.mpr starts] at transfers
    have apart : (0xFF02 : UInt16) ≠ 0xFF01 := by decide
    have kept := h.elsewhere transfers apart
    exact ⟨kept.data, kept.sent, Bool.eq_false_iff.mpr starts⟩

end SerialLink

namespace Board

variable {b : Board} {history : History}

theorem link_follows_write (h : SerialLink.Follows history b.link) (address : UInt16) (byte : UInt8) :
    SerialLink.Follows (⟨address, byte⟩ :: history) (b.write address byte).link := by
  rw [link_write]
  split
  next data =>
    subst data
    exact h.writeData byte
  next apart =>
    split
    next control =>
      subst control
      exact h.writeControl byte
    next elsewhere =>
      have quiet : Write.transfers ⟨address, byte⟩ = false := by
        rw [Write.transfers, beq_eq_false_iff_ne.mpr elsewhere, Bool.false_and]
      exact h.elsewhere quiet apart

theorem requests_of_transfers {write : Write} (transfers : write.transfers = true) (b : Board) :
    (b.write write.address write.byte).requests = b.requests ||| 0x08 := by
  obtain ⟨address, byte⟩ := write
  obtain ⟨here, starts⟩ : address = 0xFF02 ∧ SerialLink.startsTransfer byte = true := by
    rw [Write.transfers, Bool.and_eq_true, beq_iff_eq, ← SerialLink.startsTransfer_eq] at transfers
    exact transfers
  subst here
  rw [write_linkControl, writeLinkControl, if_pos starts]
  rfl

end Board

namespace Console

/-- However a console is used and whatever runs in it, its serial output is the list of the bytes sent since it was made
or started over, one for each write to FF02 with bits 7 and 0 set, in their order. Such a write asks for the serial
interrupt. An operation other than starting over appends a byte for each such write that comes with it, and leaves
the bytes before as they are. FF02 never shows both bits set. -/
theorem serial_output_complete (journal : Journal) (operations : List Operation) :
    let c := (postBoot journal).operateAll operations
    let history := (postBoot journal).writesSinceReset operations
    c.serialOutput.toList = history.sent ∧
    (∀ (write : Write) (b : Board), write.transfers = true →
      (b.write write.address write.byte).requests = b.requests ||| 0x08) ∧
    (∀ operation : Operation, operation.isReset = false →
      ∃ more, (c.operate operation).serialOutput.toList = c.serialOutput.toList ++ more ∧
        more.length = (c.accessesOf operation).countP Access.transfers) ∧
    (Byte.has (c.board.read 0xFF02) 0x80 && Byte.has (c.board.read 0xFF02) 0x01) = false := by
  intro c history
  have follows : SerialLink.Follows history c.board.link :=
    Board.onlyWritten_link.operateAll Board.link_follows_write (fun _ => SerialLink.follows_initial) operations
      SerialLink.follows_initial
  refine ⟨follows.sent, fun write b transfers => b.requests_of_transfers transfers, ?_, ?_⟩
  · intro operation goesOn
    have behind := Board.onlyWritten_link.operate Board.link_follows_write goesOn follows
    obtain ⟨more, sent, size⟩ := History.sent_record (c.accessesOf operation) history
    refine ⟨more, ?_, size⟩
    exact behind.sent.trans (sent.trans (congrArg (· ++ more) follows.sent.symm))
  · have control : c.board.read 0xFF02 = c.board.link.control :=
      congrArg c.board.readRegion (Region.ofAddress_register 0x02)
    rw [control, ← SerialLink.startsTransfer_eq]
    exact follows.idle

/-- The first transfer finds nothing to send, and the last finds what the one before has left; neither bit alone
begins one. -/
theorem serial_output_of_three :
    let operations : List Operation := [.write 0xFF02 0x81, .write 0xFF01 0x48, .write 0xFF01 0x69, .tick 80,
      .write 0xFF02 0x81, .call (.load .empty none), .write 0xFF02 0x80, .write 0xFF02 0x01, .write 0xFF02 0x83]
    ((postBoot {}).operateAll operations).serialOutput.toList = [0x00, 0x69, 0xFF] ∧
    (((postBoot {}).operateAll operations).board.write 0xFF02 0xFF).requests =
      ((postBoot {}).operateAll operations).board.requests ||| 0x08 := by
  intro operations
  obtain ⟨output, requests, _⟩ := serial_output_complete {} operations
  have sent : ((postBoot {}).writesSinceReset operations).sent = [0x00, 0x69, 0xFF] := by decide +kernel
  exact ⟨output.trans sent, requests ⟨0xFF02, 0xFF⟩ _ (by decide)⟩

end Console
end DotMatrix
