import PinballBoard.Link.Connection
import PinballBoard.Platform.Channel
import PinballBoard.Switch.Report

/-!
# The poll loop

The board never speaks unasked, so a task asks it again and again what has changed. A poll that
found nothing is followed by a rest, in which the link is free for others. A poll that found a
change is followed by the next one as soon as the host's channel has taken the event. A poll that
failed is the last one.

This module holds the states of that task and the meaning of a poll; its steps are those of a
session, where the link, the clock and the channel are.
-/

namespace PinballBoard

/-- What the poll loop is doing. -/
inductive PollPhase where
  /-- It is about to ask. -/
  | ready
  /-- It has asked, and its call is under way. -/
  | asking (ticket : Ticket)
  /-- It rests up to this time. -/
  | resting (deadline : Nat)
  /-- It has a change to hand over. -/
  | delivering (switch : Switch) (active : Bool)
  /-- It has failed and still has to say so. -/
  | reporting (error : DeviceError)
  /-- It is over: it was cancelled, or it failed and has said so. -/
  | ended (failure : Option DeviceError)
deriving DecidableEq, Repr

/-- The task that polls the board. -/
structure PollLoop where
  /-- The length of a rest in milliseconds. -/
  interval : Nat
  phase : PollPhase
deriving DecidableEq, Repr

/-- What a finished call of the loop says about the board. -/
def PollLoop.judge : Outcome → Except DeviceError SwitchReport
  | .reply reply => do
    let status ← (reply.asByte).mapError DeviceError.ofProtocol
    (SwitchReport.ofByte status).mapError fun e ↦
      .violation s!"poll status {status.toNat}: {e.message}"
  | .failed e => .error (.ofLink e)
  | .done | .isOpen _ => .error (.ofLink .notConnected)

namespace PollLoop

/-- A loop that has not asked anything yet. -/
def start (interval : Nat) : PollLoop := ⟨interval, .ready⟩

/-- Whether the loop is still running. -/
def isRunning (loop : PollLoop) : Bool :=
  match loop.phase with
  | .ended _ => false
  | _ => true

/-- The call of the loop that is under way. -/
def ticket? (loop : PollLoop) : Option Ticket :=
  match loop.phase with
  | .asking ticket => some ticket
  | _ => none

end PollLoop

end PinballBoard
