import PinballBoard.Board.Profile
import PinballBoard.Link.Dialogue
import PinballBoard.Platform.Error
import PinballBoard.Switch.Table

/-!
# The handshake

Before anything else the host resets the board, asks who it is and how much it drives, and reads the
64 switches one by one:

```text
reset ─> identify ─> count lamps, coils, displays ─> read switches ─> running
```

Each question waits for its answer, and the first answer that is not as it should be ends the
handshake; nothing is asked twice. The visible state of the dialogue is the stage that it has
reached.
-/

namespace PinballBoard

/-- How far a handshake has got. -/
inductive HandshakeStage where
  | reset
  | identify
  | queryCapacities
  | bulkSwitchRead
  /-- The board is known, and polling may start. -/
  | running
  /-- An answer was not as it should be, or did not come. -/
  | failed
deriving DecidableEq, Repr

namespace HandshakeStage

/-- Every stage. -/
def all : List HandshakeStage :=
  [reset, identify, queryCapacities, bulkSwitchRead, running, failed]

/-- The name of a stage. -/
def text : HandshakeStage → String
  | reset => "RESET"
  | identify => "IDENTIFY"
  | queryCapacities => "QUERY_CAPACITIES"
  | bulkSwitchRead => "BULK_SWITCH_READ"
  | running => "RUNNING"
  | failed => "FAILED"

end HandshakeStage

/-- What a handshake finds out. -/
structure Discovery where
  profile : Profile
  switches : SwitchTable
deriving DecidableEq, Repr

/-! ## Answers -/

/-- The reply that a request has brought. Other calls bring none. -/
def Outcome.asReply : Outcome → Except DeviceError Reply
  | .reply r => .ok r
  | .failed e => .error (.ofLink e)
  | .done | .isOpen _ => .error (.ofLink .notConnected)

/-- Whether a call that brings no reply has done its work. -/
def Outcome.asDone : Outcome → Except DeviceError Unit
  | .failed e => .error (.ofLink e)
  | .done | .reply _ | .isOpen _ => .ok ()

namespace Handshake

/-- The answer to a reset has to be the code for success. -/
def readReset (reply : Reply) : Except DeviceError Unit := do
  let code ← reply.asByte.mapError .ofProtocol
  if code = Code.resetOk then .ok () else .error (.violation s!"reset returned {code.toNat}")

/-- The answer to the question who the board is has to name a known family. -/
def readFamily (reply : Reply) : Except DeviceError Family :=
  (reply.asString.bind Family.ofIdentifier).mapError .ofProtocol

/-- The answer to the question how many there are may be any byte. -/
def readCount (reply : Reply) : Except DeviceError UInt8 := reply.asByte.mapError .ofProtocol

/-- The answer to the question how a switch stands has to be 0 or 1. -/
def readState (switch : Switch) (reply : Reply) : Except DeviceError Bool :=
  reply.asBool.mapError fun e ↦ .violation s!"switch {switch}: {e.message}"

/-! ## The dialogue -/

/-- A handshake that has reached some point. -/
abbrev Course : Type := Dialogue HandshakeStage (Except DeviceError Discovery)

/-- Ask the board and go on with what its answer means. -/
def question {α : Type} (stage : HandshakeStage) (command : Command)
    (read : Reply → Except DeviceError α) (next : α → Course) : Course :=
  .ask stage (.request command) fun outcome ↦
    match outcome.asReply.bind read with
    | .ok answer => next answer
    | .error e => .done .failed (.error e)

/-- Read some switches, with a table of those that have been read. -/
def readSwitches (profile : Profile) : List Switch → SwitchTable → Course
  | [], table => .done .running (.ok ⟨profile, table⟩)
  | switch :: rest, table =>
    question .bulkSwitchRead (.readSwitch switch) (readState switch) fun active ↦
      readSwitches profile rest (table.insert switch active)

/-- Ask for the counts of what a board of a known family drives, and read its switches. -/
def queryCapacities (family : Family) : Course :=
  question .queryCapacities .countLamps readCount fun lamps ↦
  question .queryCapacities .countCoils readCount fun coils ↦
  question .queryCapacities .countDisplays readCount fun displays ↦
  readSwitches ⟨family, lamps, coils, displays⟩ Switch.all .empty

/-- The whole handshake. -/
def course : Course :=
  question .reset .reset readReset fun _ ↦
  question .identify .identify readFamily queryCapacities

end Handshake

end PinballBoard
