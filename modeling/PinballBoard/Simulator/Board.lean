import PinballBoard.Wire.Code
import PinballBoard.Text.Utf8

/-!
# A simulated board

The board's side of the protocol, written down from the board's point of view: it gathers bytes
until they are a frame, does what the frame says, and answers. How many bytes a frame has it tells
from the first one.

The board keeps a list of changes that it has not reported yet. A poll takes the first of them and
turns the switch as well, so that asking for the switch later gives the reported state. When the
list is empty a poll is answered with "no change", or, if the board is about to leave, with the end
of the link.
-/

namespace PinballBoard

/-- A simulated board: what it answers, what it has still to report, and what it has received. -/
structure Board where
  identifier : String := "LISY1"
  resetCode : UInt8 := Code.resetOk
  lamps : UInt8 := 36
  coils : UInt8 := 9
  displays : UInt8 := 5
  firmwareVersion : String := "5.28"
  apiVersion : String := "0.09"
  /-- The answers to the question how a switch stands. -/
  switchReplies : Vector UInt8 256 := Vector.replicate 256 0
  /-- Changes that no poll has been answered with yet, oldest first. -/
  changes : List UInt8 := []
  /-- At a poll that finds no change the board ends the link. -/
  isLeaving : Bool := false
  /-- The beginning of a frame. -/
  gathered : Bytes := []
  /-- The frames received, without polls, oldest first. -/
  frames : List Bytes := []
  /-- The number of polls answered. -/
  polls : Nat := 0
deriving DecidableEq, Repr

/-! ## Frames as the board tells them -/

namespace Frame

/-- Whether the code is that of a display command. -/
def isDisplayCode (code : UInt8) : Bool :=
  Code.displayBase.toNat ≤ code.toNat
    && code.toNat < Code.displayBase.toNat + Limit.displays.toNat

/-- The number of bytes after a code that is not of a display command. -/
def payloadLength (code : UInt8) : Nat :=
  if code ∈ [Code.lampOn, Code.lampOff, Code.coilOn, Code.coilOff, Code.coilPulse, Code.readSwitch]
  then 1
  else if code = Code.setPulseTime then 3
  else 0

/-- Whether bytes of which no proper beginning is a frame are a frame. -/
def isComplete : Bytes → Bool
  | [] => false
  | code :: payload =>
    if isDisplayCode code then payload.getLast? == some Code.terminator
    else payload.length == payloadLength code

end Frame

namespace Board

/-- The answer to the question how a switch stands, whatever its number. -/
def switchReply (b : Board) (number : UInt8) : UInt8 :=
  b.switchReplies.get ⟨number.toNat, by have := number.toNat_lt; omega⟩

/-- Let the question how a switch stands be answered with this byte. -/
def setSwitchReply (b : Board) (number reply : UInt8) : Board :=
  { b with
    switchReplies := b.switchReplies.set number.toNat reply (by have := number.toNat_lt; omega) }

/-- Put a change behind those that are still to be reported. -/
def pushChange (b : Board) (status : UInt8) : Board := { b with changes := b.changes ++ [status] }

/-- A string and its terminator. -/
def terminated (text : String) : Bytes := Text.utf8 text ++ [Code.terminator]

/-- Answer a poll; `none` is the end of the link. -/
def answerPoll (b : Board) : Board × Option Bytes :=
  match b.changes with
  | status :: changes =>
    ({ b with changes, polls := b.polls + 1 }.setSwitchReply (status &&& Code.addressMask)
      (if status &&& Code.stateBit != 0 then 1 else 0), some [status])
  | [] =>
    if b.isLeaving then (b, none)
    else ({ b with polls := b.polls + 1 }, some [Code.noChange])

/-- What a frame that is not a poll is answered with. No bytes are no answer. -/
def reply (b : Board) : Bytes → Bytes
  | [] => []
  | code :: payload =>
    if code = Code.reset then [b.resetCode]
    else if code = Code.identify then terminated b.identifier
    else if code = Code.firmwareVersion then terminated b.firmwareVersion
    else if code = Code.apiVersion then terminated b.apiVersion
    else if code = Code.countLamps then [b.lamps]
    else if code = Code.countCoils then [b.coils]
    else if code = Code.countDisplays then [b.displays]
    else if code = Code.readSwitch then (payload.take 1).map b.switchReply
    else []

/-- Answer a frame; `none` is the end of the link. -/
def answer (b : Board) (frame : Bytes) : Board × Option Bytes :=
  if frame.head? = some Code.pollChanges then b.answerPoll
  else ({ b with frames := b.frames ++ [frame] }, some (b.reply frame))

/-- Receive one byte, and answer if it completes a frame. -/
def receive (b : Board) (byte : UInt8) : Board × Option Bytes :=
  let gathered := b.gathered ++ [byte]
  if Frame.isComplete gathered then { b with gathered := [] }.answer gathered
  else ({ b with gathered }, some [])

end Board

end PinballBoard
