import PinballBoard.Wire.Error

/-!
# What can go wrong on the link

A fault on the link is either the end of the link or a call that the link would not make. The first
sort is told by `LinkError.isTransport`: after it there is no link any more.
-/

namespace PinballBoard

/-- A fault on the link to the board. -/
inductive LinkError where
  /-- The link is closed. -/
  | notConnected
  /-- Nobody answered in time. -/
  | timeout (ms : Nat)
  /-- The other side ended the link. -/
  | lost (detail : String)
  /-- The serial port could not be opened. -/
  | serial (detail : String)
  /-- The command is answered, and nobody would read the answer. -/
  | replyExpected (command : String)
  /-- The command is not answered, and somebody would wait for an answer. -/
  | noReplyExpected (command : String)
  /-- A fault of the protocol. -/
  | protocol (error : ProtocolError)
  /-- The stream failed. -/
  | io (detail : String)
deriving DecidableEq, Repr

namespace LinkError

/-- The fault in words. -/
def message : LinkError → String
  | notConnected => "Not connected to LISY"
  | timeout ms => s!"Connection timeout after {ms}ms"
  | lost detail => "Connection lost: " ++ detail
  | serial detail => "Serial port error: " ++ detail
  | replyExpected command => s!"Command {command} expects a reply"
  | noReplyExpected command => s!"Command {command} has no reply"
  | protocol error => "Protocol error: " ++ error.message
  | io detail => "IO error: " ++ detail

/-- Whether the link itself is gone. -/
def isTransport : LinkError → Bool
  | notConnected | timeout _ | lost _ | serial _ | io _ => true
  | replyExpected _ | noReplyExpected _ | protocol _ => false

/-- What a fault of codec and stream is on the link. -/
def ofProtocol : ProtocolError → LinkError
  | .io detail => io detail
  | error => protocol error

end LinkError

end PinballBoard
