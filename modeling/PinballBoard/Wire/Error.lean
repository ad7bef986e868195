/-!
# What the protocol refuses

The faults of values, frames and replies, apart from the link that carries them. Each constructor
is one cause and keeps what is known about it; the wording is in `ProtocolError.message` alone.
-/

namespace PinballBoard

/-- A fault of a value, a frame or a reply. -/
inductive ProtocolError where
  /-- A reply or a command came where another one was due. -/
  | unexpectedReply (expected actual : String)
  /-- Bytes arrived while no reply was due. -/
  | unsolicited (count : Nat)
  /-- A string reply passed the limit without its terminator. -/
  | stringTooLong (limit : Nat)
  /-- The board calls itself by a name that no known board has. -/
  | unknownBoard (identifier : String)
  /-- No switch has this address. -/
  | invalidSwitch (detail : String)
  /-- The duration does not fit the wire. -/
  | invalidPulseTime (detail : String)
  /-- The display has no command. -/
  | invalidDisplay (detail : String)
  /-- The text cannot be sent to a display. -/
  | invalidDisplayText (detail : String)
  /-- The stream failed below the protocol. -/
  | io (detail : String)
deriving DecidableEq, Repr

namespace ProtocolError

/-- The fault in words. -/
def message : ProtocolError → String
  | unexpectedReply expected actual => s!"Unexpected response: expected {expected}, got {actual}"
  | unsolicited count => s!"Received {count} byte(s) while no reply was pending"
  | stringTooLong limit => s!"String reply exceeds {limit} bytes without terminator"
  | unknownBoard identifier => "Unknown hardware identifier: " ++ identifier
  | invalidSwitch detail => "Invalid switch number: " ++ detail
  | invalidPulseTime detail => "Invalid pulse time: " ++ detail
  | invalidDisplay detail => "Invalid display: " ++ detail
  | invalidDisplayText detail => "Invalid display text: " ++ detail
  | io detail => "IO error: " ++ detail

end ProtocolError

end PinballBoard
