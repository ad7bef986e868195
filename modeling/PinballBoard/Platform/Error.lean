import PinballBoard.Link.Error
import PinballBoard.Wire.Code

/-!
# What can go wrong with a device

Whoever drives the machine wants to know whose fault it is: the board broke the protocol, the caller
asked for something that does not exist or cannot be sent, or the link is gone. The faults of the
protocol and of the link are sorted into these by `DeviceError.ofProtocol` and `DeviceError.ofLink`.
-/

namespace PinballBoard

/-- A fault of an operation on the machine. -/
inductive DeviceError where
  /-- The board broke the protocol. -/
  | violation (detail : String)
  /-- The board cannot do this. -/
  | unsupported (operation : String)
  /-- The configuration names something that does not exist. -/
  | configuration (detail : String)
  /-- An argument cannot be sent. -/
  | invalidData (detail : String)
  /-- The link is closed. -/
  | disconnected (device : String)
  /-- The link failed or would not make the call. -/
  | transport (error : LinkError)
  /-- Reading or writing failed. -/
  | io (detail : String)
deriving DecidableEq, Repr

namespace DeviceError

/-- The fault in words. -/
def message : DeviceError → String
  | violation detail => "Protocol violation: " ++ detail
  | unsupported operation => "Unsupported operation: " ++ operation
  | configuration detail => "Configuration error: " ++ detail
  | invalidData detail => "Invalid data: " ++ detail
  | disconnected device => "Device disconnected: " ++ device
  | transport error => "Transport error: " ++ error.message
  | io detail => "I/O error: " ++ detail

/-- Whether the fault is counted as the end of the link. -/
def isTransport : DeviceError → Bool
  | transport _ | disconnected _ | io _ => true
  | _ => false

/-- What lies behind the fault and is not part of its own words. -/
def causes : DeviceError → List String
  | io detail => [detail]
  | _ => []

/-- A fault of the protocol: an argument that cannot be sent is the caller's, the rest is the
board's. -/
def ofProtocol : ProtocolError → DeviceError
  | .io detail => io detail
  | error@(.invalidPulseTime _) | error@(.invalidDisplay _) | error@(.invalidDisplayText _) =>
    invalidData error.message
  | error => violation error.message

/-- A fault of the link. -/
def ofLink : LinkError → DeviceError
  | .notConnected => disconnected boardName
  | .protocol error => ofProtocol error
  | error => transport error

end DeviceError

end PinballBoard
