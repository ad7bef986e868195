/-!
# Where the board is

A board hangs on a serial port or answers at a network address. The text of an endpoint is what
messages call the other side of the link.
-/

namespace PinballBoard

/-- The place of a board and how to reach it. -/
inductive Endpoint where
  | serial (port : String) (baud : UInt32)
  | network (host : String) (port : UInt16)
deriving DecidableEq, Repr

namespace Endpoint

/-- The endpoint in words. -/
def text : Endpoint → String
  | serial port baud => s!"{port} at {baud.toNat}bps"
  | network host port => s!"{host}:{port.toNat}"

/-- The speed of a serial port when none is given. -/
def defaultBaud : UInt32 := 115200

/-- The network port of a board when none is given. -/
def defaultPort : UInt16 := 5963

end Endpoint

end PinballBoard
