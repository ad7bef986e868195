import PinballBoard.Json.Form
import PinballBoard.Link.Endpoint
import PinballBoard.Platform.Error

/-!
# Settings

What a host has to know before it can start a board: where the board is, how many events may wait
for the host, and how long to rest between two polls that found nothing. Every field has a default,
so any part of the document may be left out; but the endpoint that the settings describe needs the
port or the host that its kind of attachment is about.
-/

namespace PinballBoard

/-- How the board is attached. -/
inductive Attachment where
  | serial
  | network
deriving DecidableEq, Repr

/-- The settings of a host. -/
structure Settings where
  attachment : Attachment := .serial
  /-- The serial port. -/
  port : Option String := none
  baud : UInt32 := Endpoint.defaultBaud
  networkHost : Option String := none
  networkPort : UInt16 := Endpoint.defaultPort
  /-- How many events may wait for the host. -/
  eventCapacity : UInt64 := 100
  /-- The rest after a poll that found nothing. -/
  pollIntervalMs : UInt64 := 1
deriving DecidableEq, Repr

/-- What a started platform needs of the settings. -/
structure PlatformOptions where
  eventCapacity : Nat
  pollInterval : Nat
deriving DecidableEq, Repr

namespace Settings

/-- All defaults. -/
def default : Settings := {}

/-- The options of a platform. A channel holds one event at least. -/
def options (s : Settings) : PlatformOptions where
  eventCapacity := max 1 s.eventCapacity.toNat
  pollInterval := s.pollIntervalMs.toNat

/-- The endpoint that the settings describe. -/
def endpoint (s : Settings) : Except DeviceError Endpoint :=
  match s.attachment with
  | .serial =>
    match s.port with
    | some port => .ok (.serial port s.baud)
    | none => .error (.configuration "serial connection requires \"port\"")
  | .network =>
    match s.networkHost with
    | some host => .ok (.network host s.networkPort)
    | none => .error (.configuration "network connection requires \"network_host\"")

end Settings

end PinballBoard
