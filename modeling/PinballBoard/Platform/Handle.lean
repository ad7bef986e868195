import PinballBoard.Platform.Device
import PinballBoard.Platform.Handshake

/-!
# Coils, lamps and displays

The handles by which a host works its devices. Each is a number that the board is known to have.

The board keeps one pulse time for each coil. The handle of a coil remembers the last one that it
has sent and programs the board only when another one is wanted. It remembers a time as soon as the
board has been told, whether or not the coil is fired after it, so that what it remembers is what it
has last programmed.
-/

namespace PinballBoard

/-- The handle of a coil. -/
structure Coil where
  number : UInt8
  config : CoilConfig
  /-- The pulse time that this handle has last sent. -/
  pulseTime : Option PulseTime := none
deriving DecidableEq, Repr

/-- The handle of a lamp. -/
structure Lamp where
  number : UInt8
deriving DecidableEq, Repr

/-- The handle of a display. -/
structure Display where
  number : UInt8
deriving DecidableEq, Repr

namespace Coil

/-- A task on a coil; what is visible of it is what the handle remembers. -/
abbrev Task : Type := Dialogue Coil (Except DeviceError Unit)

/-- Send a last command. -/
def command (coil : Coil) (command : Command) : Task :=
  .ask coil (.send command) fun outcome ↦ .done coil outcome.asDone

/-- Program a pulse time unless it was the last one, and go on. -/
def withPulseTime (coil : Coil) (time : PulseTime) (next : Coil → Task) : Task :=
  if coil.pulseTime = some time then next coil
  else
    .ask coil (.send (.setPulseTime coil.number time)) fun outcome ↦
      match outcome.asDone with
      | .ok () => next { coil with pulseTime := some time }
      | .error e => .done coil (.error e)

/-- Program the pulse time that a host asks for, if there is such a pulse time, and go on. -/
def withDuration (coil : Coil) (ms : UInt32) (next : Coil → Task) : Task :=
  match PulseTime.ofMs ms with
  | .ok time => coil.withPulseTime time next
  | .error e => .done coil (.error (.ofProtocol e))

/-- Fire the coil once. -/
def pulse (coil : Coil) (settings : PulseSettings) : Task :=
  coil.withDuration settings.duration fun coil ↦ coil.command (.coilPulse coil.number)

/-- Fire the coil and hold it. -/
def enable (coil : Coil) (settings : PulseSettings) (_hold : HoldSettings) : Task :=
  coil.withDuration settings.duration fun coil ↦ coil.command (.coilOn coil.number)

/-- Let the coil go. -/
def disable (coil : Coil) : Task := coil.command (.coilOff coil.number)

end Coil

namespace Lamp

/-- Light the lamp if the brightness is above zero. The board knows on and off only. -/
def brightnessCommand (lamp : Lamp) (brightness : Decimal.Single) : Command :=
  if brightness.isPositive then .lampOn lamp.number else .lampOff lamp.number

/-- Set the brightness of the lamp. -/
def setBrightness (lamp : Lamp) (brightness : Decimal.Single) :
    Dialogue Unit (Except DeviceError Unit) :=
  .single (.send (lamp.brightnessCommand brightness)) Outcome.asDone

end Lamp

/-- Show a text on the display. -/
def Display.setText (display : Display) (text : String) : Dialogue Unit (Except DeviceError Unit) :=
  .single (.send (.showText display.number text)) Outcome.asDone

end PinballBoard
