import PinballBoard.Decimal.Binary
import PinballBoard.Switch.Address

/-!
# What a host says about its devices

The records that a host passes in when it configures a device or fires a coil, and those that it
gets back. The board knows one power and no inversion, no debouncing and no hold: those fields are
kept for the host and never reach the wire.
-/

namespace PinballBoard

/-- How to fire a coil. -/
structure PulseSettings where
  /-- The wanted power; the board always fires at full power. -/
  power : Decimal.Single := .one
  /-- The length in milliseconds. -/
  duration : UInt32
deriving DecidableEq, Repr

/-- How to hold a coil after it was fired. -/
structure HoldSettings where
  /-- The wanted power; the board always holds at full power. -/
  power : Decimal.Single := .one
deriving DecidableEq, Repr

/-- What the host says about a switch. -/
structure SwitchConfig where
  name : String := ""
  invert : Bool := false
  debounce : Bool := false
deriving DecidableEq, Repr

/-- What the host says about a coil. -/
structure CoilConfig where
  name : String := ""
  defaultPulseMs : Option UInt32 := none
deriving DecidableEq, Repr

/-- One channel of a light. -/
structure LightChannel where
  number : String
deriving DecidableEq, Repr

/-- What the firmware calls itself. -/
structure FirmwareInfo where
  firmwareVersion : String
  apiVersion : String
deriving DecidableEq, Repr

/-- A configured switch. Its state is in the table of the platform. -/
structure ConfiguredSwitch where
  switch : Switch
  config : SwitchConfig
deriving DecidableEq, Repr

end PinballBoard
