import PinballBoard.Platform.Basic
import PinballBoard.Platform.Channel
import PinballBoard.Text.Numeral

/-!
# Orders

What the program can be told to do with a board. `monitor` goes on until somebody stops it; every
other order is a dialogue with an end, whose result is the lines to print.
-/

namespace PinballBoard

/-- What the program is told to do. -/
inductive Order where
  /-- Print the changes of the switches. -/
  | monitor
  /-- Print what the board is. -/
  | info
  /-- Fire a coil. -/
  | pulse (coil : String) (ms : UInt32)
  /-- Switch a lamp on or off. -/
  | lamp (lamp : String) (on : Bool)
  /-- Show a text on a display. -/
  | display (display text : String)
deriving DecidableEq, Repr

namespace Order

/-! ## Orders with an end -/

/-- A task of the program and the lines that it ends with. -/
abbrev OneShot : Type := Dialogue Unit (Except DeviceError (List String))

/-- A task that has found its device, or failed to, and prints nothing. -/
def onDevice {α σ : Type} (device : Except DeviceError α)
    (task : α → Dialogue σ (Except DeviceError Unit)) : OneShot :=
  match device with
  | .ok device =>
    ((task device).view fun _ ↦ ()).andThen fun _ result ↦ .done () (result.map fun _ ↦ [])
  | .error e => .done () (.error e)

/-- What is printed about a board and its firmware. -/
def infoLines (p : Profile) (firmware : FirmwareInfo) : List String :=
  ["Hardware:    " ++ p.text,
    "LISY:        " ++ firmware.firmwareVersion,
    "API:         " ++ firmware.apiVersion]

/-- The task that an order is; to monitor is none. -/
def oneShot? (p : Profile) : Order → Option OneShot
  | monitor => none
  | info => some (Platform.firmware.andThen fun _ result ↦ .done () (result.map (infoLines p)))
  | pulse number ms =>
    some (onDevice (Platform.configureCoil p number {}) (·.pulse { duration := ms }))
  | lamp number on =>
    some (onDevice (Platform.configureLamp p number)
      (·.setBrightness (if on then .one else .zero)))
  | display number text =>
    some (onDevice (Platform.configureDisplay p number) (·.setText text))

/-! ## Monitoring -/

/-- What is printed before the first change. -/
def openingLines (p : Profile) (switches : SwitchTable) : List String :=
  [p.text, "Active switches: [" ++ ", ".intercalate (switches.active.map Switch.text) ++ "]"]

/-- What is printed of a change, or why there will be no more. -/
def eventLine : PlatformEvent → Except String String
  | .switchChanged switch active =>
    .ok ("switch " ++ switch.text ++ if active then " active" else " inactive")
  | .pollFailed e => .error ("switch polling stopped: " ++ e.message)

end Order

end PinballBoard
