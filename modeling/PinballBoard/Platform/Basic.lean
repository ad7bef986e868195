import PinballBoard.Platform.Handle
import PinballBoard.Settings.Basic

/-!
# The platform

What a host can do with a board whose profile is known. Devices are named by the texts that people
type; a text has to be the number of a device that the board has, and is then turned into a handle
without any traffic. What the board itself is asked or told is a dialogue.

Messages repeat a text that is no number just as it was typed, and a number that no device has as a
number, with the range that would have been right.
-/

namespace PinballBoard

/-! ## Starting -/

namespace Platform

/-- Start a board: the handshake, and the end of the stream if it fails. -/
def start : Dialogue Unit (Except DeviceError Discovery) :=
  (Handshake.course.view fun _ ↦ ()).andThen fun _ result ↦
    match result with
    | .ok discovery => .done () (.ok discovery)
    | .error e => .ask () .close fun _ ↦ .done () (.error e)

/-! ## Devices by number -/

/-- The number that a text denotes, for a kind of device. -/
def indexOf (kind text : String) : Except DeviceError UInt8 :=
  match Text.byte? text with
  | some index => .ok index
  | none => .error (.configuration s!"Invalid {kind} number {text}")

/-- The fault of a number that no device of this kind has. -/
def outOfRange (kind : String) (index : UInt8) (range : String) : DeviceError :=
  .configuration s!"Invalid {kind} number {index.toNat} ({range})"

/-- The switch that a text denotes. -/
def configureSwitch (text : String) (config : SwitchConfig) : Except DeviceError ConfiguredSwitch :=
  ((Switch.ofText text).mapError fun e ↦ .configuration e.message).map (⟨·, config⟩)

/-- The coil that a text denotes. -/
def configureCoil (p : Profile) (text : String) (config : CoilConfig) :
    Except DeviceError Coil := do
  let index ← indexOf "solenoid" text
  if p.hasCoil index then .ok { number := index, config }
  else .error (outOfRange "solenoid" index s!"{p.runText p.coils} solenoids")

/-- The lamp that a text denotes. -/
def configureLamp (p : Profile) (text : String) : Except DeviceError Lamp := do
  let index ← indexOf "light" text
  if p.hasLamp index then .ok ⟨index⟩
  else .error (outOfRange "light" index s!"{p.runText p.lamps} lamps")

/-- The display that a text denotes. -/
def configureDisplay (p : Profile) (text : String) : Except DeviceError Display := do
  let index ← indexOf "display" text
  if p.hasDisplay index then .ok ⟨index⟩
  else .error (outOfRange "display" index s!"{p.displays.toNat} displays")

/-- The channels of a lamp: itself, under the name that was typed. -/
def channels (text : String) : Except DeviceError (List LightChannel) :=
  (indexOf "light" text).map fun _ ↦ [⟨text⟩]

/-! ## Rules -/

/-- A wish that the board fires a coil on its own when a switch is hit. -/
inductive Rule where
  | pulseOnHit
  | pulseOnHitAndRelease
  | pulseOnHitAndEnableAndRelease
  | pulseOnHitAndEnableAndReleaseAndDisable
  /-- The wish that all this ends. -/
  | clear
deriving DecidableEq, Repr

/-- The name of the operation that sets or clears a rule. -/
def Rule.operation : Rule → String
  | pulseOnHit => "set_pulse_on_hit_rule"
  | pulseOnHitAndRelease => "set_pulse_on_hit_and_release_rule"
  | pulseOnHitAndEnableAndRelease => "set_pulse_on_hit_and_enable_and_release_rule"
  | pulseOnHitAndEnableAndReleaseAndDisable =>
    "set_pulse_on_hit_and_enable_and_release_and_disable_rule"
  | clear => "clear_hw_rule"

/-- The board has no rules of its own, so it refuses every wish. -/
def setRule (rule : Rule) : Except DeviceError Unit := .error (.unsupported rule.operation)

/-! ## The firmware -/

/-- A string reply as text. What is not well encoded is replaced. -/
def readText (reply : Reply) : Except DeviceError String :=
  (reply.asString.mapError .ofProtocol).map Text.lossy

/-- Ask what the firmware calls itself. -/
def firmware : Dialogue Unit (Except DeviceError FirmwareInfo) :=
  .ask () (.request .firmwareVersion) fun outcome ↦
    match outcome.asReply.bind readText with
    | .error e => .done () (.error e)
    | .ok firmwareVersion =>
      .ask () (.request .apiVersion) fun outcome ↦
        .done () ((outcome.asReply.bind readText).map (⟨firmwareVersion, ·⟩))

end Platform

end PinballBoard
