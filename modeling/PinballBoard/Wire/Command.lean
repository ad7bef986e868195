import PinballBoard.Board.PulseTime
import PinballBoard.Switch.Address
import PinballBoard.Wire.Reply

/-!
# Commands

A command is a code, then a payload whose length the code tells: nothing, one byte, three bytes, or
a text up to its terminator. The code of a display command holds the number of the display, and the
codes leave room for seven of them; the text must not hold a terminator, which would end it early.
These are the only two reasons for which a command has no frame.
-/

namespace PinballBoard

/-! ## Frames -/

namespace Frame

/-- A code and its payload. -/
def plain (code : UInt8) (payload : Bytes) : Bytes := code :: payload

/-- A code and a text with its terminator. -/
def ofText (code : UInt8) (text : String) : Except ProtocolError Bytes :=
  if Code.terminator ∈ Text.utf8 text then
    .error (.invalidDisplayText (Text.quote text ++ " contains a NUL byte"))
  else .ok (code :: Text.utf8 text ++ [Code.terminator])

end Frame

/-! ## Commands -/

/-- What the host can tell or ask the board. -/
inductive Command where
  | reset
  | identify
  | firmwareVersion
  | apiVersion
  | countLamps
  | countCoils
  | countDisplays
  | readSwitch (switch : Switch)
  | pollChanges
  | lampOn (lamp : UInt8)
  | lampOff (lamp : UInt8)
  | coilOn (coil : UInt8)
  | coilOff (coil : UInt8)
  | coilPulse (coil : UInt8)
  | setPulseTime (coil : UInt8) (time : PulseTime)
  | showText (display : UInt8) (text : String)
deriving DecidableEq, Repr

namespace Command

/-- The first byte of the frame. A display beyond the bytes keeps the last code, which no frame
ever carries. -/
def code : Command → UInt8
  | reset => Code.reset
  | identify => Code.identify
  | firmwareVersion => Code.firmwareVersion
  | apiVersion => Code.apiVersion
  | countLamps => Code.countLamps
  | countCoils => Code.countCoils
  | countDisplays => Code.countDisplays
  | readSwitch _ => Code.readSwitch
  | pollChanges => Code.pollChanges
  | lampOn _ => Code.lampOn
  | lampOff _ => Code.lampOff
  | coilOn _ => Code.coilOn
  | coilOff _ => Code.coilOff
  | coilPulse _ => Code.coilPulse
  | setPulseTime _ _ => Code.setPulseTime
  | showText display _ => UInt8.ofNat (min 255 (Code.displayBase.toNat + display.toNat))

/-- The shape of the reply that the board gives, if it gives one. -/
def replyKind : Command → Option ReplyKind
  | reset | countLamps | countCoils | countDisplays | readSwitch _ | pollChanges => some .byte
  | identify | firmwareVersion | apiVersion => some .string
  | lampOn _ | lampOff _ | coilOn _ | coilOff _ | coilPulse _ | setPulseTime _ _ | showText _ _ =>
    none

/-- The frame of a command. -/
def encode (c : Command) : Except ProtocolError Bytes :=
  match c with
  | readSwitch switch => .ok (Frame.plain c.code [switch.number])
  | lampOn n | lampOff n | coilOn n | coilOff n | coilPulse n => .ok (Frame.plain c.code [n])
  | setPulseTime coil time => .ok (Frame.plain c.code (coil :: time.bytes))
  | showText display text =>
    if display.toNat < Limit.displays.toNat then Frame.ofText c.code text
    else
      .error (.invalidDisplay
        s!"display {display.toNat} has no command code (max {Limit.displays.toNat - 1})")
  | _ => .ok (Frame.plain c.code [])

/-- The command in words. -/
def describe : Command → String
  | reset => "Reset"
  | identify => "GetConnectedHardware"
  | firmwareVersion => "GetLisyVersion"
  | apiVersion => "GetApiVersion"
  | countLamps => "GetNumberOfLamps"
  | countCoils => "GetNumberOfSolenoids"
  | countDisplays => "GetNumberOfDisplays"
  | readSwitch switch => s!"GetSwitchStatus({switch})"
  | pollChanges => "GetChangedSwitches"
  | lampOn n => s!"LampOn({n.toNat})"
  | lampOff n => s!"LampOff({n.toNat})"
  | coilOn n => s!"SolenoidOn({n.toNat})"
  | coilOff n => s!"SolenoidOff({n.toNat})"
  | coilPulse n => s!"SolenoidPulse({n.toNat})"
  | setPulseTime coil time => s!"SetSolenoidPulseTime({coil.toNat}, {time})"
  | showText display text => s!"SetDisplay({display.toNat}, {Text.quote text})"

instance : ToString Command := ⟨describe⟩

end Command

end PinballBoard
