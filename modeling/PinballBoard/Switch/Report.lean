import PinballBoard.Switch.Address

/-!
# Poll answers

A poll is answered with one byte. 127 says that nothing has changed since the last poll; any other
byte names one switch in its low seven bits and gives the new state in the top bit. 127 would be an
address with the digit 12, so it names no switch.
-/

namespace PinballBoard

/-- What the board answers to a poll. -/
inductive SwitchReport where
  /-- No switch has changed. -/
  | unchanged
  /-- One switch has changed to a new state. -/
  | changed (switch : Switch) (active : Bool)
deriving DecidableEq, Repr

/-- The meaning of a poll answer. -/
def SwitchReport.ofByte (status : UInt8) : Except ProtocolError SwitchReport :=
  if status = Code.noChange then .ok .unchanged
  else
    (Switch.ofNumber (status &&& Code.addressMask)).map fun switch ↦
      .changed switch (status &&& Code.stateBit != 0)

/-- The byte that reports a number and a state; the state bit of the number itself stays. -/
def SwitchReport.byte (number : UInt8) (active : Bool) : UInt8 :=
  if active then number ||| Code.stateBit else number

end PinballBoard
