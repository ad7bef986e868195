/-!
# Numbers of the protocol

The command codes, the bytes with a meaning of their own and the limits that the board and the host
have agreed on.
-/

namespace PinballBoard

/-- A run of bytes, first byte first. -/
abbrev Bytes := List UInt8

namespace Code

/-! ## Commands -/

def identify : UInt8 := 0
def firmwareVersion : UInt8 := 1
def apiVersion : UInt8 := 2
def countLamps : UInt8 := 3
def countCoils : UInt8 := 4
def countDisplays : UInt8 := 6
def lampOn : UInt8 := 11
def lampOff : UInt8 := 12
def coilOn : UInt8 := 21
def coilOff : UInt8 := 22
def coilPulse : UInt8 := 23
def setPulseTime : UInt8 := 24

/-- The code of display 0; display `n` has the `n`-th code after it. -/
def displayBase : UInt8 := 30

def readSwitch : UInt8 := 40
def pollChanges : UInt8 := 41
def reset : UInt8 := 100

/-- The commands in the order in which the protocol lists them. -/
def all : List UInt8 :=
  [identify, firmwareVersion, apiVersion, countLamps, countCoils, countDisplays, lampOn, lampOff,
    coilOn, coilOff, coilPulse, setPulseTime, displayBase, readSwitch, pollChanges, reset]

/-! ## Bytes with a meaning -/

/-- Ends a string. -/
def terminator : UInt8 := 0

/-- The answer to a reset that worked. -/
def resetOk : UInt8 := 0

/-- The answer to a poll when no switch has changed. -/
def noChange : UInt8 := 127

/-- The bit of a poll answer that holds the new state. -/
def stateBit : UInt8 := 128

/-- The bits of a poll answer that hold the address. -/
def addressMask : UInt8 := 127

end Code

namespace Limit

/-- The displays that have a command code. -/
def displays : UInt8 := 7

/-- The bytes that a string reply may hold while its terminator has not arrived. -/
def stringReply : Nat := 256

/-- The rows of the switch matrix. -/
def rows : UInt8 := 8

/-- The columns of the switch matrix. -/
def columns : UInt8 := 8

/-- The greatest address of the switch matrix. -/
def address : UInt8 := 77

end Limit

/-- The name of the kind of board, as events and messages give it. -/
def boardName : String := "LISY"

/-- The version of this library. -/
def libraryVersion : String := "0.1.0"

end PinballBoard
