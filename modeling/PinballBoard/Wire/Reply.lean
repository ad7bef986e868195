import PinballBoard.Text.Quoted
import PinballBoard.Text.Utf8
import PinballBoard.Wire.Code
import PinballBoard.Wire.Error

/-!
# Replies

A command is answered with one byte, with a string or not at all. A string ends at its terminator,
which is no part of it. What a reply means depends on the question, so the three readings below
refuse a reply of the other shape.
-/

namespace PinballBoard

/-- The two shapes of a reply. -/
inductive ReplyKind where
  | byte
  | string
deriving DecidableEq, Repr

/-- The name of a shape. -/
def ReplyKind.text : ReplyKind → String
  | byte => "Byte"
  | string => "String"

/-- What the board answers. -/
inductive Reply where
  | byte (value : UInt8)
  | string (data : Bytes)
deriving DecidableEq, Repr

namespace Reply

/-- The shape of a reply. -/
def kind : Reply → ReplyKind
  | byte _ => .byte
  | string _ => .string

/-- The bytes of a reply on the wire. -/
def wire : Reply → Bytes
  | byte value => [value]
  | string data => data ++ [Code.terminator]

/-- The reply in words. -/
def describe : Reply → String
  | byte value => s!"byte {value.toNat}"
  | string data => "string " ++ Text.quote (Text.lossy data)

/-- Read a reply as a byte. -/
def asByte : Reply → Except ProtocolError UInt8
  | byte value => .ok value
  | other => .error (.unexpectedReply "byte" other.describe)

/-- Read a reply as a string. -/
def asString : Reply → Except ProtocolError Bytes
  | string data => .ok data
  | other => .error (.unexpectedReply "string" other.describe)

/-- Read a reply as a truth value, which is a byte 0 or 1. -/
def asBool (r : Reply) : Except ProtocolError Bool :=
  r.asByte.bind fun value ↦
    if value = 0 then .ok false
    else if value = 1 then .ok true
    else .error (.unexpectedReply "0 or 1" (toString value.toNat))

end Reply

end PinballBoard
