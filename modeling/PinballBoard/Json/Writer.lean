import PinballBoard.Json.Document
import PinballBoard.Text.Quoted

/-!
# Writing JSON

The compact form: no white space, members in the order in which the record declares them. In a
string only the quote, the backslash and the controls below U+0020 are escaped, five of the controls
by letter and the others by number; every other character stands as it is.
-/

namespace PinballBoard.Json

/-- How one character of a string is written. -/
def writeChar (c : Char) : List Char :=
  if c = '"' then ['\\', '"']
  else if c = '\\' then ['\\', '\\']
  else if c = '\x08' then ['\\', 'b']
  else if c = '\t' then ['\\', 't']
  else if c = '\n' then ['\\', 'n']
  else if c = '\x0c' then ['\\', 'f']
  else if c = '\r' then ['\\', 'r']
  else if c.toNat < 0x10 then ['\\', 'u', '0', '0', '0'] ++ Text.hex c.toNat
  else if c.toNat < 0x20 then ['\\', 'u', '0', '0'] ++ Text.hex c.toNat
  else [c]

/-- A string with its quotes. -/
def writeString (s : String) : List Char := '"' :: s.toList.flatMap writeChar ++ ['"']

/-- A natural number in decimal. -/
def writeNat (n : Nat) : List Char := (toString n).toList

/-- A truth value. -/
def writeBool (b : Bool) : List Char := (if b then "true" else "false").toList

/-- A value that may be missing. -/
def writeOption {α : Type} (write : α → List Char) : Option α → List Char
  | some a => write a
  | none => "null".toList

/-- An object with these members, in this order. -/
def writeObject (members : List (String × List Char)) : List Char :=
  '\x7b' :: (List.intercalate [',']
    (members.map fun (name, value) ↦ writeString name ++ ':' :: value)) ++ ['\x7d']

end PinballBoard.Json
