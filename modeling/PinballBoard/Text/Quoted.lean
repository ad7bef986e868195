import PinballBoard.Text.Hidden

/-!
# Quoted texts

Messages show a text between double quotes, so that a reader sees where it ends and what it holds.
A quote and a backslash get a backslash, four controls have short names, and what has no sign of
its own is shown by number. An apostrophe needs no escape between double quotes.
-/

namespace PinballBoard.Text

/-- A number in lower case hexadecimal, without leading zeros. -/
def hex (n : Nat) : List Char := Nat.toDigits 16 n

/-- How one character is written between the quotes. -/
def quoteChar (c : Char) : List Char :=
  if c = '\x00' then ['\\', '0']
  else if c = '\t' then ['\\', 't']
  else if c = '\r' then ['\\', 'r']
  else if c = '\n' then ['\\', 'n']
  else if c = '"' then ['\\', '"']
  else if c = '\\' then ['\\', '\\']
  else if isHidden c then ['\\', 'u', '\x7b'] ++ hex c.toNat ++ ['\x7d']
  else [c]

/-- The text between double quotes. -/
def quote (s : String) : String :=
  String.ofList ('"' :: s.toList.flatMap quoteChar ++ ['"'])

end PinballBoard.Text
