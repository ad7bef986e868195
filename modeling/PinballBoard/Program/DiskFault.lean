/-!
# Faults of the disk

Why the system does not open what a path names, or does not read it. The words and the number are
those of the system; a serial port shows the words alone, a settings file shows both.
-/

namespace PinballBoard

/-- Why a path leads nowhere, or to something of the wrong kind. -/
inductive DiskFault where
  | missing
  | noDevice
  | notFolder
  | isFolder
  | notTerminal
  | nameTooLong
deriving DecidableEq, Repr

namespace DiskFault

/-- All faults. -/
def all : List DiskFault := [missing, noDevice, notFolder, isFolder, notTerminal, nameTooLong]

/-- The fault in words. -/
def text : DiskFault → String
  | missing => "No such file or directory"
  | noDevice => "No such device or address"
  | notFolder => "Not a directory"
  | isFolder => "Is a directory"
  | notTerminal => "Not a typewriter"
  | nameTooLong => "File name too long"

/-- The number by which the system knows the fault. -/
def number : DiskFault → Nat
  | missing => 2
  | noDevice => 6
  | notFolder => 20
  | isFolder => 21
  | notTerminal => 25
  | nameTooLong => 36

/-- The fault with a number. -/
def ofNumber? (number : Nat) : Option DiskFault := all.find? (·.number == number)

/-- The fault in words, and its number. -/
def message (fault : DiskFault) : String := s!"{fault.text} (os error {fault.number})"

end DiskFault

end PinballBoard
