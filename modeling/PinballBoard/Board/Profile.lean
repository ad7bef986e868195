import PinballBoard.Text.Utf8
import PinballBoard.Wire.Code
import PinballBoard.Wire.Error

/-!
# Kinds of boards and what they drive

Two families of machines are known. They differ in where the numbers of their lamps and coils
begin: at one on System 1, at zero on System 80. The displays of both begin at zero.

A profile adds the counts that the board reports when it starts. A number exists when it lies in the
run of `count` numbers that begins at the base; the run may end at 255 or just beyond the bytes, and
does not wrap around.
-/

namespace PinballBoard

/-- A family of pinball machines. -/
inductive Family where
  | system1
  | system80
deriving DecidableEq, Repr

namespace Family

/-- The number in the family's name. -/
def number : Family → UInt8
  | system1 => 1
  | system80 => 80

/-- The first number of a lamp or a coil. -/
def base : Family → UInt8
  | system1 => 1
  | system80 => 0

/-- What a board of the family calls itself. -/
def identifier : Family → Bytes
  | system1 => Text.utf8 "LISY1"
  | system80 => Text.utf8 "LISY80"

/-- The family of a board that calls itself by this name. -/
def ofIdentifier (name : Bytes) : Except ProtocolError Family :=
  if name = identifier system1 then .ok system1
  else if name = identifier system80 then .ok system80
  else .error (.unknownBoard (Text.lossy name))

/-- The name of the family. -/
def text (f : Family) : String := s!"System {f.number.toNat}"

instance : ToString Family := ⟨text⟩

end Family

/-- A board's family and the counts of what it drives. -/
structure Profile where
  family : Family
  lamps : UInt8
  coils : UInt8
  displays : UInt8
deriving DecidableEq, Repr

namespace Profile

/-- Whether a number lies among `count` numbers that begin at the family's base. -/
def inRun (p : Profile) (count index : UInt8) : Bool :=
  p.family.base.toNat ≤ index.toNat && index.toNat < p.family.base.toNat + count.toNat

/-- Whether a lamp has this number. -/
def hasLamp (p : Profile) (index : UInt8) : Bool := p.inRun p.lamps index

/-- Whether a coil has this number. -/
def hasCoil (p : Profile) (index : UInt8) : Bool := p.inRun p.coils index

/-- Whether a display has this number and a command code. -/
def hasDisplay (p : Profile) (index : UInt8) : Bool :=
  index.toNat < p.displays.toNat && index.toNat < Limit.displays.toNat

/-- The profile in words. -/
def text (p : Profile) : String :=
  s!"{p.family} ({p.lamps.toNat} lamps, {p.coils.toNat} solenoids, {p.displays.toNat} displays)"

instance : ToString Profile := ⟨text⟩

/-- Which numbers a count of lamps or coils leaves, in words. -/
def runText (p : Profile) (count : UInt8) : String :=
  if count = 0 then s!"{p.family} has none"
  else s!"{p.family} has {p.family.base.toNat}-{p.family.base.toNat + count.toNat - 1}"

end Profile

end PinballBoard
