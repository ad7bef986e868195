import PinballBoard.Text.Blank

/-!
# Decimal numerals

Device numbers are typed as decimal texts. A numeral is one or more ASCII digits with any number of
leading zeros; a single plus sign may stand in front, a minus sign may not. The value is exact, so
that a limit is a comparison and no digit loop has to watch for overflow.
-/

namespace PinballBoard.Text

/-- The value of an ASCII digit. -/
def digit? (c : Char) : Option Nat :=
  if '0' ≤ c ∧ c ≤ '9' then some (c.toNat - '0'.toNat) else none

/-- The value of a run of digits that follows digits of value `acc`. -/
def digits? : Nat → List Char → Option Nat
  | acc, [] => some acc
  | acc, c :: cs => (digit? c).bind fun d ↦ digits? (10 * acc + d) cs

/-- The value of a numeral without a sign: at least one digit and nothing else. -/
def natural? : List Char → Option Nat
  | [] => none
  | cs => digits? 0 cs

/-- The value of a numeral that may carry one plus sign. -/
def signedNatural? : List Char → Option Nat
  | '+' :: cs => natural? cs
  | cs => natural? cs

/-- The byte that a typed text denotes: white space around it is dropped, and the value must not
exceed 255. -/
def byte? (text : String) : Option UInt8 :=
  (signedNatural? (trim text.toList)).bind fun n ↦
    if n < 256 then some (UInt8.ofNat n) else none

end PinballBoard.Text
