/-!
# Binary floating point, in whole numbers

A finite number of a binary format is a whole mantissa times a power of two. Everything here works
on that pair and on quotients of natural numbers, so that rounding is one division with remainder
and no step depends on the arithmetic of the machine.

`Format.round` is the only place where precision is lost: a quotient goes to the nearest number of
the format, and from the middle of two neighbours to the one with the even mantissa.
-/

namespace PinballBoard.Decimal

/-- A power of two. -/
def twoTo (exponent : Nat) : Nat := Nat.pow 2 exponent

/-- A power of ten. -/
def tenTo (exponent : Nat) : Nat := Nat.pow 10 exponent

/-- The quotient rounded to a whole number, from the middle to the even one. -/
def divHalfEven (num den : Nat) : Nat :=
  let q := num / den
  let r := num % den
  if 2 * r < den then q
  else if den < 2 * r then q + 1
  else q + q % 2

/-- A mantissa times a power of two. -/
structure Dyadic where
  mantissa : Nat
  exponent : Int
deriving DecidableEq, Repr

namespace Dyadic

/-- The numerator of the value. -/
def num (x : Dyadic) : Nat := x.mantissa * twoTo x.exponent.toNat

/-- The denominator of the value. -/
def den (x : Dyadic) : Nat := twoTo (-x.exponent).toNat

end Dyadic

/-- A binary format: the bits of its mantissa and the range of its exponents. -/
structure Format where
  precision : Nat
  least : Int
  greatest : Int
deriving DecidableEq, Repr

namespace Format

/-- The format of four bytes. -/
def single : Format := ⟨24, -149, 104⟩

/-- The format of eight bytes. -/
def double : Format := ⟨53, -1074, 971⟩

/-- The mantissa of `num / den` at an exponent. -/
def mantissaAt (num den : Nat) (exponent : Int) : Nat :=
  divHalfEven (num * twoTo (-exponent).toNat) (den * twoTo exponent.toNat)

/-- The exponent at which `num / den` has a mantissa of full precision, or the least one. -/
def exponentOf (fmt : Format) (num den : Nat) : Int :=
  let guess : Int := max fmt.least (num.log2 - den.log2 - fmt.precision)
  if den * twoTo guess.toNat * twoTo fmt.precision ≤ num * twoTo (-guess).toNat then guess + 1
  else guess

/-- The number of the format that is nearest to `num / den`, if it has one of this size. -/
def round (fmt : Format) (num den : Nat) : Option Dyadic :=
  if num = 0 then some ⟨0, fmt.least⟩
  else
    let exponent := fmt.exponentOf num den
    let mantissa := mantissaAt num den exponent
    let x : Dyadic :=
      if mantissa = twoTo fmt.precision then ⟨twoTo (fmt.precision - 1), exponent + 1⟩
      else ⟨mantissa, exponent⟩
    if fmt.greatest < x.exponent then none else some x

end Format

/-- A number of four bytes. -/
inductive Single where
  | nan
  | infinite (negative : Bool)
  | finite (negative : Bool) (magnitude : Dyadic)
deriving DecidableEq, Repr

namespace Single

/-- The number nearest to a quotient; beyond the greatest one lies infinity. -/
def ofQuotient (negative : Bool) (num den : Nat) : Single :=
  match Format.single.round num den with
  | some x => finite negative x
  | none => infinite negative

/-- Whether the number is above zero. No order holds of `nan`. -/
def isPositive : Single → Bool
  | nan => false
  | infinite negative => !negative
  | finite negative x => !negative && x.mantissa != 0

/-- One. -/
def one : Single := ofQuotient false 1 1

/-- Zero. -/
def zero : Single := ofQuotient false 0 1

end Single

end PinballBoard.Decimal
