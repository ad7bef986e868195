import PinballBoard.Decimal.Binary

/-!
# Number literals

A literal is kept digit by digit, because what it denotes depends on who asks. As a natural number
it is exact, and only a plain one without sign, fraction and exponent is one. As a number of four
bytes it may be anything.

A plain literal that fits 64 bits is rounded once. Any other one goes through eight bytes first: its
leading digits are collected while they fit 64 bits, later ones count as zeros before the point and
for nothing after it, and the significand is scaled by powers of ten up to `10 ^ 308`, each step
rounded. The last digit of such a number can therefore differ from the nearest one; it is the scale
that decides, not the text. A number too great for eight bytes is refused, one too great for four is
infinite.
-/

namespace PinballBoard.Decimal

/-- The parts of a number literal. -/
structure Literal where
  negative : Bool
  /-- The digits before the point, at least one. -/
  whole : List Nat
  /-- The digits after the point. -/
  fraction : List Nat
  /-- Whether the exponent is negative, and its digits. -/
  exponent : Option (Bool × List Nat)
deriving DecidableEq, Repr

/-- The value of a run of digits. -/
def valueOf (digits : List Nat) : Nat := digits.foldl (fun acc d ↦ 10 * acc + d) 0

/-- The greatest significand. -/
def greatestSignificand : Nat := UInt64.size - 1

/-- Append digits to a significand while it stays in range; also how many were appended. -/
def collect (significand : Nat) : List Nat → Nat × Nat
  | [] => (significand, 0)
  | d :: ds =>
    if greatestSignificand < 10 * significand + d then (significand, 0)
    else
      let (s, n) := collect (10 * significand + d) ds
      (s, n + 1)

/-- Scale a number of eight bytes by a power of ten, `10 ^ 308` at a time at most. -/
def scale (x : Dyadic) : Nat → Int → Option Dyadic
  | 0, _ => some x
  | fuel + 1, exponent =>
    if exponent.natAbs ≤ 308 then
      (Format.double.round (tenTo exponent.natAbs) 1).bind fun power ↦
        if 0 ≤ exponent then Format.double.round (x.num * power.num) (x.den * power.den)
        else Format.double.round (x.num * power.den) (x.den * power.num)
    else if x.mantissa = 0 then some x
    else if 0 ≤ exponent then none
    else
      (Format.double.round (tenTo 308) 1).bind fun power ↦
        (Format.double.round (x.num * power.den) (x.den * power.num)).bind fun y ↦
          scale y fuel (exponent + 308)

namespace Literal

/-- The literal is plain: no fraction and no exponent. -/
def isPlain (l : Literal) : Bool := l.fraction.isEmpty && l.exponent.isNone

/-- The natural number that a plain literal without a minus sign denotes. -/
def natural? (l : Literal) : Option Nat :=
  if l.isPlain && !l.negative then some (valueOf l.whole) else none

/-- The magnitude as a number of eight bytes. -/
def double? (l : Literal) : Option Dyadic :=
  let (s₁, n₁) := collect 0 l.whole
  let (s₂, n₂) := collect s₁ l.fraction
  let start : Int := (l.whole.length - n₁ : Nat) - (n₂ : Int)
  let (negative, digits) := l.exponent.getD (false, [])
  let size := valueOf digits
  if twoTo 31 ≤ size then
    if s₂ = 0 || negative then some ⟨0, Format.double.least⟩ else none
  else
    let exponent := if negative then start - size else start + size
    (Format.double.round s₂ 1).bind fun x ↦ scale x (exponent.natAbs / 308 + 1) exponent

/-- The number of four bytes that the literal denotes. -/
def single? (l : Literal) : Option Single :=
  let n := valueOf l.whole
  if l.isPlain && (if l.negative then 0 < n && n ≤ twoTo 63 else n ≤ greatestSignificand) then
    some (.ofQuotient l.negative n 1)
  else l.double?.map fun x ↦ .ofQuotient l.negative x.num x.den

end Literal

end PinballBoard.Decimal
