import PinballBoard.Decimal.Binary

/-!
# The shortest decimal that reads back

A number of a binary format stands for all reals that round to it. Among the decimals in that
interval the one with the fewest digits is written, and among those the nearest. If any point of a
decimal grid lies in the interval, then one of the two grid points next to the number does, so two
candidates for each number of digits are enough; nine digits always suffice for four bytes.

How the digits are laid out is a decision of the format, kept apart in `Layout`.
-/

namespace PinballBoard.Decimal

/-! ## Digits -/

/-- The reals that round to a number, over a common denominator. Both ends belong to it when the
mantissa is even. -/
structure Interval where
  low : Nat
  value : Nat
  high : Nat
  den : Nat
  closed : Bool
deriving DecidableEq, Repr

/-- The interval of a number. Below a power of two the neighbours lie half as far apart. -/
def Interval.of (fmt : Format) (x : Dyadic) : Interval :=
  let unit := twoTo x.exponent.toNat
  let narrow := x.mantissa == twoTo (fmt.precision - 1) && fmt.least < x.exponent
  { low := (4 * x.mantissa - (if narrow then 1 else 2)) * unit
    value := 4 * x.mantissa * unit
    high := (4 * x.mantissa + 2) * unit
    den := 4 * x.den
    closed := x.mantissa % 2 == 0 }

/-- Whether `digits * 10 ^ exponent` lies in the interval. -/
def Interval.contains (i : Interval) (digits : Nat) (exponent : Int) : Bool :=
  let point := digits * tenTo exponent.toNat * i.den
  let scale := tenTo (-exponent).toNat
  if i.closed then i.low * scale ≤ point && point ≤ i.high * scale
  else i.low * scale < point && point < i.high * scale

/-- How many powers of ten lie at or below `n`. -/
def decimalLength : Nat → Nat
  | 0 => 0
  | n + 1 => decimalLength ((n + 1) / 10) + 1
termination_by n => n
decreasing_by omega

/-- The exponent of the first digit of a quotient: `10 ^ e ≤ num / den < 10 ^ (e + 1)`. -/
def leadingExponent (num den : Nat) : Int :=
  let guess : Int := decimalLength num - decimalLength den
  if num * tenTo (-guess).toNat < den * tenTo guess.toNat then guess - 1 else guess

/-- The shortest digits at `count` digits or more, with the exponent of the last one. -/
def shortestFrom (i : Interval) (lead : Int) : Nat → Nat → Nat × Int
  | 0, count =>
    let exponent := lead - count + 1
    (divHalfEven (i.value * tenTo (-exponent).toNat) (i.den * tenTo exponent.toNat), exponent)
  | fuel + 1, count =>
    let exponent := lead - count + 1
    let below := i.value * tenTo (-exponent).toNat / (i.den * tenTo exponent.toNat)
    match i.contains below exponent, i.contains (below + 1) exponent with
    | true, true =>
      (divHalfEven (i.value * tenTo (-exponent).toNat) (i.den * tenTo exponent.toNat), exponent)
    | true, false => (below, exponent)
    | false, true => (below + 1, exponent)
    | false, false => shortestFrom i lead fuel (count + 1)

/-- Drop the zeros at the end of some digits. -/
def dropZeros : Nat → Nat → Int → Nat × Int
  | 0, digits, exponent => (digits, exponent)
  | fuel + 1, digits, exponent =>
    if digits % 10 = 0 ∧ digits ≠ 0 then dropZeros fuel (digits / 10) (exponent + 1)
    else (digits, exponent)

/-- The shortest decimal that reads back as a positive number of the format. -/
def shortest (fmt : Format) (x : Dyadic) : Nat × Int :=
  let i := Interval.of fmt x
  let (digits, exponent) := shortestFrom i (leadingExponent i.value i.den) fmt.precision 1
  dropZeros digits digits exponent

/-! ## Layout -/

/-- Which numbers are written without an exponent: those whose point stands at most `above` digits
after the first digit, or has fewer than `below` zeros after it. -/
structure Layout where
  above : Nat
  below : Nat
deriving DecidableEq, Repr

/-- The text of `digits * 10 ^ exponent`. Without an exponent there is always a digit on both sides
of the point; with one, the point is left out after a single digit and the exponent has a sign. -/
def Layout.text (layout : Layout) (digits : Nat) (exponent : Int) : String :=
  let ds := (toString digits).toList
  let point : Int := ds.length + exponent
  if 0 ≤ exponent ∧ point ≤ layout.above then
    String.ofList (ds ++ List.replicate exponent.toNat '0' ++ ['.', '0'])
  else if 0 < point ∧ point ≤ layout.above then
    String.ofList (ds.take point.toNat ++ '.' :: ds.drop point.toNat)
  else if -(layout.below : Int) < point ∧ point ≤ 0 then
    String.ofList (['0', '.'] ++ List.replicate (-point).toNat '0' ++ ds)
  else
    let power := (if point < 1 then "e-" else "e+") ++ toString (point - 1).natAbs
    match ds with
    | [d] => String.ofList [d] ++ power
    | d :: rest => String.ofList (d :: '.' :: rest) ++ power
    | [] => ""

/-- The layout of numbers of four bytes. -/
def Layout.single : Layout := ⟨13, 6⟩

/-- The text of a number of four bytes; only finite numbers have one. -/
def Single.text? : Single → Option String
  | .finite negative x =>
    let sign := if negative then "-" else ""
    if x.mantissa = 0 then some (sign ++ "0.0")
    else
      let (digits, exponent) := shortest Format.single x
      some (sign ++ Layout.single.text digits exponent)
  | _ => none

end PinballBoard.Decimal
