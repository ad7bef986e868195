import PinballBoard.Text.Numeral
import PinballBoard.Text.Split

/-!
# The simulated network

There is one host, this one, and nobody to ask for the address of another. A host is given as an
address or by name. An address has one to four numbers, each decimal, octal behind a zero or
hexadecimal behind `0x`; the last one fills the bytes that are left, so `127.1` is `127.0.0.1`.
Of names, only that of this host has an address. Any other one is either refused at once, because no
host can have it, or asked for in vain.
-/

namespace PinballBoard.Network

/-! ## Addresses -/

/-- The value of a digit up to fifteen. -/
def digit? (c : Char) : Option Nat :=
  if 'a' ≤ c ∧ c ≤ 'f' then some (c.toNat - 'a'.toNat + 10)
  else if 'A' ≤ c ∧ c ≤ 'F' then some (c.toNat - 'A'.toNat + 10)
  else Text.digit? c

/-- The value of some digits, at least one. -/
def number? (base : Nat) (digits : List Char) : Option Nat :=
  if digits = [] then none
  else
    digits.foldlM (fun acc c ↦
      (digit? c).bind fun d ↦ if d < base then some (base * acc + d) else none) 0

/-- The value of one number of an address. -/
def part? (text : String) : Option Nat :=
  match text.toList with
  | '0' :: 'x' :: digits | '0' :: 'X' :: digits => number? 16 digits
  | '0' :: digits => number? 8 ('0' :: digits)
  | digits => number? 10 digits

/-- The address that some numbers denote behind others of value `acc`, when there are still `left`
bytes to be filled. -/
def join? (acc : Nat) : Nat → List Nat → Option Nat
  | 0, _ | _, [] => none
  | left, [n] => if n < Nat.pow 256 left then some (acc * Nat.pow 256 left + n) else none
  | left + 1, n :: ns => if n < 256 then join? (256 * acc + n) left ns else none

/-- The address that a text denotes, as a number. -/
def address? (text : String) : Option Nat := ((Text.parts '.' text).mapM part?).bind (join? 0 4)

/-- The address of this host on the network inside it. -/
def loopback : Nat := 0x7f000001

/-! ## Names -/

/-- Whether a character may be in the name of a host. -/
def isNameChar (c : Char) : Bool := c.isAlphanum || c == '-' || c == '_'

/-- Whether a host can have the name. -/
def isName (name : String) : Bool :=
  let labels := Text.parts '.' name
  let labels := if 1 < labels.length && labels.getLast? == some "" then labels.dropLast else labels
  name.length ≤ 253 && name.toList.head? != some '-' &&
    labels.all fun label ↦ label != "" && label.length ≤ 63 && label.toList.all isNameChar

/-- Whether the text is the name of this host. -/
def isOwnName (name : String) : Bool := name.toList.map Char.toLower == "localhost".toList

/-- Whether a host that is given like this is this one, or why nobody can tell. -/
def isHere (host : String) : Except String Bool :=
  if isOwnName host then .ok true
  else if let some address := address? host then .ok (address == loopback || address == 0)
  else if host.toList.contains ':' && host.toList.all (fun c ↦ c == ':' || (digit? c).isSome) then
    .ok false
  else if isName host then
    .error "failed to lookup address information: Temporary failure in name resolution"
  else .error "failed to lookup address information: Name or service not known"

end PinballBoard.Network
