import PinballBoard.Decimal.Literal
import PinballBoard.Text.Numeral

/-!
# Tokens of a JSON text

White space is one of four characters and stands between tokens only. A string may hold any
character but a control, and escapes; an escape by number may name half of a surrogate pair. Such a
string is a well-formed token all the same, but it is no text unless its halves pair up, so a string
token holds its text only if there is one.
-/

namespace PinballBoard.Json

open PinballBoard.Decimal (Literal)

/-- The words and signs of a JSON text. -/
inductive Token where
  | openBrace
  | closeBrace
  | openBracket
  | closeBracket
  | comma
  | colon
  | null
  | bool (value : Bool)
  | number (literal : Literal)
  /-- A string; without a text if it holds half of a surrogate pair. -/
  | string (text : Option String)
deriving DecidableEq, Repr

/-! ## Strings -/

/-- What one place of a string denotes: a character or half of a surrogate pair. -/
inductive Piece where
  | char (c : Char)
  | half (unit : Nat)
deriving DecidableEq, Repr

/-- The value of a hexadecimal digit. -/
def hexDigit? (c : Char) : Option Nat :=
  if '0' ≤ c ∧ c ≤ '9' then some (c.toNat - '0'.toNat)
  else if 'a' ≤ c ∧ c ≤ 'f' then some (c.toNat - 'a'.toNat + 10)
  else if 'A' ≤ c ∧ c ≤ 'F' then some (c.toNat - 'A'.toNat + 10)
  else none

/-- The value of four hexadecimal digits. -/
def hexUnit? (a b c d : Char) : Option Nat := do
  return ((← hexDigit? a) * 16 + (← hexDigit? b)) * 256 + (← hexDigit? c) * 16 + (← hexDigit? d)

/-- What an escape by number denotes. -/
def Piece.ofUnit (unit : Nat) : Piece :=
  if 0xd800 ≤ unit ∧ unit < 0xe000 then half unit else char (Char.ofNat unit)

/-- What an escape by letter denotes. -/
def escape? : Char → Option Char
  | '"' => some '"'
  | '\\' => some '\\'
  | '/' => some '/'
  | 'b' => some '\x08'
  | 'f' => some '\x0c'
  | 'n' => some '\n'
  | 'r' => some '\r'
  | 't' => some '\t'
  | _ => none

/-- The pieces of a string up to its closing quote, and what follows the quote. -/
def scanString : List Char → Option (List Piece × List Char)
  | '"' :: rest => some ([], rest)
  | '\\' :: 'u' :: a :: b :: c :: d :: rest =>
    (hexUnit? a b c d).bind fun unit ↦
      (scanString rest).map fun (ps, rest) ↦ (Piece.ofUnit unit :: ps, rest)
  | '\\' :: e :: rest =>
    (escape? e).bind fun c ↦ (scanString rest).map fun (ps, rest) ↦ (Piece.char c :: ps, rest)
  | c :: rest =>
    if c.toNat < 0x20 || c == '\\' then none
    else (scanString rest).map fun (ps, rest) ↦ (Piece.char c :: ps, rest)
  | [] => none

/-- The text of some pieces: a first half must be followed by a second half, and a second half must
follow a first one. -/
def joinPieces : List Piece → Option (List Char)
  | [] => some []
  | .char c :: ps => (joinPieces ps).map (c :: ·)
  | .half a :: .half b :: ps =>
    if a < 0xdc00 ∧ 0xdc00 ≤ b then
      (joinPieces ps).map (Char.ofNat (0x10000 + (a - 0xd800) * 0x400 + (b - 0xdc00)) :: ·)
    else none
  | .half _ :: _ => none

/-! ## Numbers -/

/-- The digits at the front. -/
def takeDigits : List Char → List Nat × List Char
  | [] => ([], [])
  | c :: cs =>
    match Text.digit? c with
    | some d => (d :: (takeDigits cs).1, (takeDigits cs).2)
    | none => ([], c :: cs)

/-- At least one digit at the front. -/
def someDigits? (cs : List Char) : Option (List Nat × List Char) :=
  match takeDigits cs with
  | ([], _) => none
  | found => some found

/-- The digits before the point: a zero stands alone. -/
def scanWhole : List Char → Option (List Nat × List Char)
  | '0' :: rest => some ([0], rest)
  | cs => someDigits? cs

/-- The digits after the point, if there is one. -/
def scanFraction : List Char → Option (List Nat × List Char)
  | '.' :: rest => someDigits? rest
  | cs => some ([], cs)

/-- The sign of an exponent. -/
def scanSign : List Char → Bool × List Char
  | '-' :: rest => (true, rest)
  | '+' :: rest => (false, rest)
  | cs => (false, cs)

/-- The exponent, if there is one. -/
def scanExponent : List Char → Option (Option (Bool × List Nat) × List Char)
  | 'e' :: rest | 'E' :: rest =>
    (someDigits? (scanSign rest).2).map fun (ds, rest') ↦ (some ((scanSign rest).1, ds), rest')
  | cs => some (none, cs)

/-- A number literal at the front. -/
def scanNumber (cs : List Char) : Option (Literal × List Char) :=
  let (negative, cs) := match cs with
    | '-' :: rest => (true, rest)
    | _ => (false, cs)
  (scanWhole cs).bind fun (whole, cs) ↦
    (scanFraction cs).bind fun (fraction, cs) ↦
      (scanExponent cs).map fun (exponent, cs) ↦ (⟨negative, whole, fraction, exponent⟩, cs)

/-! ## Texts -/

/-- White space between tokens. -/
def isSpace (c : Char) : Bool := c == ' ' || c == '\t' || c == '\n' || c == '\r'

/-- The token that begins with a character, and what follows it. -/
def scanToken : List Char → Option (Token × List Char)
  | '\x7b' :: rest => some (.openBrace, rest)
  | '\x7d' :: rest => some (.closeBrace, rest)
  | '[' :: rest => some (.openBracket, rest)
  | ']' :: rest => some (.closeBracket, rest)
  | ',' :: rest => some (.comma, rest)
  | ':' :: rest => some (.colon, rest)
  | 'n' :: 'u' :: 'l' :: 'l' :: rest => some (.null, rest)
  | 't' :: 'r' :: 'u' :: 'e' :: rest => some (.bool true, rest)
  | 'f' :: 'a' :: 'l' :: 's' :: 'e' :: rest => some (.bool false, rest)
  | '"' :: rest =>
    (scanString rest).map fun (ps, rest) ↦ (.string ((joinPieces ps).map String.ofList), rest)
  | cs => (scanNumber cs).map fun (l, rest) ↦ (.number l, rest)

/-- The tokens of a text; `fuel` bounds the characters that are left. -/
def scanAll : Nat → List Char → Option (List Token)
  | 0, cs => if cs.isEmpty then some [] else none
  | fuel + 1, cs =>
    match cs with
    | [] => some []
    | c :: rest =>
      if isSpace c then scanAll fuel rest
      else (scanToken cs).bind fun (t, rest) ↦ (scanAll fuel rest).map (t :: ·)

/-- The tokens of a text. -/
def tokens? (text : String) : Option (List Token) :=
  let cs := text.toList
  scanAll (cs.length + 1) cs

end PinballBoard.Json
