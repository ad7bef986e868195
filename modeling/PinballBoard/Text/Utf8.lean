/-!
# UTF-8, read with losses

Identifiers and version texts come from the board as bytes and go to people as text. Bytes that are
no UTF-8 are not refused: each longest run of bytes that begins a character but does not complete it
is shown as one U+FFFD, and so is every byte that can begin none.

The reader is a fold over the bytes. Between two bytes it remembers at most one unfinished
character: the number of bytes it still lacks, the range of the next one, and the value so far. The
range of the byte after the first is what keeps overlong forms, surrogates and numbers above
U+10FFFF out.
-/

namespace PinballBoard.Text

/-- What stands for bytes that are no UTF-8. -/
def replacement : Char := '\ufffd'

/-- A character of which some bytes have been read. -/
structure Unfinished where
  /-- The bytes still lacking, at least one. -/
  lacking : Nat
  /-- The least value of the next byte. -/
  low : UInt8
  /-- The greatest value of the next byte. -/
  high : UInt8
  /-- The bits read so far. -/
  value : Nat
deriving DecidableEq, Repr

/-- What a byte means where a character may begin: a whole character, the beginning of one, or
neither. -/
def beginChar (b : UInt8) : List Char × Option Unfinished :=
  let n := b.toNat
  if n < 0x80 then ([Char.ofNat n], none)
  else if n < 0xc2 then ([replacement], none)
  else if n < 0xe0 then ([], some ⟨1, 0x80, 0xbf, n - 0xc0⟩)
  else if n = 0xe0 then ([], some ⟨2, 0xa0, 0xbf, 0⟩)
  else if n = 0xed then ([], some ⟨2, 0x80, 0x9f, 0xd⟩)
  else if n < 0xf0 then ([], some ⟨2, 0x80, 0xbf, n - 0xe0⟩)
  else if n = 0xf0 then ([], some ⟨3, 0x90, 0xbf, 0⟩)
  else if n < 0xf4 then ([], some ⟨3, 0x80, 0xbf, n - 0xf0⟩)
  else if n = 0xf4 then ([], some ⟨3, 0x80, 0x8f, 4⟩)
  else ([replacement], none)

/-- One byte: the characters it settles and the character it leaves unfinished. -/
def nextByte (pending : Option Unfinished) (b : UInt8) : List Char × Option Unfinished :=
  match pending with
  | none => beginChar b
  | some u =>
    if u.low ≤ b ∧ b ≤ u.high then
      let value := 64 * u.value + (b.toNat - 0x80)
      if u.lacking ≤ 1 then ([Char.ofNat value], none)
      else ([], some ⟨u.lacking - 1, 0x80, 0xbf, value⟩)
    else
      let (chars, rest) := beginChar b
      (replacement :: chars, rest)

/-- The characters of bytes that follow an unfinished character. -/
def decodeFrom (pending : Option Unfinished) : List UInt8 → List Char
  | [] => if pending.isSome then [replacement] else []
  | b :: bs => (nextByte pending b).1 ++ decodeFrom (nextByte pending b).2 bs

/-- The text of some bytes, with U+FFFD for what is no UTF-8. -/
def lossy (bytes : List UInt8) : String := String.ofList (decodeFrom none bytes)

/-- The UTF-8 bytes of a text. -/
def utf8 (s : String) : List UInt8 := s.toUTF8.data.toList

end PinballBoard.Text
