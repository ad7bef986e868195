import PinballBoard.Text.Numeral
import PinballBoard.Wire.Code
import PinballBoard.Wire.Error

/-!
# Addresses of the switch matrix

The matrix has eight rows and eight columns, and a switch is numbered by writing its row and its
column side by side in decimal: the switch in row 3 and column 6 is number 36. So the 64 addresses
run up to 77 with gaps, and a byte is an address when both of its decimal digits are below 8.

`Switch` carries that fact, so that nothing behind the three ways to make one has to check it again.
-/

namespace PinballBoard

/-- An address of the switch matrix. -/
structure Switch where
  /-- Row and column side by side, `10 * row + column`. -/
  number : UInt8
  row_lt : number.toNat / 10 < 8 := by decide
  column_lt : number.toNat % 10 < 8 := by decide
deriving DecidableEq, Repr

namespace Switch

/-- The row, 0 to 7. -/
def row (s : Switch) : Fin 8 := ⟨s.number.toNat / 10, s.row_lt⟩

/-- The column, 0 to 7. -/
def column (s : Switch) : Fin 8 := ⟨s.number.toNat % 10, s.column_lt⟩

private theorem toNat_sideBySide (row column : Fin 8) :
    (UInt8.ofNat (10 * row + column)).toNat = 10 * row + column := by
  have := row.isLt
  have := column.isLt
  rw [UInt8.toNat_ofNat', Nat.mod_eq_of_lt (by omega)]

/-- The switch in a row and a column. -/
def ofPosition (row column : Fin 8) : Switch where
  number := UInt8.ofNat (10 * row + column)
  row_lt := by rw [toNat_sideBySide]; omega
  column_lt := by rw [toNat_sideBySide]; omega

/-- Every address, row by row. -/
def all : List Switch :=
  (List.finRange 8).flatMap fun row ↦ (List.finRange 8).map fun column ↦ ofPosition row column

/-- The place of a switch in `all`. -/
def index (s : Switch) : Fin 64 :=
  ⟨8 * s.row + s.column, by have := s.row.isLt; have := s.column.isLt; omega⟩

/-- The switch with a number, if its two digits are an address. -/
def ofNumber (n : UInt8) : Except ProtocolError Switch :=
  if h : n.toNat / 10 < 8 ∧ n.toNat % 10 < 8 then .ok ⟨n, h.1, h.2⟩
  else .error (.invalidSwitch s!"{n.toNat} (row and column must both be 0-7)")

/-- The switch at a position that is given in bytes. -/
def ofRowColumn (row column : UInt8) : Except ProtocolError Switch :=
  if h : row.toNat < 8 ∧ column.toNat < 8 then .ok (ofPosition ⟨_, h.1⟩ ⟨_, h.2⟩)
  else .error (.invalidSwitch s!"row {row.toNat}, column {column.toNat}")

/-- The switch whose number is typed. A text that is no byte is refused as it stands, with its
white space. -/
def ofText (text : String) : Except ProtocolError Switch :=
  match Text.byte? text with
  | some n => ofNumber n
  | none => .error (.invalidSwitch text)

/-- The number in decimal. -/
def text (s : Switch) : String := toString s.number.toNat

instance : ToString Switch := ⟨text⟩

@[ext]
theorem ext {s t : Switch} (h : s.number = t.number) : s = t := by
  cases s; cases t; simp_all

theorem index_injective {s t : Switch} (h : (s.index : Nat) = t.index) : s = t := by
  have hs := s.column_lt
  have ht := t.column_lt
  simp only [index, row, column] at h
  exact ext (UInt8.toNat_inj.mp (by omega))

@[simp]
theorem ofNumber_number (s : Switch) : ofNumber s.number = .ok s := by
  simp [ofNumber, s.row_lt, s.column_lt]

end Switch

end PinballBoard
