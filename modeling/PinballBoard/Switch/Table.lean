import PinballBoard.Switch.Address

/-!
# Tables of switch states

What is known about the matrix: for each address whether its switch is active, as far as anything
has been heard of it. A table is a vector over the 64 addresses, so that two tables with the same
states are equal and no address can be held twice.
-/

namespace PinballBoard

/-- For each address the last known state of its switch. -/
structure SwitchTable where
  /-- The states in the order of `Switch.all`. -/
  cells : Vector (Option Bool) 64
deriving DecidableEq, Repr

namespace SwitchTable

/-- Nothing is known. -/
def empty : SwitchTable := ⟨Vector.replicate 64 none⟩

/-- The last known state of a switch. -/
def get? (t : SwitchTable) (s : Switch) : Option Bool := t.cells[s.index]

/-- Learn the state of one switch. -/
def insert (t : SwitchTable) (s : Switch) (active : Bool) : SwitchTable :=
  ⟨t.cells.set s.index (some active)⟩

/-- How many switches have a state. -/
def size (t : SwitchTable) : Nat := (Switch.all.filter fun s ↦ (t.get? s).isSome).length

/-- The switches whose state is active, in ascending order. -/
def active (t : SwitchTable) : List Switch := Switch.all.filter fun s ↦ t.get? s == some true

@[simp]
theorem get?_insert_self (t : SwitchTable) (s : Switch) (active : Bool) :
    (t.insert s active).get? s = some active := by
  simp [get?, insert]

@[simp]
theorem get?_empty (s : Switch) : empty.get? s = none := by
  simp [get?, empty]

theorem get?_insert_of_ne (t : SwitchTable) {s u : Switch} (active : Bool) (h : u ≠ s) :
    (t.insert s active).get? u = t.get? u := by
  have hindex : (s.index : Nat) ≠ u.index := fun heq ↦ h (Switch.index_injective heq.symm)
  simp [get?, insert, Vector.getElem_set_ne _ _ hindex]

end SwitchTable

end PinballBoard
