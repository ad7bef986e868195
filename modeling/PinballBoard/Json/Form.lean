import PinballBoard.Json.Record
import PinballBoard.Json.Writer

/-!
# Types with a JSON form

A type with a JSON form is read from a document and written in the compact form. `parse?` and
`render` are the two directions on texts.
-/

namespace PinballBoard.Json

/-- A type that is read from JSON and written to it. -/
class JsonForm (α : Type) where
  /-- The value of a document, if it is a form of one. -/
  read? : Document → Option α
  /-- The compact form. -/
  write : α → List Char

/-- The value that a text holds. -/
def parse? (α : Type) [JsonForm α] (text : String) : Option α :=
  (Document.parse? text).bind JsonForm.read?

/-- The compact form as a text. -/
def render {α : Type} [JsonForm α] (a : α) : String := String.ofList (JsonForm.write a)

end PinballBoard.Json
