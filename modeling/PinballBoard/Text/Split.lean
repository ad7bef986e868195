/-!
# Parts of a text

A separator cuts a text into parts: one more than there are separators, so an empty text is one
empty part.
-/

namespace PinballBoard.Text

/-- The parts between the separators. -/
def split (sep : Char) : List Char → List (List Char)
  | [] => [[]]
  | c :: cs =>
    if c = sep then [] :: split sep cs
    else
      match split sep cs with
      | [] => [[c]]
      | part :: parts => (c :: part) :: parts

/-- The parts of a string. -/
def parts (sep : Char) (text : String) : List String := (split sep text.toList).map String.ofList

end PinballBoard.Text
