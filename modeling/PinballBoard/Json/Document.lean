import PinballBoard.Json.Token

/-!
# JSON documents

A document is a value; the members of an object keep their order and may repeat a name, because it
is the reader of a record who decides what a repetition means. Numbers stay literals for the same
reason.

The reader works on tokens and follows the grammar: a value is a word, a literal, a string, or a
bracketed list of values or members with commas between them and none at the end.
-/

namespace PinballBoard.Json

/-- A JSON value. -/
inductive Document where
  | null
  | bool (value : Bool)
  | number (literal : Decimal.Literal)
  /-- A string; without a text if it holds half of a surrogate pair. -/
  | string (text : Option String)
  | array (items : List Document)
  | object (members : List (Option String × Document))
deriving Repr

mutual

/-- The value at the front. `fuel` bounds the tokens that are left. -/
def value? : Nat → List Token → Option (Document × List Token)
  | 0, _ => none
  | fuel + 1, ts =>
    match ts with
    | .null :: rest => some (.null, rest)
    | .bool b :: rest => some (.bool b, rest)
    | .number l :: rest => some (.number l, rest)
    | .string s :: rest => some (.string s, rest)
    | .openBracket :: .closeBracket :: rest => some (.array [], rest)
    | .openBracket :: rest => (items? fuel rest).map fun (items, rest) ↦ (.array items, rest)
    | .openBrace :: .closeBrace :: rest => some (.object [], rest)
    | .openBrace :: rest => (members? fuel rest).map fun (ms, rest) ↦ (.object ms, rest)
    | _ => none

/-- One or more values with commas between them, up to the closing bracket. -/
def items? : Nat → List Token → Option (List Document × List Token)
  | 0, _ => none
  | fuel + 1, ts =>
    (value? fuel ts).bind fun (item, rest) ↦
      match rest with
      | .closeBracket :: rest => some ([item], rest)
      | .comma :: rest => (items? fuel rest).map fun (items, rest) ↦ (item :: items, rest)
      | _ => none

/-- One or more members with commas between them, up to the closing brace. -/
def members? : Nat → List Token → Option (List (Option String × Document) × List Token)
  | 0, _ => none
  | fuel + 1, ts =>
    match ts with
    | .string name :: .colon :: rest =>
      (value? fuel rest).bind fun (item, rest) ↦
        match rest with
        | .closeBrace :: rest => some ([(name, item)], rest)
        | .comma :: rest => (members? fuel rest).map fun (ms, rest) ↦ ((name, item) :: ms, rest)
        | _ => none
    | _ => none

end

/-- The value of a text that holds one value and nothing else. -/
def Document.parse? (text : String) : Option Document :=
  (tokens? text).bind fun ts ↦
    match value? (2 * ts.length + 1) ts with
    | some (document, []) => some document
    | _ => none

end PinballBoard.Json
