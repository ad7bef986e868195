import PinballBoard.Json.Document

/-!
# Records in JSON

A record is written as an object, and read from an object with its members in any order. Members
with unknown names are passed over, whatever they hold; a known name must not repeat, and every name
must be a text. A record is also read from an array of its fields in declared order.

What a missing field means is for the record to say, and for an object it may be something: the
field is simply absent. An array that is too short leaves nothing to go by, so it is refused unless
the whole record has defaults; one that is too long is always refused.
-/

namespace PinballBoard.Json

/-- Whether a name occurs at most once among the members. -/
def atMostOnce (members : List (Option String × Document)) (name : String) : Bool :=
  (members.filter fun m ↦ m.1 == some name).length ≤ 1

/-- The value of the first member with this name. -/
def member? (members : List (Option String × Document)) (name : String) : Option Document :=
  (members.find? fun m ↦ m.1 == some name).map (·.2)

/-- The values of the named fields, each absent or present. `defaults` says that an array may leave
out fields at its end. -/
def fields? (defaults : Bool) (names : List String) (document : Document) :
    Option (List (Option Document)) :=
  match document with
  | .object members =>
    if members.all (·.1.isSome) && names.all (atMostOnce members) then
      some (names.map (member? members))
    else none
  | .array items =>
    if items.length = names.length || defaults && items.length < names.length then
      some (items.map some ++ List.replicate (names.length - items.length) none)
    else none
  | _ => none

/-! ## Values of fields -/

/-- A natural number up to a limit. -/
def natural? (limit : Nat) : Document → Option Nat
  | .number l => l.natural?.bind fun n ↦ if n ≤ limit then some n else none
  | _ => none

/-- A byte. -/
def byte? (d : Document) : Option UInt8 := (natural? 255 d).map UInt8.ofNat

/-- A number of two bytes. -/
def word? (d : Document) : Option UInt16 := (natural? 65535 d).map UInt16.ofNat

/-- A number of four bytes. -/
def long? (d : Document) : Option UInt32 := (natural? (UInt32.size - 1) d).map UInt32.ofNat

/-- A number of eight bytes. -/
def quad? (d : Document) : Option UInt64 := (natural? (UInt64.size - 1) d).map UInt64.ofNat

/-- A text. -/
def text? : Document → Option String
  | .string s => s
  | _ => none

/-- A truth value. -/
def bool? : Document → Option Bool
  | .bool b => some b
  | _ => none

/-- A floating point number. -/
def single? : Document → Option Decimal.Single
  | .number l => l.single?
  | _ => none

/-- A value that may be `null`. -/
def nullable? {α : Type} (read : Document → Option α) : Document → Option (Option α)
  | .null => some none
  | d => (read d).map some

/-- One of several names: as a string, or as an object whose only member has that name and holds
`null`. -/
def choice? {α : Type} (choices : List (String × α)) : Document → Option α
  | .string (some s) => choices.lookup s
  | .object [(some s, .null)] => choices.lookup s
  | _ => none

/-! ## Fields that may be absent -/

/-- A field that must be there. -/
def required {α : Type} (read : Document → Option α) (field : Option Document) : Option α :=
  field.bind read

/-- A field that is nothing when it is absent or `null`. -/
def optional {α : Type} (read : Document → Option α) : Option Document → Option (Option α)
  | some d => nullable? read d
  | none => some none

/-- A field that has a default. -/
def withDefault {α : Type} (value : α) (read : Document → Option α) : Option Document → Option α
  | some d => read d
  | none => some value

end PinballBoard.Json
