import PinballBoard.Program.Order

/-!
# The command line

A command line is some options, the name of an order and what the order needs:

```text
lisy [--config PATH] [--serial PORT | --host HOST] [--baud N] [--network-port N] [--log-level F]
     monitor | info | pulse COIL MS | lamp LAMP on|off | display DISPLAY TEXT
```

The value of an option is the next word, or stands behind an equals sign; `-c` may also have it
right behind the letter. A word that begins with a dash is a value only behind an equals sign or,
for an order, after `--`. The words are read one by one, and whoever asks for help before the first
fault gets help. The value of an option is looked at when the next option or the end is reached, so
a request for help behind the name of an order comes before a fault of the last option in front of
it.
-/

namespace PinballBoard

/-- An option that takes a value. -/
inductive OptionKey where
  | config
  | serial
  | baud
  | host
  | networkPort
  | logLevel
deriving DecidableEq, Repr

/-- The option with a long name. -/
def OptionKey.ofName? : String → Option OptionKey
  | "config" => some config
  | "serial" => some serial
  | "baud" => some baud
  | "host" => some host
  | "network-port" => some networkPort
  | "log-level" => some logLevel
  | _ => none

/-- A fault of a command line. -/
inductive UsageError where
  | unknownOption (word : String)
  | unexpectedWord (word : String)
  | unexpectedValue (option : String)
  | missingValue (option : OptionKey)
  | invalidValue (text : String)
  | repeatedOption (option : OptionKey)
  | missingOrder
  | unknownOrder (word : String)
  | missingArgument (name : String)
  /-- A serial port and a host are both given. -/
  | conflictingEndpoints
deriving DecidableEq, Repr

/-! ## Options -/

/-- The values of the options that are given. -/
structure Overrides where
  config : Option String := none
  serial : Option String := none
  baud : Option UInt32 := none
  host : Option String := none
  networkPort : Option UInt16 := none
  logLevel : Option String := none
deriving DecidableEq, Repr

/-- The number below a limit that a text denotes. A sign may stand in front, and minus zero is
zero. -/
def numberBelow? (limit : Nat) (text : String) : Option Nat :=
  match text.toList with
  | '-' :: digits => (Text.natural? digits).bind fun n ↦ if n = 0 ∧ 0 < limit then some 0 else none
  | cs => (Text.signedNatural? cs).bind fun n ↦ if n < limit then some n else none

namespace Overrides

/-- Give an option that is not given yet a value. -/
def put {α : Type} (key : OptionKey) (old : Option α) (value : Option α) (text : String)
    (set : Option α → Overrides) : Except UsageError Overrides :=
  match old, value with
  | some _, _ => .error (.repeatedOption key)
  | none, some value => .ok (set (some value))
  | none, none => .error (.invalidValue text)

/-- Give an option a value. A path must not be empty. -/
def set (o : Overrides) (key : OptionKey) (text : String) : Except UsageError Overrides :=
  match key with
  | .config =>
    put key o.config (if text = "" then none else some text) text fun v ↦ { o with config := v }
  | .serial => put key o.serial (some text) text fun v ↦ { o with serial := v }
  | .baud =>
    put key o.baud ((numberBelow? UInt32.size text).map UInt32.ofNat) text fun v ↦
      { o with baud := v }
  | .host => put key o.host (some text) text fun v ↦ { o with host := v }
  | .networkPort =>
    put key o.networkPort ((numberBelow? UInt16.size text).map UInt16.ofNat) text fun v ↦
      { o with networkPort := v }
  | .logLevel => put key o.logLevel (some text) text fun v ↦ { o with logLevel := v }

/-- A serial port and a host exclude each other. -/
def check (o : Overrides) : Except UsageError Unit :=
  if o.serial.isSome ∧ o.host.isSome then .error .conflictingEndpoints else .ok ()

end Overrides

/-- The option that has been read last. -/
inductive Waiting where
  | nothing
  /-- Its value is still to come. -/
  | value (key : OptionKey)
  /-- Its value has come and has not been looked at. -/
  | given (key : OptionKey) (text : String)
deriving DecidableEq, Repr

/-- Look at the value of the option that has been read last. -/
def Overrides.settle (o : Overrides) : Waiting → Except UsageError Overrides
  | .nothing => .ok o
  | .value key => .error (.missingValue key)
  | .given key text => o.set key text

/-! ## Words -/

/-- The shape of a word. -/
inductive WordShape where
  /-- Two dashes and nothing else. -/
  | escape
  /-- Two dashes and a name, perhaps with an equals sign and a value. -/
  | long (name : String) (value : Option String)
  /-- One dash, a letter, and what follows it. -/
  | short (letter : Char) (rest : List Char)
  | plain
deriving DecidableEq, Repr

/-- The shape of a word. A lonely dash is plain. -/
def WordShape.of (word : String) : WordShape :=
  match word.toList with
  | ['-', '-'] => escape
  | '-' :: '-' :: cs =>
    long (String.ofList (cs.takeWhile (· != '=')))
      (match cs.dropWhile (· != '=') with
        | _ :: value => some (String.ofList value)
        | [] => none)
  | '-' :: c :: cs => short c cs
  | _ => plain

/-! ## Orders -/

/-- An order of which some arguments may still be missing. -/
inductive Draft where
  | complete (order : Order)
  | needs (name : String) (take : String → Except UsageError Draft)

namespace Draft

/-- A length in milliseconds. -/
def milliseconds (text : String) : Except UsageError UInt32 :=
  match numberBelow? UInt32.size text with
  | some n => .ok (UInt32.ofNat n)
  | none => .error (.invalidValue text)

/-- On or off. -/
def onOrOff : String → Except UsageError Bool
  | "on" => .ok true
  | "off" => .ok false
  | text => .error (.invalidValue text)

/-- The order with a name. -/
def ofName? : String → Option Draft
  | "monitor" => some (complete .monitor)
  | "info" => some (complete .info)
  | "pulse" =>
    some (needs "solenoid" fun coil ↦ .ok (needs "ms" fun text ↦
      (milliseconds text).map fun ms ↦ complete (.pulse coil ms)))
  | "lamp" =>
    some (needs "number" fun lamp ↦ .ok (needs "state" fun text ↦
      (onOrOff text).map fun on ↦ complete (.lamp lamp on)))
  | "display" =>
    some (needs "number" fun display ↦ .ok (needs "text" fun text ↦
      .ok (complete (.display display text))))
  | _ => none

/-- Give the order its next argument. -/
def supply (word : String) : Draft → Except UsageError Draft
  | complete _ => .error (.unexpectedWord word)
  | needs _ take => take word

/-- The order, if nothing is missing. -/
def finish : Draft → Except UsageError Order
  | complete order => .ok order
  | needs name _ => .error (.missingArgument name)

/-- Read the arguments of an order; `none` is a request for help. After `--` every word is an
argument. -/
def read (draft : Draft) (literal : Bool) : List String → Except UsageError (Option Order)
  | [] => draft.finish.map some
  | word :: words =>
    if literal then (draft.supply word).bind fun draft ↦ draft.read true words
    else
      match WordShape.of word with
      | .escape => draft.read true words
      | .plain => (draft.supply word).bind fun draft ↦ draft.read false words
      | .long "help" none | .short 'h' _ => .ok none
      | .long "help" (some _) => .error (.unexpectedValue "help")
      | .long _ _ | .short _ _ => .error (.unknownOption word)

end Draft

/-! ## Whole command lines -/

/-- What a command line asks for. -/
inductive Invocation where
  | run (overrides : Overrides) (order : Order)
  | help
  | version
deriving DecidableEq, Repr

namespace Invocation

/-- Ask for help about the orders with these names, one inside the other. -/
def helpOn : List String → Except UsageError Invocation
  | [] => .ok help
  | [word] =>
    if word = "help" ∨ (Draft.ofName? word).isSome then .ok help else .error (.unknownOrder word)
  | _ :: word :: _ => .error (.unknownOrder word)

/-- Read the rest of a command line behind some options. -/
def read (o : Overrides) (last : Waiting) : List String → Except UsageError Invocation
  | [] => (o.settle last).bind fun _ ↦ .error .missingOrder
  | word :: words =>
    match WordShape.of word, last with
    | .plain, .value key => read o (.given key word) words
    | .plain, _ =>
      if word = "help" then helpOn words
      else
        match Draft.ofName? word with
        | none => .error (.unknownOrder word)
        | some draft => do
          match ← draft.read false words with
          | none => .ok help
          | some order =>
            let o ← o.settle last
            o.check
            .ok (run o order)
    | .escape, _ => .error .missingOrder
    | .long name value, _ =>
      match name, value with
      | "help", none => (o.settle last).map fun _ ↦ help
      | "version", none => (o.settle last).map fun _ ↦ version
      | "help", some _ | "version", some _ => .error (.unexpectedValue name)
      | _, value =>
        match OptionKey.ofName? name with
        | none => .error (.unknownOption word)
        | some key =>
          match o.settle last with
          | .error e => .error e
          | .ok o =>
            match value with
            | none => read o (.value key) words
            | some text =>
              match o.set key text with
              | .error e => .error e
              | .ok o => read o .nothing words
    | .short letter rest, _ =>
      match letter with
      | 'h' => (o.settle last).map fun _ ↦ help
      | 'V' => (o.settle last).map fun _ ↦ version
      | 'c' =>
        match o.settle last with
        | .error e => .error e
        | .ok o =>
          match rest with
          | [] => read o (.value .config) words
          | '=' :: text | text =>
            match o.set .config (String.ofList text) with
            | .error e => .error e
            | .ok o => read o .nothing words
      | _ => .error (.unknownOption word)

/-- What the words of a command line, without the name of the program, ask for. -/
def ofWords (words : List String) : Except UsageError Invocation := read {} .nothing words

end Invocation

end PinballBoard
