import PinballBoard.Program.Arguments
import PinballBoard.Settings.Json
import PinballBoard.Text.Split

/-!
# What the program says in the end

A failure is told from the outside in: first what the program was about to do, then what went wrong,
then what lay behind that. A single cause is indented; several are numbered too, and the further
lines of a cause stand under its first one.
-/

namespace PinballBoard

/-- Why the program gave up. -/
structure Failure where
  top : String
  causes : List String := []
deriving DecidableEq, Repr

namespace Failure

/-- The failure that a fault of a device is. -/
def ofDevice (e : DeviceError) : Failure := ⟨e.message, e.causes⟩

/-- The same failure, and what the program was about to do. -/
def during (f : Failure) (activity : String) : Failure := ⟨activity, f.top :: f.causes⟩

/-- A fault that has come while the program was starting the board. -/
def starting (e : DeviceError) : Failure := (ofDevice e).during "starting LISY platform"

/-- Put some text between the lines of a text. -/
def joinLines (separator : String) (text : String) : String :=
  separator.intercalate (Text.parts '\n' text)

/-- Some causes, with their numbers. -/
def numbered (first : Nat) : List String → List String
  | [] => []
  | cause :: causes =>
    let number := toString first
    ("".pushn ' ' (5 - number.length) ++ number ++ ": " ++ joinLines "\n       " cause)
      :: numbered (first + 1) causes

/-- The failure in words. -/
def text (f : Failure) : String :=
  match f.causes with
  | [] => "Error: " ++ f.top
  | [cause] => "Error: " ++ f.top ++ "\n\nCaused by:\n    " ++ joinLines "\n    " cause
  | causes =>
    "Error: " ++ f.top ++ "\n\nCaused by:\n" ++ "\n".intercalate (numbered 0 causes)

end Failure

/-! ## Settings -/

/-- The settings of a file, whose text or whose fault of reading is given. -/
def Settings.ofFile (path : String) (content : Except String String) : Except Failure Settings :=
  ((content.mapError DeviceError.io).bind Settings.ofText).mapError fun e ↦
    (Failure.ofDevice e).during ("loading " ++ path)

/-- The settings with the values of the given options. A serial port or a host also tells how the
board is attached. -/
def Overrides.apply (o : Overrides) (s : Settings) : Settings :=
  let s := match o.serial with
    | some port => { s with attachment := .serial, port := some port }
    | none => s
  let s := { s with baud := o.baud.getD s.baud }
  let s := match o.host with
    | some host => { s with attachment := .network, networkHost := some host }
    | none => s
  { s with networkPort := o.networkPort.getD s.networkPort }

/-- The settings of a run and the endpoint that they describe. `content` is what reading the named
file has given. -/
def Overrides.settings (o : Overrides) (content : Except String String) :
    Except Failure (Settings × Endpoint) := do
  let s ← match o.config with
    | some path => Settings.ofFile path content
    | none => .ok .default
  let s := o.apply s
  let endpoint ← s.endpoint.mapError fun e ↦
    (Failure.ofDevice e).during "no LISY connection configured"
  .ok (s, endpoint)

/-- What is printed when somebody asks for the version. -/
def versionText : String := "lisy " ++ libraryVersion

/-- What is printed when somebody asks for help. -/
def usageText : String := "\n".intercalate [
  "Usage: lisy [OPTIONS] ORDER",
  "",
  "Orders:",
  "  monitor               print switch changes until interrupted",
  "  info                  print the hardware profile and the firmware versions",
  "  pulse SOLENOID MS     fire a solenoid",
  "  lamp NUMBER on|off    switch a lamp",
  "  display NUMBER TEXT   show a text on a display",
  "",
  "Options:",
  "  -c, --config PATH     settings file",
  "      --serial PORT     serial port of the board",
  "      --baud N          speed of the serial port",
  "      --host HOST       network host of the board",
  "      --network-port N  network port of the board",
  "      --log-level F     accepted and ignored",
  "  -h, --help            print this text",
  "  -V, --version         print the version"]

end PinballBoard
