import PinballBoard.Board.Profile
import PinballBoard.Board.PulseTime
import PinballBoard.Decimal.Shortest
import PinballBoard.Json.Form
import PinballBoard.Platform.Device

/-!
# Devices and boards in JSON

The JSON forms of what describes a machine. A switch is its number and must be an address; a pulse
time is its milliseconds. The other records are objects with the members that are listed in their
`fieldNames`.
-/

namespace PinballBoard

open Json

/-! ## Boards -/

instance : JsonForm Switch where
  read? document := (byte? document).bind fun n ↦ (Switch.ofNumber n).toOption
  write s := writeNat s.number.toNat

instance : JsonForm PulseTime where
  read? document := (word? document).map PulseTime.mk
  write t := writeNat t.ms.toNat

/-- The names of the families. -/
def Family.names : List (String × Family) := [("System1", .system1), ("System80", .system80)]

instance : JsonForm Family where
  read? := choice? Family.names
  write
    | .system1 => writeString "System1"
    | .system80 => writeString "System80"

/-- The names of the fields, in declared order. -/
def Profile.fieldNames : List String :=
  ["system_type", "lamp_count", "solenoid_count", "display_count"]

instance : JsonForm Profile where
  read? document := do
    match ← fields? false Profile.fieldNames document with
    | [family, lamps, coils, displays] =>
      return {
        family := ← required JsonForm.read? family
        lamps := ← required byte? lamps
        coils := ← required byte? coils
        displays := ← required byte? displays }
    | _ => none
  write p := writeObject [
    ("system_type", JsonForm.write p.family),
    ("lamp_count", writeNat p.lamps.toNat),
    ("solenoid_count", writeNat p.coils.toNat),
    ("display_count", writeNat p.displays.toNat)]

/-! ## Devices -/

/-- A number of four bytes; what is not finite is written as nothing. -/
def writeSingle (x : Decimal.Single) : List Char := (x.text?.getD "null").toList

instance : JsonForm PulseSettings where
  read? document := do
    match ← fields? false ["power", "duration"] document with
    | [power, duration] =>
      return { power := ← required single? power, duration := ← required long? duration }
    | _ => none
  write p := writeObject [("power", writeSingle p.power), ("duration", writeNat p.duration.toNat)]

instance : JsonForm HoldSettings where
  read? document := do
    match ← fields? false ["power"] document with
    | [power] => return { power := ← required single? power }
    | _ => none
  write h := writeObject [("power", writeSingle h.power)]

instance : JsonForm SwitchConfig where
  read? document := do
    match ← fields? false ["name", "invert", "debounce"] document with
    | [name, invert, debounce] =>
      return {
        name := ← required text? name
        invert := ← required bool? invert
        debounce := ← required bool? debounce }
    | _ => none
  write c := writeObject [
    ("name", writeString c.name), ("invert", writeBool c.invert),
    ("debounce", writeBool c.debounce)]

instance : JsonForm CoilConfig where
  read? document := do
    match ← fields? false ["name", "default_pulse_ms"] document with
    | [name, defaultPulseMs] =>
      return {
        name := ← required text? name
        defaultPulseMs := ← optional long? defaultPulseMs }
    | _ => none
  write c := writeObject [
    ("name", writeString c.name),
    ("default_pulse_ms", writeOption (fun ms ↦ writeNat ms.toNat) c.defaultPulseMs)]

instance : JsonForm LightChannel where
  read? document := do
    match ← fields? false ["number"] document with
    | [number] => return { number := ← required text? number }
    | _ => none
  write c := writeObject [("number", writeString c.number)]

instance : JsonForm FirmwareInfo where
  read? document := do
    match ← fields? false ["lisy_version", "api_version"] document with
    | [firmwareVersion, apiVersion] =>
      return {
        firmwareVersion := ← required text? firmwareVersion
        apiVersion := ← required text? apiVersion }
    | _ => none
  write f := writeObject [
    ("lisy_version", writeString f.firmwareVersion), ("api_version", writeString f.apiVersion)]

end PinballBoard
