import PinballBoard.Settings.Basic

/-!
# Settings in JSON

The document of the settings has seven members, all optional. Numbers are read exactly: one that is
negative, fractional or too great for its field makes the whole document invalid, and nothing is
ever cut off to fit.
-/

namespace PinballBoard

open Json

namespace Attachment

/-- The names of the attachments. -/
def names : List (String × Attachment) := [("serial", .serial), ("network", .network)]

instance : JsonForm Attachment where
  read? := choice? names
  write
    | .serial => writeString "serial"
    | .network => writeString "network"

end Attachment

namespace Settings

/-- The names of the fields, in declared order. -/
def fieldNames : List String :=
  ["connection", "port", "baud", "network_host", "network_port", "event_capacity",
    "poll_interval_ms"]

/-- Settings from the values of the fields. -/
def ofFields? : List (Option Document) → Option Settings
  | [attachment, port, baud, networkHost, networkPort, eventCapacity, pollIntervalMs] => do
    return {
      attachment := ← withDefault default.attachment JsonForm.read? attachment
      port := ← withDefault default.port (nullable? text?) port
      baud := ← withDefault default.baud long? baud
      networkHost := ← withDefault default.networkHost (nullable? text?) networkHost
      networkPort := ← withDefault default.networkPort word? networkPort
      eventCapacity := ← withDefault default.eventCapacity quad? eventCapacity
      pollIntervalMs := ← withDefault default.pollIntervalMs quad? pollIntervalMs }
  | _ => none

instance : JsonForm Settings where
  read? document := (fields? true fieldNames document).bind ofFields?
  write s := writeObject [
    ("connection", JsonForm.write s.attachment),
    ("port", writeOption writeString s.port),
    ("baud", writeNat s.baud.toNat),
    ("network_host", writeOption writeString s.networkHost),
    ("network_port", writeNat s.networkPort.toNat),
    ("event_capacity", writeNat s.eventCapacity.toNat),
    ("poll_interval_ms", writeNat s.pollIntervalMs.toNat)]

/-- The settings that a text holds. The details of what is wrong with a text are not kept. -/
def ofText (text : String) : Except DeviceError Settings :=
  match parse? Settings text with
  | some s => .ok s
  | none => .error (.configuration "invalid LISY config")

end Settings

end PinballBoard
