import PinballBoard.Wire.Code
import PinballBoard.Wire.Error

/-!
# Pulse times

How long a coil is fired, in milliseconds. The wire has two bytes for it, high byte first, so a
longer time is refused rather than cut off.
-/

namespace PinballBoard

/-- A duration that fits the wire. -/
structure PulseTime where
  ms : UInt16
deriving DecidableEq, Repr

namespace PulseTime

/-- The pulse time of a duration, if it fits two bytes. -/
def ofMs (ms : UInt32) : Except ProtocolError PulseTime :=
  if ms.toNat < 65536 then .ok ⟨ms.toUInt16⟩
  else .error (.invalidPulseTime s!"{ms.toNat}ms exceeds 65535ms")

/-- The two bytes on the wire. -/
def bytes (t : PulseTime) : Bytes := [(t.ms >>> 8).toUInt8, t.ms.toUInt8]

theorem bytes_eq (t : PulseTime) :
    t.bytes = [UInt8.ofNat (t.ms.toNat / 256), UInt8.ofNat (t.ms.toNat % 256)] := by
  simp only [bytes, List.cons.injEq, and_true, ← UInt8.toNat_inj]
  simp [Nat.shiftRight_eq_div_pow]

/-- The pulse time of two bytes from the wire. -/
def ofBytes (high low : UInt8) : PulseTime := ⟨high.toUInt16 <<< 8 ||| low.toUInt16⟩

/-- The time with its unit. -/
def text (t : PulseTime) : String := s!"{t.ms.toNat}ms"

instance : ToString PulseTime := ⟨text⟩

end PulseTime

end PinballBoard
