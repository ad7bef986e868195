import PinballBoard.Wire.Command

/-!
# The codec

Replies carry no mark of the question they answer, so at most one may be outstanding. The codec
remembers its shape and nothing else: encoding a command that is answered arms it, decoding the
reply disarms it, and while it is armed no further command is encoded.

Decoding looks at the bytes that have arrived and takes a reply off their front, if it is complete.
A string may be of any length as long as its terminator has arrived with it; only bytes without a
terminator are held against the limit. A fault leaves the codec and the bytes as they were.
-/

namespace PinballBoard

/-- The shape of the outstanding reply, if there is one. -/
structure Codec where
  pending : Option ReplyKind
deriving DecidableEq, Repr

/-- What is at the front of the received bytes. -/
inductive Decoded where
  /-- The reply is complete; these bytes follow it. -/
  | reply (reply : Reply) (rest : Bytes)
  /-- The reply is not complete. -/
  | incomplete
  /-- The bytes are no reply. -/
  | failed (error : ProtocolError)
deriving DecidableEq, Repr

/-- Split a string off the front of some bytes: what stands before the first terminator, and what
comes after it. -/
def splitString? : Bytes → Option (Bytes × Bytes)
  | [] => none
  | b :: bs =>
    if b = Code.terminator then some ([], bs)
    else (splitString? bs).map fun (data, rest) ↦ (b :: data, rest)

theorem splitString?_append {data : Bytes} (rest : Bytes) (h : Code.terminator ∉ data) :
    splitString? (data ++ Code.terminator :: rest) = some (data, rest) := by
  induction data with
  | nil => simp [splitString?]
  | cons b data ih =>
    rw [List.mem_cons, not_or] at h
    simp [splitString?, Ne.symm h.1, ih h.2]

/-- What comes off the front is followed by the first terminator. -/
theorem eq_append_of_splitString? {bytes data rest : Bytes}
    (h : splitString? bytes = some (data, rest)) :
    bytes = data ++ Code.terminator :: rest ∧ Code.terminator ∉ data := by
  induction bytes generalizing data with
  | nil => simp [splitString?] at h
  | cons b bytes ih =>
    rw [splitString?] at h
    split at h
    · obtain ⟨rfl, rfl⟩ : [] = data ∧ bytes = rest := by simpa using h
      simp_all
    · rename_i hb
      obtain ⟨⟨data', rest'⟩, htail, heq⟩ := Option.map_eq_some_iff.mp h
      obtain ⟨rfl, rfl⟩ : b :: data' = data ∧ rest' = rest := by simpa using heq
      obtain ⟨hbytes, hmem⟩ := ih htail
      exact ⟨by rw [hbytes, List.cons_append], by simp [hmem, Ne.symm hb]⟩

namespace Codec

/-- No reply is outstanding. -/
def idle : Codec := ⟨none⟩

/-- The frame of a command, and the codec that waits for its reply. -/
def encode (codec : Codec) (command : Command) : Except ProtocolError (Codec × Bytes) :=
  match codec.pending with
  | some kind =>
    .error (.unexpectedReply s!"{kind.text} reply to be read before {command}" "new command")
  | none => command.encode.map fun frame ↦ (⟨command.replyKind⟩, frame)

/-- The outstanding reply, if the received bytes begin with all of it. -/
def decode (codec : Codec) (received : Bytes) : Decoded :=
  match codec.pending with
  | none => if received = [] then .incomplete else .failed (.unsolicited received.length)
  | some .byte =>
    match received with
    | [] => .incomplete
    | value :: rest => .reply (.byte value) rest
  | some .string =>
    match splitString? received with
    | some (data, rest) => .reply (.string data) rest
    | none =>
      if Limit.stringReply < received.length then .failed (.stringTooLong Limit.stringReply)
      else .incomplete

/-- What left-over bytes are called when the stream ends among them. -/
def remainingBytes : ProtocolError := .io "bytes remaining on stream"

/-- The outstanding reply when nothing more will arrive: bytes that complete no reply are a
fault. -/
def decodeAtEnd (codec : Codec) (received : Bytes) : Decoded :=
  match codec.decode received with
  | .incomplete => if received = [] then .incomplete else .failed remainingBytes
  | other => other

end Codec

end PinballBoard
