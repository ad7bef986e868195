import PinballBoard.Link.Stream

/-!
# Mailboxes

A stream whose bytes somebody else carries. The connection puts what it writes into the outbox and
reads what it finds in the inbox, and is never in the way of whoever empties the one and fills the
other. Orders to shut down and to hang up are left as marks.
-/

namespace PinballBoard

/-- How the bytes that arrive come to an end. -/
inductive InboxEnd where
  | ended
  | failed (detail : String)
deriving DecidableEq, Repr

/-- A stream whose bytes somebody else carries. -/
structure Mailbox where
  /-- Written by the connection, and not yet carried away. -/
  outbox : Bytes := []
  /-- Arrived, and not yet read by the connection. -/
  inbox : Bytes := []
  /-- What comes after the inbox, if anything has. -/
  inboxEnd : Option InboxEnd := none
  /-- Why nothing can be carried away any more. -/
  outboxFault : Option String := none
  /-- The connection has written its last byte. -/
  isDone : Bool := false
  /-- The connection has gone. -/
  isGone : Bool := false
deriving DecidableEq, Repr

namespace Mailbox

/-- The connection writes. -/
def write (m : Mailbox) (bytes : Bytes) : WriteStatus × Mailbox :=
  match m.outboxFault with
  | some detail => (.failed detail, m)
  | none => (.accepted bytes.length, { m with outbox := m.outbox ++ bytes })

/-- The connection reads. -/
def read (m : Mailbox) (limit : Nat) : ReadStatus × Mailbox :=
  match m.inbox, m.inboxEnd with
  | [], none => (.notReady, m)
  | [], some .ended => (.ended, m)
  | [], some (.failed detail) => (.failed detail, m)
  | bytes, _ => (.chunk (bytes.take limit), { m with inbox := bytes.drop limit })

instance : ByteStream Mailbox where
  write := write
  read := read
  shutdown m := (.finished, { m with isDone := true })
  hangUp m := { m with isGone := true }

/-- Some bytes arrive. -/
def arrive (m : Mailbox) (bytes : Bytes) : Mailbox := { m with inbox := m.inbox ++ bytes }

/-- No more bytes will arrive. -/
def close (m : Mailbox) (why : InboxEnd) : Mailbox := { m with inboxEnd := some why }

/-- What was in the outbox has been carried away. -/
def emptied (m : Mailbox) : Mailbox := { m with outbox := [] }

/-- What was in the outbox could not be carried away. -/
def stuck (m : Mailbox) (detail : String) : Mailbox :=
  { m with outbox := [], outboxFault := some detail }

end Mailbox

end PinballBoard
