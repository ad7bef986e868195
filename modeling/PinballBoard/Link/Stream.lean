import PinballBoard.Link.Connection

/-!
# Streams

A stream is asked for one thing at a time and answers at once: it has done it, it has failed, or it
is not ready. `Connection.next?` asks it for what the connection waits for and turns the answer into
an action. So a connection over a stream does what it can until `next?` has nothing more to offer,
and time has to pass or a task has to move first.
-/

namespace PinballBoard

/-- What a stream answers to bytes that it is given. -/
inductive WriteStatus where
  /-- It has taken this many of them. -/
  | accepted (count : Nat)
  | notReady
  | failed (detail : String)
deriving DecidableEq, Repr

/-- What a stream answers when it is told to pass on what it has taken. -/
inductive FlushStatus where
  | finished
  | notReady
  | failed (detail : String)
deriving DecidableEq, Repr

/-- What a stream answers when it is asked for bytes. -/
inductive ReadStatus where
  | chunk (bytes : Bytes)
  /-- There will be no more. -/
  | ended
  | notReady
  | failed (detail : String)
deriving DecidableEq, Repr

/-- What a stream answers when it is told to shut down. -/
inductive ShutdownStatus where
  | finished
  | notReady
deriving DecidableEq, Repr

/-- A type of streams. -/
class ByteStream (σ : Type) where
  write : σ → Bytes → WriteStatus × σ
  /-- Pass on what has been taken; a stream that holds nothing back has nothing to do. -/
  flush : σ → FlushStatus × σ := fun stream ↦ (.finished, stream)
  /-- Bring bytes, at most this many. -/
  read : σ → Nat → ReadStatus × σ
  shutdown : σ → ShutdownStatus × σ
  /-- The host drops its end. -/
  hangUp : σ → σ

namespace Connection

variable {σ : Type} [ByteStream σ]

/-- What the stream does for a task that ends it. -/
def closing? (closer : Closer) (stream : σ) : Option (Action × σ) :=
  match closer.stage with
  | .flushing =>
    if closer.link.outgoing = [] then
      match ByteStream.flush stream with
      | (.finished, stream) => some (.closerFlush closer.ticket, stream)
      | (.failed _, stream) => some (.closerWriteFails closer.ticket, stream)
      | (.notReady, _) => none
    else
      match ByteStream.write stream closer.link.outgoing with
      | (.accepted count, stream) => some (.closerAccept closer.ticket count, stream)
      | (.failed _, stream) => some (.closerWriteFails closer.ticket, stream)
      | (.notReady, _) => none
  | .shuttingDown =>
    match ByteStream.shutdown stream with
    | (.finished, stream) => some (.shutdownEnds closer.ticket, stream)
    | (.notReady, _) => none

/-- What the stream does for the task at the head. -/
def serving? (c : Connection) (stream : σ) : Option (Action × σ) :=
  match c.line with
  | [] => none
  | caller :: _ =>
    if caller.stage = .waiting then some (.proceed, stream)
    else if let some (_, l) := c.writer? then
      if l.outgoing = [] then
        match ByteStream.flush stream with
        | (.finished, stream) => some (.flush, stream)
        | (.failed detail, stream) => some (.writeFails detail, stream)
        | (.notReady, _) => none
      else
        match ByteStream.write stream l.outgoing with
        | (.accepted count, stream) => some (.accept count, stream)
        | (.failed detail, stream) => some (.writeFails detail, stream)
        | (.notReady, _) => none
    else if let some (_, l) := c.reader? then
      match ByteStream.read stream l.readLimit with
      | (.chunk bytes, stream) => some (.receive bytes, stream)
      | (.ended, stream) => some (.ends, stream)
      | (.failed detail, stream) => some (.readFails detail, stream)
      | (.notReady, _) => none
    else none

/-- The next action that needs no time and no other task, and the stream after it. -/
def next? (c : Connection) (stream : σ) : Option (Action × σ) :=
  (c.closer.bind fun closer ↦ closing? closer stream) <|> c.serving? stream

end Connection

end PinballBoard
