import PinballBoard.Link.Stream

/-!
# Scripted streams

A stream whose every answer is laid down in advance. What it brings is a list of items, each used
by one read, except that an end or a failure stays for ever and a chunk that is longer than a read
may bring leaves its rest to the next one. What it does with bytes and with the
order to shut down is a mode each, and the modes may be changed at any time.
-/

namespace PinballBoard

/-- What a read of a scripted stream finds. -/
inductive ScriptItem where
  | chunk (bytes : Bytes)
  | ended
  | failed
deriving DecidableEq, Repr

/-- What a scripted stream does with bytes. -/
inductive WriteMode where
  /-- It takes all of them. -/
  | open
  /-- It takes none and is not ready. -/
  | blocked
  /-- It fails. -/
  | failing
  /-- It takes none and says so. -/
  | refusing
deriving DecidableEq, Repr

/-- What a scripted stream does when it is told to shut down. -/
inductive ShutdownMode where
  | finishing
  | blocked
deriving DecidableEq, Repr

/-- A stream that acts by a script. -/
structure ScriptedStream where
  /-- What is still to be read. -/
  items : List ScriptItem := []
  writes : WriteMode := .open
  /-- How many more bytes are taken before the mode of writing comes to bear. -/
  allowance : Nat := 0
  shutdowns : ShutdownMode := .finishing
deriving DecidableEq, Repr

namespace ScriptedStream

/-- Put an item behind those that are still to be read. -/
def queue (s : ScriptedStream) (item : ScriptItem) : ScriptedStream :=
  { s with items := s.items ++ [item] }

/-- Put some bytes behind what is still to be read. No bytes are no item. -/
def feed (s : ScriptedStream) (bytes : Bytes) : ScriptedStream :=
  if bytes = [] then s else s.queue (.chunk bytes)

/-- A stream that brings some chunks and takes everything. -/
def ofChunks (chunks : List Bytes) : ScriptedStream := chunks.foldl feed {}

/-- The stream is given bytes. -/
def write (s : ScriptedStream) (bytes : Bytes) : WriteStatus × ScriptedStream :=
  match s.writes with
  | .open => (.accepted bytes.length, s)
  | mode =>
    if s.allowance = 0 then
      match mode with
      | .failing => (.failed "scripted write error", s)
      | .refusing => (.accepted 0, s)
      | .open | .blocked => (.notReady, s)
    else
      let count := min bytes.length s.allowance
      (.accepted count, { s with allowance := s.allowance - count })

/-- The stream is asked for bytes. -/
def read (s : ScriptedStream) (limit : Nat) : ReadStatus × ScriptedStream :=
  match s.items with
  | [] => (.notReady, s)
  | .chunk bytes :: items =>
    let items := if bytes.length ≤ limit then items else .chunk (bytes.drop limit) :: items
    (.chunk (bytes.take limit), { s with items })
  | .ended :: _ => (.ended, s)
  | .failed :: _ => (.failed "scripted read error", s)

/-- The stream is told to shut down. -/
def shutdown (s : ScriptedStream) : ShutdownStatus × ScriptedStream :=
  match s.shutdowns with
  | .finishing => (.finished, s)
  | .blocked => (.notReady, s)

instance : ByteStream ScriptedStream where
  write := write
  read := read
  shutdown := shutdown
  hangUp := id

end ScriptedStream

end PinballBoard
