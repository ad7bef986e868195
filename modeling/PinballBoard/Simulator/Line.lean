import PinballBoard.Link.Stream
import PinballBoard.Simulator.Board

/-!
# The line to a simulated board

Host and board are joined by two pipes, one for each direction, which hold a limited number of bytes
or any number. A writer waits while its pipe is full. Whoever leaves takes both ends on his side
along: the other one can still read what is in the pipe, then comes to its end, and cannot write any
more.

The board does whatever it can as soon as it can. It answers a frame completely before it looks at
the next byte, so it stops while its answer does not fit into the pipe.
-/

namespace PinballBoard

/-- A simulated board and the pipes between it and the host. -/
structure BoardLine where
  board : Board
  /-- What each pipe holds; `none` is any number of bytes. -/
  capacity : Option Nat := some 1024
  /-- Written by the host, and not yet read by the board. -/
  toBoard : Bytes := []
  /-- Written by the board, and not yet read by the host. -/
  toHost : Bytes := []
  /-- The part of an answer that the board has not been able to write yet. -/
  unsent : Bytes := []
  /-- The board has left. -/
  boardGone : Bool := false
  /-- The host has said that it will write no more. -/
  hostDone : Bool := false
  /-- The host has left. -/
  hostGone : Bool := false
deriving DecidableEq, Repr

namespace BoardLine

/-- How many of some bytes fit into a pipe that holds others. -/
def room (line : BoardLine) (held : Bytes) (bytes : Bytes) : Nat :=
  match line.capacity with
  | none => bytes.length
  | some capacity => min bytes.length (capacity - held.length)

/-- The board leaves. -/
def leave (line : BoardLine) : BoardLine :=
  { line with boardGone := true, toBoard := [], unsent := [] }

/-- The board writes what fits. It leaves if nobody is there to read it. -/
def transmit (line : BoardLine) : BoardLine :=
  if line.unsent = [] then line
  else if line.hostGone then line.leave
  else
    let count := line.room line.toHost line.unsent
    { line with
      toHost := line.toHost ++ line.unsent.take count
      unsent := line.unsent.drop count }

/-- The board reads bytes as far as it can. -/
def consume (line : BoardLine) : Bytes → BoardLine
  | [] => { line with toBoard := [] }
  | byte :: rest =>
    if line.boardGone || line.unsent != [] then { line with toBoard := byte :: rest }
    else
      match line.board.receive byte with
      | (board, some answer) => ({ line with board, unsent := answer }.transmit).consume rest
      | (board, none) => { line with board }.leave

/-- The board does all that it can. -/
def serve (line : BoardLine) : BoardLine :=
  let line := line.transmit
  let line := line.consume line.toBoard
  if (line.hostDone || line.hostGone) && line.toBoard == [] && line.unsent == [] then line.leave
  else line

/-- The host writes. -/
def write (line : BoardLine) (bytes : Bytes) : WriteStatus × BoardLine :=
  if line.boardGone then (.failed "broken pipe", line)
  else
    let count := line.room line.toBoard bytes
    if count = 0 then (.notReady, line)
    else (.accepted count, { line with toBoard := line.toBoard ++ bytes.take count }.serve)

/-- The host reads. -/
def read (line : BoardLine) (limit : Nat) : ReadStatus × BoardLine :=
  if line.toHost != [] then
    (.chunk (line.toHost.take limit), { line with toHost := line.toHost.drop limit }.serve)
  else if line.boardGone then (.ended, line)
  else (.notReady, line)

instance : ByteStream BoardLine where
  write := write
  read := read
  shutdown line := (.finished, { line with hostDone := true }.serve)
  hangUp line := { line with hostGone := true, toHost := [] }.serve

/-- The board is unplugged. -/
def unplug (line : BoardLine) : BoardLine := line.leave

end BoardLine

end PinballBoard
