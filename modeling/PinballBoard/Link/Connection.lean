import PinballBoard.Link.Buffered
import PinballBoard.Link.Error

/-!
# Connections

Several tasks share one stream to the board. Replies carry no mark of the command they answer, so a
task that asks something keeps the stream to itself from the first byte of its frame to the last
byte of its reply. The tasks stand in line: the one at the head holds the lock, the others wait in
the order in which they came.

## Steps

A connection changes by `step`, one action at a time. An action is what a task does, or what the
stream does for the task at the head, or the passing of time; an action that does not apply changes
nothing. Any order of actions is a run, so a statement about all runs is a statement about all ways
in which tasks, stream and clock can interleave. Whoever runs a connection picks an order.

What can be noted of a step are its events: a task gets the lock, the codec accepts a command, the
stream takes bytes, a call ends, the stream ends. Histories are collected from events and are no
part of the state.

A stream that has taken bytes may still hold them back. So a task that writes is done only when the
stream has passed on what it has taken, and up to then it can fail or be given up.

## When the stream is given up

A stream that has failed is dropped, and so is one on which a reply may still arrive that nobody
waits for: a request that is cancelled between the lock and its reply takes the stream with it. A
cancelled send does not; what is left of its frame stays in front of the next one. A fault of the
codec keeps the stream too.

`abort` drops the stream at once if nobody holds the lock. Otherwise it leaves a mark, and the next
task that gets the lock drops the stream before it does anything else. `close` takes the stream out
of the connection, releases the lock and ends the stream in its own time.
-/

namespace PinballBoard

/-! ## Calls -/

/-- The number of a call, by which its end is told. -/
abbrev Ticket := Nat

/-- What a task can ask of a connection. -/
inductive Call where
  /-- Send a command that is not answered. -/
  | send (command : Command)
  /-- Send a command and wait for its reply. -/
  | request (command : Command)
  /-- Ask whether the stream is open. -/
  | probe
  /-- End the stream. -/
  | close
deriving DecidableEq, Repr

/-- How a call ends, unless it is cancelled. -/
inductive Outcome where
  | done
  | reply (reply : Reply)
  | isOpen (value : Bool)
  | failed (error : LinkError)
deriving DecidableEq, Repr

/-- The reason for which a call is not even put in line: it would read a reply that does not come,
or leave one unread. -/
def Call.refusal : Call → Option LinkError
  | send command =>
    if command.replyKind.isSome then some (.replyExpected command.describe) else none
  | request command =>
    if command.replyKind.isNone then some (.noReplyExpected command.describe) else none
  | probe | close => none

/-- How far a task in line has got. -/
inductive Stage where
  /-- It waits for the lock, or has it and has not run yet. -/
  | waiting
  /-- It holds the lock and writes what others have left, and waits for the stream to pass it on,
  before its own frame is encoded. -/
  | draining
  /-- It holds the lock and writes its frame, and waits for the stream to pass it on. -/
  | writing
  /-- It holds the lock and waits for its reply. -/
  | reading
deriving DecidableEq, Repr

/-- A task in line. -/
structure Caller where
  ticket : Ticket
  call : Call
  stage : Stage
deriving DecidableEq, Repr

/-- Whether a task would leave a reply behind if it went away now. -/
def Caller.owesReply (caller : Caller) : Bool :=
  match caller.call with
  | .request _ => caller.stage != .waiting
  | _ => false

/-- How far the end of a stream has got. -/
inductive ClosingStage where
  | flushing
  | shuttingDown
deriving DecidableEq, Repr

/-- A task that has taken the stream out of the connection in order to end it. -/
structure Closer where
  ticket : Ticket
  link : Link
  stage : ClosingStage
  /-- The milliseconds that this stage may still take. -/
  patience : Nat
deriving DecidableEq, Repr

/-- The milliseconds that each stage of closing may take. -/
def closingPatience : Nat := 500

/-- The number of waiting bytes from which on older bytes are written before a frame is encoded. -/
def backlogLimit : Nat := 8192

/-! ## States, actions and events -/

/-- A connection to a board. -/
structure Connection where
  /-- What messages call the other side. -/
  peer : String
  /-- The stream, until it is closed or has failed. -/
  link : Option Link
  /-- The next task that gets the lock drops the stream. -/
  aborted : Bool
  /-- The tasks in line; the head holds the lock. -/
  line : List Caller
  /-- The task that ends the stream outside the line. There is one stream, so there is no second
  one. -/
  closer : Option Closer
deriving DecidableEq, Repr

/-- What can happen to a connection. -/
inductive Action where
  /-- A task makes a call. -/
  | enter (ticket : Ticket) (call : Call)
  /-- The task that has got the lock runs. -/
  | proceed
  /-- The stream takes this many bytes of the task at the head. -/
  | accept (count : Nat)
  /-- The stream has passed on all that it has taken of the task at the head. -/
  | flush
  /-- The stream fails to take bytes or to pass them on. -/
  | writeFails (detail : String)
  /-- The stream brings bytes. -/
  | receive (chunk : Bytes)
  /-- The stream has come to its end. -/
  | ends
  /-- The stream fails to bring bytes. -/
  | readFails (detail : String)
  /-- A task gives its call up. -/
  | cancel (ticket : Ticket)
  /-- Somebody gives the whole connection up. -/
  | abort
  /-- The stream takes this many bytes of a task that ends it. -/
  | closerAccept (ticket : Ticket) (count : Nat)
  /-- The stream has passed on all that it has taken of a task that ends it. -/
  | closerFlush (ticket : Ticket)
  /-- The stream fails to take bytes of a task that ends it or to pass them on. -/
  | closerWriteFails (ticket : Ticket)
  /-- The stream has been shut down, well or badly. -/
  | shutdownEnds (ticket : Ticket)
  /-- Time passes. -/
  | elapse (ms : Nat)
deriving DecidableEq, Repr

/-- What can be noted of a step. -/
inductive Event where
  /-- A task has got the lock and runs. -/
  | locked (ticket : Ticket)
  /-- The codec has accepted the command of a call. -/
  | encoded (ticket : Ticket) (command : Command)
  /-- The stream has taken these bytes. -/
  | accepted (bytes : Bytes)
  /-- A call has ended. -/
  | settled (ticket : Ticket) (outcome : Outcome)
  /-- The stream is told to shut down. -/
  | shutdown
  /-- The stream is gone. -/
  | dropped
deriving DecidableEq, Repr

/-- What is left to be written is given up or done, and the stream is told to shut down. -/
def Closer.shutDown (closer : Closer) : Option Closer × List Event :=
  (some { closer with stage := .shuttingDown, patience := closingPatience }, [.shutdown])

/-- Time passes for a task that ends the stream; what takes too long is given up. -/
def Closer.elapse (ms : Nat) (closer : Closer) : Option Closer × List Event :=
  if ms < closer.patience then (some { closer with patience := closer.patience - ms }, [])
  else
    match closer.stage with
    | .flushing => Closer.shutDown closer
    | .shuttingDown => (none, [])

namespace Connection

/-- A connection over a stream that has just been opened. -/
def fresh (peer : String) : Connection := ⟨peer, some .fresh, false, [], none⟩

/-- The connection in words. -/
def describe (c : Connection) : String :=
  "Connection \x7b peer: " ++ Text.quote c.peer ++ ", .. \x7d"

/-- Whether nobody holds the lock. -/
def isFree (c : Connection) : Bool := c.line.isEmpty

/-! ## Steps of a task -/

/-- Drop the stream, if there is one. -/
def dropLink (c : Connection) : Connection × List Event :=
  match c.link with
  | some _ => ({ c with link := none }, [.dropped])
  | none => (c, [])

/-- The task at the head ends its call and leaves the line. -/
def leave (c : Connection) (outcome : Outcome) : Connection × List Event :=
  match c.line with
  | caller :: rest => ({ c with line := rest }, [.settled caller.ticket outcome])
  | [] => (c, [])

/-- The task at the head ends its call because the stream has failed. -/
def fail (c : Connection) (error : LinkError) : Connection × List Event :=
  ((c.dropLink.1.leave (.failed error)).1, c.dropLink.2 ++ (c.dropLink.1.leave (.failed error)).2)

/-- The task at the head gets to another stage. -/
def setStage (c : Connection) (stage : Stage) : Connection :=
  match c.line with
  | caller :: rest => { c with line := { caller with stage := stage } :: rest }
  | [] => c

/-- The task at the head encodes its command, or ends its call because the codec refuses it. -/
def submit (c : Connection) (l : Link) (caller : Caller) (command : Command) :
    Connection × List Event :=
  match l.submit command with
  | .ok l => ({ c with link := some l }.setStage .writing, [.encoded caller.ticket command])
  | .error e => c.leave (.failed (.protocol e))

/-- The task at the head ends its call if the received bytes hold its reply. -/
def deliver (c : Connection) (l : Link) : Connection × List Event :=
  match l.codec.decode l.incoming with
  | .reply reply rest => { c with link := some (l.answered rest) }.leave (.reply reply)
  | .incomplete => (c, [])
  | .failed e => c.leave (.failed (.ofProtocol e))

/-- Everything that the task at the head had to write has been taken and passed on. -/
def flushed (c : Connection) (l : Link) (caller : Caller) : Connection × List Event :=
  match caller.stage, caller.call with
  | .draining, .send command | .draining, .request command => c.submit l caller command
  | .writing, .send _ => c.leave .done
  | .writing, .request _ => (c.setStage .reading).deliver l
  | _, _ => (c, [])

/-- A task takes the stream out of the connection in order to end it. -/
def beginClose (c : Connection) (ticket : Ticket) (l : Link) : Connection :=
  { c with link := none, closer := some ⟨ticket, l, .flushing, closingPatience⟩ }

/-- The task at the head, which has just got the lock, runs on an un-aborted connection. -/
def serve (c : Connection) (caller : Caller) : Connection × List Event :=
  match caller.call, c.link with
  | .probe, link => c.leave (.isOpen link.isSome)
  | .close, none => c.leave .done
  | .close, some l => ({ c with line := c.line.tail }.beginClose caller.ticket l, [])
  | .send _, none | .request _, none => c.leave (.failed .notConnected)
  | .send command, some l | .request command, some l =>
    if backlogLimit ≤ l.outgoing.length then (c.setStage .draining, [])
    else c.submit l caller command

/-! ## Actions -/

/-- A task makes a call. -/
def enter (c : Connection) (ticket : Ticket) (call : Call) : Connection × List Event :=
  match call.refusal with
  | some e => (c, [.settled ticket (.failed e)])
  | none => ({ c with line := c.line ++ [⟨ticket, call, .waiting⟩] }, [])

/-- Drop the stream if the connection has been given up. -/
def heedAbort (c : Connection) : Connection × List Event :=
  if c.aborted then c.dropLink else (c, [])

/-- The task that has got the lock runs. -/
def proceed (c : Connection) : Connection × List Event :=
  match c.line with
  | caller :: _ =>
    if caller.stage = .waiting then
      ((c.heedAbort.1.serve caller).1,
        .locked caller.ticket :: c.heedAbort.2 ++ (c.heedAbort.1.serve caller).2)
    else (c, [])
  | [] => (c, [])

/-- The task at the head and its stream, if the task is writing. -/
def writer? (c : Connection) : Option (Caller × Link) :=
  match c.line, c.link with
  | caller :: _, some l =>
    if caller.stage = .draining ∨ caller.stage = .writing then some (caller, l) else none
  | _, _ => none

/-- The task at the head and its stream, if the task is reading. -/
def reader? (c : Connection) : Option (Caller × Link) :=
  match c.line, c.link with
  | caller :: _, some l => if caller.stage = .reading then some (caller, l) else none
  | _, _ => none

/-- What a stream that takes no byte at all is said to have done. -/
def writeZero : LinkError := .io "failed to write frame to transport"

/-- The stream takes bytes of the task at the head. -/
def accept (c : Connection) (count : Nat) : Connection × List Event :=
  match c.writer? with
  | none => (c, [])
  | some (_, l) =>
    if l.outgoing = [] then (c, [])
    else if count = 0 then c.fail writeZero
    else ({ c with link := some (l.taken count) }, [.accepted (l.outgoing.take count)])

/-- The stream has passed on all that it has taken of the task at the head, which goes on if that
was everything. -/
def flush (c : Connection) : Connection × List Event :=
  match c.writer? with
  | some (caller, l) => if l.outgoing = [] then c.flushed l caller else (c, [])
  | none => (c, [])

/-- The stream fails to take bytes of the task at the head or to pass them on. -/
def writeFails (c : Connection) (detail : String) : Connection × List Event :=
  match c.writer? with
  | some _ => c.fail (.io detail)
  | none => (c, [])

/-- The stream brings bytes for the task at the head. -/
def receive (c : Connection) (chunk : Bytes) : Connection × List Event :=
  match c.reader? with
  | some (_, l) =>
    if chunk = [] then (c, [])
    else { c with link := some (l.received chunk) }.deliver (l.received chunk)
  | none => (c, [])

/-- The stream has come to its end before the reply was complete. -/
def ends (c : Connection) : Connection × List Event :=
  match c.reader? with
  | some (_, l) =>
    match l.codec.decodeAtEnd l.incoming with
    | .reply reply rest => { c with link := some (l.answered rest) }.leave (.reply reply)
    | .incomplete => c.fail (.lost (c.peer ++ " closed the connection"))
    | .failed e =>
      match e with
      | .io detail => c.fail (.io detail)
      | e => c.leave (.failed (.protocol e))
  | none => (c, [])

/-- The stream fails to bring bytes for the task at the head. -/
def readFails (c : Connection) (detail : String) : Connection × List Event :=
  match c.reader? with
  | some _ => c.fail (.io detail)
  | none => (c, [])

/-- A task gives its call up. -/
def cancel (c : Connection) (ticket : Ticket) : Connection × List Event :=
  let owed := c.line.any fun caller ↦ caller.ticket == ticket && Caller.owesReply caller
  let (c', dropped) := if owed then c.dropLink else (c, [])
  let given := (c.closer.filter (·.ticket == ticket)).toList
  ({ c' with
      line := c.line.filter (·.ticket != ticket)
      closer := c.closer.filter (·.ticket != ticket) },
    dropped ++ given.map fun _ ↦ .dropped)

/-- Somebody gives the whole connection up. -/
def abort (c : Connection) : Connection × List Event :=
  let c := { c with aborted := true }
  if c.isFree then c.dropLink else (c, [])

/-! ## Closing -/

/-- Change the task that ends the stream, if it has this ticket; `none` ends its call. -/
def updateCloser (c : Connection) (ticket : Ticket) (f : Closer → Option Closer × List Event) :
    Connection × List Event :=
  match c.closer with
  | some closer =>
    if closer.ticket = ticket then
      match f closer with
      | (some next, events) => ({ c with closer := some next }, events)
      | (none, events) => ({ c with closer := none }, events ++ [.dropped, .settled ticket .done])
    else (c, [])
  | none => (c, [])

/-- The stream takes bytes of a task that ends it. -/
def closerAccept (c : Connection) (ticket : Ticket) (count : Nat) : Connection × List Event :=
  c.updateCloser ticket fun closer ↦
    if closer.stage = .flushing ∧ closer.link.outgoing ≠ [] then
      if count = 0 then Closer.shutDown closer
      else
        (some { closer with link := closer.link.taken count },
          [.accepted (closer.link.outgoing.take count)])
    else (some closer, [])

/-- The stream has passed on all that it has taken of a task that ends it, which goes on if that
was everything. -/
def closerFlush (c : Connection) (ticket : Ticket) : Connection × List Event :=
  c.updateCloser ticket fun closer ↦
    if closer.stage = .flushing ∧ closer.link.outgoing = [] then Closer.shutDown closer
    else (some closer, [])

/-- The stream fails to take bytes of a task that ends it or to pass them on. -/
def closerWriteFails (c : Connection) (ticket : Ticket) : Connection × List Event :=
  c.updateCloser ticket fun closer ↦
    if closer.stage = .flushing then Closer.shutDown closer else (some closer, [])

/-- The stream has been shut down, well or badly. -/
def shutdownEnds (c : Connection) (ticket : Ticket) : Connection × List Event :=
  c.updateCloser ticket fun closer ↦
    if closer.stage = .shuttingDown then (none, []) else (some closer, [])

/-- Time passes. -/
def elapse (c : Connection) (ms : Nat) : Connection × List Event :=
  match c.closer with
  | some closer => c.updateCloser closer.ticket (Closer.elapse ms)
  | none => (c, [])

/-- One action. An action that does not apply changes nothing. -/
def step (c : Connection) : Action → Connection × List Event
  | .enter ticket call => c.enter ticket call
  | .proceed => c.proceed
  | .accept count => c.accept count
  | .flush => c.flush
  | .writeFails detail => c.writeFails detail
  | .receive chunk => c.receive chunk
  | .ends => c.ends
  | .readFails detail => c.readFails detail
  | .cancel ticket => c.cancel ticket
  | .abort => c.abort
  | .closerAccept ticket count => c.closerAccept ticket count
  | .closerFlush ticket => c.closerFlush ticket
  | .closerWriteFails ticket => c.closerWriteFails ticket
  | .shutdownEnds ticket => c.shutdownEnds ticket
  | .elapse ms => c.elapse ms

end Connection

end PinballBoard
