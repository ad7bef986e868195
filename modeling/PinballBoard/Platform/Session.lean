import PinballBoard.Platform.PollLoop
import PinballBoard.Switch.Table

/-!
# Sessions

A session is everything that lives while a host works with a board: the connection, what is known
about the switches, the channel to the host, the poll loop, and the clock by which it rests.

As with connections, `Session.step` makes one move and total freedom of moves is total freedom of
interleaving. The moves of the poll loop are `advance` and, hidden in `link`, the end of its call:
when the connection settles the call of the loop, the loop reads the answer in the same step, so
there is no moment at which an answered poll is not yet in the table. The host never sees the
tickets of the loop.

Cancelling the loop takes effect at once, whatever it is doing. If its call is under way the call is
cancelled with it, and the connection decides what that means for the stream.
-/

namespace PinballBoard

/-- A host at work with a board. -/
structure Session where
  connection : Connection
  switches : SwitchTable
  channel : Channel
  /-- The poll loop, once there is one. -/
  poll : Option PollLoop
  /-- The time in milliseconds. -/
  clock : Nat
  nextTicket : Ticket
deriving DecidableEq, Repr

/-- What can happen in a session. -/
inductive Move where
  /-- A task of the host makes a call. -/
  | call (call : Call)
  /-- A task of the host gives its call up. -/
  | giveUp (ticket : Ticket)
  /-- The host gives the connection up. -/
  | abort
  /-- The connection gets on; what is not progress of a call under way is ignored. -/
  | link (action : Action)
  /-- The poll loop gets on, if it can. -/
  | advance
  /-- The poll loop is cancelled. -/
  | cancelPolling
  /-- The host takes an event off the channel. -/
  | take
  /-- The host goes away from the channel. -/
  | abandon
  /-- Time passes. -/
  | elapse (ms : Nat)
deriving DecidableEq, Repr

/-- Whether an action is progress of calls that are under way. -/
def Action.isProgress : Action → Bool
  | .enter _ _ | .cancel _ | .abort | .elapse _ => false
  | _ => true

namespace Session

/-- A session over a connection, before there is a poll loop. -/
def ofConnection (connection : Connection) : Session where
  connection
  switches := .empty
  channel := .empty 0
  poll := none
  clock := 0
  nextTicket := 0

/-- A session over a stream that has just been opened. -/
def fresh (peer : String) : Session := ofConnection (.fresh peer)

/-- Start to poll, with what is known about the switches and a new channel. -/
def beginPolling (s : Session) (switches : SwitchTable) (capacity interval : Nat) : Session :=
  { s with switches, channel := .empty capacity, poll := some (.start interval) }

/-- The same, unless there can be no channel of this capacity. -/
def beginPolling? (s : Session) (switches : SwitchTable) (capacity interval : Nat) :
    Option Session :=
  (Channel.make? capacity).map fun channel ↦
    { s.beginPolling switches capacity interval with channel }

theorem beginPolling?_eq (s : Session) (switches : SwitchTable) (capacity interval : Nat) :
    s.beginPolling? switches capacity interval =
      if 0 < capacity ∧ capacity ≤ Channel.greatestCapacity then
        some (s.beginPolling switches capacity interval)
      else none := by
  rw [beginPolling?, Channel.make?]
  split <;> rfl

/-- Whether the poll loop is running. -/
def isPolling (s : Session) : Bool := s.poll.any PollLoop.isRunning

/-- The failure with which the poll loop has ended. -/
def pollFailure? (s : Session) : Option DeviceError :=
  match s.poll with
  | some ⟨_, .ended failure⟩ => failure
  | _ => none

/-! ## The poll loop -/

/-- The poll loop gets to another phase. -/
def setPhase (s : Session) (phase : PollPhase) : Session :=
  { s with poll := s.poll.map fun loop ↦ { loop with phase } }

/-- The poll loop hears how its call has ended. A change is in the table before the host can hear
of it. -/
def hear (s : Session) (loop : PollLoop) (outcome : Outcome) : Session :=
  match PollLoop.judge outcome with
  | .ok .unchanged => s.setPhase (.resting (s.clock + loop.interval))
  | .ok (.changed switch active) =>
    { s with switches := s.switches.insert switch active }.setPhase (.delivering switch active)
  | .error e => s.setPhase (.reporting e)

/-- The next move of the poll loop, if it can get on. -/
def advance? (s : Session) : Option (Session × List Event) :=
  s.poll.bind fun loop ↦
    match loop.phase with
    | .ready =>
      let (connection, events) := s.connection.enter s.nextTicket (.request .pollChanges)
      some ({ s with connection, nextTicket := s.nextTicket + 1 }.setPhase (.asking s.nextTicket),
        events)
    | .resting deadline => if deadline ≤ s.clock then some (s.setPhase .ready, []) else none
    | .delivering switch active =>
      match s.channel.offer (.switchChanged switch active) with
      | .enqueued channel => some ({ s with channel }.setPhase .ready, [])
      | .abandoned => some (s.setPhase .ready, [])
      | .full => none
    | .reporting error =>
      match s.channel.offer (.pollFailed error) with
      | .enqueued channel => some ({ s with channel }.setPhase (.ended (some error)), [])
      | .abandoned => some (s.setPhase (.ended (some error)), [])
      | .full => none
    | .asking _ | .ended _ => none

/-- The poll loop is cancelled, and its call with it. -/
def cancelPolling (s : Session) : Session × List Event :=
  match s.poll with
  | none => (s, [])
  | some loop =>
    match loop.phase with
    | .ended _ => (s, [])
    | .asking ticket =>
      let (connection, events) := s.connection.cancel ticket
      ({ s with connection }.setPhase (.ended none), events)
    | _ => (s.setPhase (.ended none), [])

/-! ## The link -/

/-- What the outcomes among some events mean for the poll loop; the other events are the host's. -/
def settle (s : Session) : List Event → Session × List Event
  | [] => (s, [])
  | .settled ticket outcome :: events =>
    match s.poll with
    | some loop =>
      if loop.ticket? = some ticket then (s.hear loop outcome).settle events
      else
        let (s, events) := s.settle events
        (s, .settled ticket outcome :: events)
    | none =>
      let (s, events) := s.settle events
      (s, .settled ticket outcome :: events)
  | event :: events =>
    let (s, events) := s.settle events
    (s, event :: events)

/-- The connection makes a step. -/
def stepLink (s : Session) (action : Action) : Session × List Event :=
  let (connection, events) := s.connection.step action
  { s with connection }.settle events

/-- One move. A move that does not apply changes nothing. -/
def step (s : Session) : Move → Session × List Event
  | .call call => { s with nextTicket := s.nextTicket + 1 }.stepLink (.enter s.nextTicket call)
  | .giveUp ticket =>
    if (s.poll.bind PollLoop.ticket?) = some ticket then (s, []) else s.stepLink (.cancel ticket)
  | .abort => s.stepLink .abort
  | .link action => if action.isProgress then s.stepLink action else (s, [])
  | .advance => s.advance?.getD (s, [])
  | .cancelPolling => s.cancelPolling
  | .take =>
    match s.channel.take? with
    | some (_, channel) => ({ s with channel }, [])
    | none => (s, [])
  | .abandon => ({ s with channel := s.channel.abandon }, [])
  | .elapse ms => { s with clock := s.clock + ms }.stepLink (.elapse ms)

/-! ## Time -/

/-- The time up to which the poll loop rests. -/
def restsUntil? (s : Session) : Option Nat :=
  match s.poll with
  | some ⟨_, .resting deadline⟩ => some deadline
  | _ => none

/-- The milliseconds until something happens by itself: the poll loop has rested, or the patience of
closing ends. -/
def untilTimer? (s : Session) : Option Nat :=
  ((s.restsUntil?.map (· - s.clock)).toList ++
    (s.connection.closer.map (·.patience)).toList).min?

end Session

end PinballBoard
