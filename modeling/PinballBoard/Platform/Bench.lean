import PinballBoard.Link.Stream
import PinballBoard.Platform.Basic
import PinballBoard.Platform.Session

/-!
# The bench

A bench is a session over a stream that answers at once, run in time that passes only when it is
told to. A session leaves open which of its moves comes next; a bench decides. It lets the stream
and the poll loop move as long as they can (`settle`), and only then does the host move or time
pass. Time passes from one timer to the next, so nothing that is due is skipped and nothing happens
between.

A host waits for a call up to a deadline, gives it up then, and takes note of how far it got.

With a poll loop that does not rest and a board that always answers, moves that need no time go on
for ever. So their number is bounded, far above what any exchange needs, and whoever waits for
something stops as soon as he has it.
-/

namespace PinballBoard

/-- A session at work on a stream. -/
structure Bench (σ : Type) where
  session : Session
  stream : σ
  /-- What has been noted, newest first. -/
  trace : List Event := []
  /-- How calls of the host have ended that nobody has asked after yet. -/
  outcomes : List (Ticket × Outcome) := []

namespace Bench

variable {σ τ α : Type} [ByteStream σ]

/-! ## Moves -/

/-- Take note of an event. A stream that the host has dropped is told so. -/
def note (b : Bench σ) (event : Event) : Bench σ :=
  let b := { b with trace := event :: b.trace }
  match event with
  | .settled ticket outcome => { b with outcomes := (ticket, outcome) :: b.outcomes }
  | .dropped => { b with stream := ByteStream.hangUp b.stream }
  | .locked _ | .encoded _ _ | .accepted _ | .shutdown => b

/-- Go on with a session after a step. -/
def resume (b : Bench σ) (step : Session × List Event) : Bench σ :=
  step.2.foldl note { b with session := step.1 }

/-- Make one move. -/
def move (b : Bench σ) (m : Move) : Bench σ := b.resume (b.session.step m)

/-- Make one move that needs no time and no host, if there is one. -/
def next? (b : Bench σ) : Option (Bench σ) :=
  match b.session.connection.next? b.stream with
  | some (action, stream) => some ({ b with stream }.move (.link action))
  | none => b.session.advance?.map b.resume

/-- Make up to a number of such moves, until there is enough. -/
def settleWithin (enough : Bench σ → Bool) : Nat → Bench σ → Bench σ
  | 0, b => b
  | fuel + 1, b =>
    if enough b then b
    else
      match b.next? with
      | some b => settleWithin enough fuel b
      | none => b

/-- The number of moves after which a bench that never comes to rest is left as it is. -/
def restLimit : Nat := 1000000

/-- Make such moves until there is enough. -/
def settleUntil (b : Bench σ) (enough : Bench σ → Bool) : Bench σ :=
  settleWithin enough restLimit b

/-- Make all such moves. -/
def settle (b : Bench σ) : Bench σ := b.settleUntil fun _ ↦ false

/-! ## Time -/

/-- Let time pass up to the next timer, but not beyond the deadline. -/
def leap (b : Bench σ) (deadline : Nat) : Bench σ :=
  let left := deadline - b.session.clock
  b.move (.elapse (min left (max 1 (b.session.untilTimer?.getD left))))

/-- Let time pass in a number of leaps, until there is enough or the deadline has come. -/
def waitWithin (deadline : Nat) (enough : Bench σ → Bool) : Nat → Bench σ → Bench σ
  | 0, b => b.settleUntil enough
  | fuel + 1, b =>
    let b := b.settleUntil enough
    if enough b || deadline ≤ b.session.clock then b
    else waitWithin deadline enough fuel (b.leap deadline)

/-- Let time pass until there is enough or the deadline has come. Each leap takes a millisecond at
least, which bounds their number. -/
def waitUntil (b : Bench σ) (deadline : Nat) (enough : Bench σ → Bool) : Bench σ :=
  waitWithin deadline enough (deadline - b.session.clock) b

/-- Let some milliseconds pass. -/
def wait (b : Bench σ) (ms : Nat) : Bench σ := b.waitUntil (b.session.clock + ms) fun _ ↦ false

/-! ## The host -/

/-- How a call of the host has ended. -/
def outcome? (b : Bench σ) (ticket : Ticket) : Option Outcome := b.outcomes.lookup ticket

/-- Begin a call. -/
def enter (b : Bench σ) (call : Call) : Ticket × Bench σ :=
  (b.session.nextTicket, b.move (.call call))

/-- Wait for the end of a call up to a deadline, and give the call up then. -/
def await (b : Bench σ) (deadline : Nat) (ticket : Ticket) : Option Outcome × Bench σ :=
  let b := b.waitUntil deadline fun b ↦ (b.outcome? ticket).isSome
  match b.outcome? ticket with
  | some outcome => (some outcome, { b with outcomes := b.outcomes.filter (·.1 != ticket) })
  | none => (none, b.move (.giveUp ticket))

/-- Take part in a dialogue up to a deadline. The result is missing if the deadline came first. -/
def converse (deadline : Nat) : Dialogue τ α → Bench σ → (τ × Option α) × Bench σ
  | .done state result, b => ((state, some result), b)
  | .ask state call next, b =>
    let (ticket, b) := b.enter call
    match b.await deadline ticket with
    | (some outcome, b) => converse deadline (next outcome) b
    | (none, b) => ((state, none), b)

/-- The milliseconds after which a host gives up. -/
def patience : Nat := 60000

/-- Take part in a dialogue as long as a host is patient. -/
def perform (b : Bench σ) (dialogue : Dialogue τ α) : (τ × Option α) × Bench σ :=
  converse (b.session.clock + patience) dialogue b

/-- Take all events off the channel, one after the other, as long as there are any. -/
def drainWithin : Nat → Bench σ → List PlatformEvent × Bench σ
  | 0, b => ([], b)
  | fuel + 1, b =>
    match b.session.channel.queue with
    | [] => ([], b)
    | event :: _ =>
      let (events, b) := drainWithin fuel (b.move .take).settle
      (event :: events, b)

/-- Take all events off the channel, and those that come as soon as there is room. -/
def drain (b : Bench σ) : List PlatformEvent × Bench σ := b.settle.drainWithin restLimit

/-! ## Whole undertakings -/

/-- A bench with an open stream and no poll loop. -/
def ofStream (peer : String) (stream : σ) : Bench σ where
  session := .fresh peer
  stream

/-- Start to poll with what a handshake has found out. -/
def beginPolling (b : Bench σ) (discovery : Discovery) (options : PlatformOptions) : Bench σ :=
  { b with session :=
    b.session.beginPolling discovery.switches options.eventCapacity options.pollInterval }

/-- The same, unless there can be no channel for the events. -/
def beginPolling? (b : Bench σ) (discovery : Discovery) (options : PlatformOptions) :
    Option (Bench σ) :=
  (b.session.beginPolling? discovery.switches options.eventCapacity options.pollInterval).map
    fun session ↦ { b with session }

/-- How the start of a platform ends. -/
inductive Launch (σ : Type) where
  /-- The board has started, and the poll loop runs. -/
  | running (discovery : Discovery) (bench : Bench σ)
  | failed (error : DeviceError) (bench : Bench σ)
  /-- The host has lost its patience. -/
  | unanswered (bench : Bench σ)
  /-- The board has started, but the host has crashed because there can be no channel. -/
  | crashed (bench : Bench σ)

/-- Start a platform: the board first, then the poll loop. -/
def launch (b : Bench σ) (options : PlatformOptions) : Launch σ :=
  match b.perform Platform.start with
  | ((_, some (.ok discovery)), b) =>
    match b.beginPolling? discovery options with
    | some polling => .running discovery polling
    | none => .crashed b
  | ((_, some (.error error)), b) => .failed error b
  | ((_, none), b) => .unanswered b

/-- Shut the platform down: the poll loop first, then the stream. -/
def shutDown (b : Bench σ) : Bench σ :=
  ((b.move .cancelPolling).perform (Dialogue.single .close fun _ ↦ ())).2.settle

/-- Drop the platform: the poll loop ends and the connection is given up. -/
def dropPlatform (b : Bench σ) : Bench σ := ((b.move .cancelPolling).move .abort).settle

/-! ## Looking on -/

/-- Whether the host has dropped the stream. -/
def isDropped (b : Bench σ) : Bool := b.trace.contains .dropped

/-- The bytes that the stream has taken, in order. -/
def written (b : Bench σ) : Bytes :=
  b.trace.reverse.flatMap fun
    | .accepted bytes => bytes
    | _ => []

end Bench

end PinballBoard
