import PinballBoard.Program.Report
import PinballBoard.Platform.Bench
import PinballBoard.Simulator.Disk
import PinballBoard.Simulator.Line
import PinballBoard.Simulator.Network

/-!
# Rehearsals

A rehearsal runs the whole program, from its command line to its last word, where everything around
it is simulated: a disk with a few files, one host on which a board may listen, and somebody who
presses the interrupt key. There are no serial ports.

The board holds its changes back until the program has printed which switches are active, so what
the program prints does not depend on how fast it starts.
-/

namespace PinballBoard

/-- What makes an order end that would go on for ever. -/
inductive Ending where
  /-- Somebody interrupts the program when every change has been printed. -/
  | interrupt
  /-- The board ends the link at the first poll after the changes. -/
  | disconnect
  /-- Nothing does. -/
  | none
deriving DecidableEq, Repr

/-- What is around the program. -/
structure Scene where
  /-- Names and texts of the files in the folder in which the program runs. -/
  files : List (String × String) := []
  /-- The board, if one listens. -/
  board : Option Board
  /-- The port of this host on which the board listens. -/
  port : UInt16
  /-- What the board answers to polls once the program watches. -/
  changes : List UInt8 := []
  ending : Ending := .none
deriving DecidableEq, Repr

/-- How the program has ended. -/
inductive Verdict where
  | success
  | failure (f : Failure)
  | misuse (e : UsageError)
  /-- The program has crashed, because there can be no channel for the events. -/
  | crashed
deriving DecidableEq, Repr

/-- What has been seen of the program. -/
structure Transcript where
  verdict : Verdict
  /-- The printed lines. -/
  lines : List String := []
  /-- The frames that the board has received, without polls. -/
  frames : List Bytes := []
  /-- The session as the program has left it, if there was a stream at all. -/
  session : Option Session := none
deriving DecidableEq, Repr

namespace Transcript

/-- The transcript of a program that has come to its end at a bench. -/
def ofBench (verdict : Verdict) (lines : List String) (b : Bench BoardLine) : Transcript where
  verdict
  lines
  frames := b.stream.board.frames
  session := some b.session

/-- The frames that tell one order from another: those that are no question about a switch. -/
def orderFrames (t : Transcript) : List Bytes :=
  t.frames.filter (·.head? != some Code.readSwitch)

end Transcript

namespace Scene

/-- The disk with the files. -/
def disk (s : Scene) : Disk := .ofFiles s.files

/-- The text of a file, or why it cannot be read. -/
def readFile (s : Scene) (path : String) : Except String String :=
  (s.disk.read path).mapError DiskFault.message

/-- Open the stream to the board. -/
def connect (s : Scene) : Endpoint → Except LinkError BoardLine
  | .serial port _ => .error (.serial (port ++ ": " ++ (s.disk.serialFault port).text))
  | .network host port =>
    match Network.isHere host, s.board with
    | .error detail, _ => .error (.io detail)
    | .ok true, some board =>
      if port = s.port then .ok { board, capacity := Option.none }
      else .error (.io "Connection refused (os error 111)")
    | .ok _, _ => .error (.io "Connection refused (os error 111)")

/-- Let the board report its changes from now on. -/
def release (s : Scene) (b : Bench BoardLine) : Bench BoardLine :=
  let board := { b.stream.board with
    changes := s.changes
    isLeaving := s.ending = .disconnect }
  { b with stream := { b.stream with board } }

/-- The number of changes after which the program is interrupted. -/
def interruptAfter? (s : Scene) : Option Nat :=
  match s.ending with
  | .interrupt => some (s.changes.countP (· != Code.noChange))
  | .disconnect | .none => Option.none

/-- Print changes until the program is interrupted, fails, or hears nothing any more. -/
def watch (s : Scene) (printed : Nat) : Nat → Bench BoardLine →
    List String × Verdict × Bench BoardLine
  | 0, b => ([], .success, b)
  | fuel + 1, b =>
    if s.interruptAfter? = some printed then ([], .success, b)
    else
      let b := b.waitUntil (b.session.clock + Bench.patience) (!·.session.channel.queue.isEmpty)
      match b.session.channel.queue with
      | [] => ([], .success, b)
      | event :: _ =>
        match Order.eventLine event with
        | .error text => ([], .failure ⟨text, []⟩, b)
        | .ok line =>
          let (lines, rest) := s.watch (printed + 1) fuel (b.move .take)
          (line :: lines, rest)

/-- Carry an order out with a board that has started. -/
def carryOut (s : Scene) (order : Order) (discovery : Discovery) (b : Bench BoardLine) :
    List String × Verdict × Bench BoardLine :=
  match order.oneShot? discovery.profile with
  | some task =>
    match b.perform task with
    | ((_, some (.ok lines)), b) => (lines, .success, b)
    | ((_, some (.error e)), b) => ([], .failure (.ofDevice e), b)
    | ((_, Option.none), b) => ([], .failure (.ofDevice (.disconnected boardName)), b)
  | Option.none =>
    let opening := Order.openingLines discovery.profile b.session.switches
    let (lines, rest) := s.watch 0 (s.changes.length + 2) (s.release b)
    (opening ++ lines, rest)

/-- Start the board, carry the order out and shut the board down. -/
def attend (s : Scene) (settings : Settings) (endpoint : Endpoint) (order : Order) : Transcript :=
  match s.connect endpoint with
  | .error e => { verdict := .failure (.starting (.ofLink e)) }
  | .ok line =>
    match (Bench.ofStream endpoint.text line).launch settings.options with
    | .running discovery b =>
      let (lines, verdict, b) := s.carryOut order discovery b
      .ofBench verdict lines b.shutDown
    | .failed e b => .ofBench (.failure (.starting e)) [] b
    | .unanswered b => .ofBench (.failure (.starting (.disconnected boardName))) [] b
    | .crashed b => .ofBench .crashed [] b

/-- Run the program with some words behind its name. -/
def rehearse (s : Scene) (words : List String) : Transcript :=
  match Invocation.ofWords words with
  | .error e => { verdict := .misuse e }
  | .ok .help => { verdict := .success, lines := [usageText] }
  | .ok .version => { verdict := .success, lines := [versionText] }
  | .ok (.run overrides order) =>
    match overrides.settings (s.readFile (overrides.config.getD "")) with
    | .error f => { verdict := .failure f }
    | .ok (settings, endpoint) => s.attend settings endpoint order

end Scene

end PinballBoard
