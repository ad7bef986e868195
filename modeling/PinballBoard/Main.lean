import PinballBoard.Link.Mailbox
import PinballBoard.Platform.Bench
import PinballBoard.Program.DiskFault
import PinballBoard.Program.Report
import Std.Async.DNS
import Std.Async.Signal
import Std.Async.TCP

/-!
# The program

The outer layer of the program: it reads the command line and the settings file, opens the stream,
carries bytes and time to and from a bench, prints, and picks the exit code. What all this means is
decided elsewhere.
-/

open PinballBoard

namespace PinballBoard.Program

/-! ## Faults of the machine -/

/-- The words of a fault of the machine, and its number if it has one. -/
def describeFault (e : IO.Error) : String × Option Nat :=
  match e with
  | .noFileOrDirectory _ code details => known code details
  | .permissionDenied _ code details => known code details
  | .inappropriateType _ code details => known code details
  | .invalidArgument _ code details => known code details
  | .noSuchThing _ code details => known code details
  | .resourceVanished code details => known code details
  | .otherError code details => known code details
  | e => (toString e, none)
where
  /-- The words for the number of a fault, whose sign does not matter. -/
  known (code : UInt32) (details : String) : String × Option Nat :=
    let number := code.toInt32.toInt.natAbs
    (((DiskFault.ofNumber? number).map DiskFault.text).getD details.capitalize, some number)

/-- A fault of the machine as the messages of the program show it. -/
def faultText (e : IO.Error) : String :=
  match describeFault e with
  | (text, some number) => s!"{text} (os error {number})"
  | (text, none) => text

/-- A fault of asking for the address of a host. -/
def lookupText (e : IO.Error) : String :=
  "failed to lookup address information: " ++
    match describeFault e with
    | (_, some 3001) => "Temporary failure in name resolution"
    | (_, some 3008) => "Name or service not known"
    | (text, _) => text

/-- The text of a file. -/
def readText (path : String) : IO (Except String String) := do
  try
    match String.fromUTF8? (← IO.FS.readBinFile path) with
    | some text => return .ok text
    | none => return .error "stream did not contain valid UTF-8"
  catch e => return .error (faultText e)

/-! ## Streams of the machine -/

/-- An open stream of the machine. -/
structure Carrier where
  send : ByteArray → IO Unit
  /-- Begin to wait for bytes; no bytes at all are the end. -/
  receive : IO (Task (Except IO.Error (Option ByteArray)))
  shutdown : IO Unit
  /-- Give up waiting for bytes. -/
  giveUp : IO Unit

/-- How many milliseconds an address may take to answer. -/
def connectPatience : Nat := 3000

/-- Wait for a task of the machine up to a deadline. -/
partial def waitFor {α : Type} (task : Task α) (deadline : Nat) : IO (Option α) := do
  if ← IO.hasFinished task then return some task.get
  if deadline ≤ (← IO.monoMsNow) then return none
  IO.sleep 1
  waitFor task deadline

/-- Connect to the first address that answers. -/
partial def connectTo (port : UInt16) (deadline : Nat) (fault : LinkError) :
    List Std.Net.IPAddr → IO (Except LinkError Carrier)
  | [] => return .error fault
  | address :: addresses => do
    let client ← Std.Async.TCP.Socket.Client.mk
    let target : Std.Net.SocketAddress := match address with
      | .v4 addr => .v4 ⟨addr, port⟩
      | .v6 addr => .v6 ⟨addr, port⟩
    match ← waitFor (← (client.connect target).toIO) deadline with
    | none => return .error (.timeout connectPatience)
    | some (.error e) => connectTo port deadline (.io (faultText e)) addresses
    | some (.ok ()) =>
      client.noDelay
      return .ok {
        send := fun bytes ↦ (client.send bytes).block
        receive := (client.recv? 8192).toIO
        shutdown := client.shutdown.block
        giveUp := (client.recvSelector 8192).unregisterFn.block }

/-- Open the stream to an endpoint. The speed of a serial port is left as the system has set it. -/
def openStream : Endpoint → IO (Except LinkError Carrier)
  | .network host port => do
    let deadline := (← IO.monoMsNow) + connectPatience
    match ← waitFor (← (Std.Async.DNS.getAddrInfo host "").toIO) deadline with
    | none => return .error (.timeout connectPatience)
    | some (.error e) => return .error (.io (lookupText e))
    | some (.ok addresses) =>
      connectTo port deadline (.io "could not resolve to any address") addresses.toList
  | .serial port _ => do
    try
      let handle ← IO.FS.Handle.mk port .readWrite
      unless ← handle.isTty do
        return .error (.serial (port ++ ": " ++ DiskFault.notTerminal.text))
      return .ok {
        send := fun bytes ↦ do
          handle.write bytes
          handle.flush
        receive := IO.asTask (do
          let bytes ← handle.read 8192
          return if bytes.isEmpty then none else some bytes) .dedicated
        shutdown := pure ()
        giveUp := pure () }
    catch e => return .error (.serial (port ++ ": " ++ (describeFault e).1))

/-! ## The bench at work -/

/-- A bench and the stream that carries its bytes. -/
structure Workplace where
  carrier : Carrier
  /-- The time at which the clock of the bench was zero. -/
  start : Nat
  bench : Bench Mailbox
  /-- The bytes that are waited for. -/
  arriving : Task (Except IO.Error (Option ByteArray))
  isShut : Bool := false

abbrev Work : Type → Type := StateT Workplace IO

namespace Work

/-- Do something to the bench. -/
def change (f : Bench Mailbox → Bench Mailbox) : Work Unit :=
  modify fun w ↦ { w with bench := f w.bench }

/-- Do something to the mailbox. -/
def changeMail (f : Mailbox → Mailbox) : Work Unit :=
  change fun b ↦ { b with stream := f b.stream }

/-- Take in what has arrived. -/
def takeIn : Work Unit := do
  let w ← get
  if w.bench.stream.inboxEnd.isNone then
    if ← IO.hasFinished w.arriving then
      match w.arriving.get with
      | .ok (some bytes) =>
        changeMail (·.arrive bytes.toList)
        let arriving ← w.carrier.receive
        modify fun w ↦ { w with arriving }
      | .ok none => changeMail (·.close .ended)
      | .error e => changeMail (·.close (.failed (faultText e)))

/-- Carry away what has been written. -/
def carryAway : Work Unit := do
  let w ← get
  if !w.bench.stream.outbox.isEmpty then
    try
      w.carrier.send ⟨w.bench.stream.outbox.toArray⟩
      changeMail Mailbox.emptied
    catch e => changeMail (·.stuck (faultText e))
  if (w.bench.stream.isDone || w.bench.stream.isGone) && !w.isShut then
    modify fun w ↦ { w with isShut := true }
    try w.carrier.shutdown catch _ => pure ()

/-- Let the bench go on until there is enough, with the time and the bytes that have come. Nobody
reads its trace here. -/
def goOn (enough : Bench Mailbox → Bool) : Work Unit := do
  takeIn
  let w ← get
  let now ← IO.monoMsNow
  change (·.move (.elapse (now - w.start - w.bench.session.clock)))
  change fun b ↦ { b.settleUntil enough with trace := [] }
  carryAway

/-- Wait for the end of a call. -/
partial def await (ticket : Ticket) : Work Outcome := do
  goOn fun b ↦ (b.outcome? ticket).isSome
  match (← get).bench.outcome? ticket with
  | some outcome => return outcome
  | none =>
    IO.sleep 1
    await ticket

/-- Take part in a dialogue. -/
def converse {σ α : Type} : Dialogue σ α → Work α
  | .done _ result => return result
  | .ask _ call next => do
    let (ticket, bench) := (← get).bench.enter call
    change fun _ ↦ bench
    converse (next (← await ticket))

/-- Print the changes of the switches until somebody wants an end. -/
partial def monitor (isStopped : IO Bool) : Work (Except Failure Unit) := do
  goOn (!·.session.channel.queue.isEmpty)
  match (← get).bench.session.channel.queue with
  | [] =>
    if ← isStopped then return .ok ()
    IO.sleep 1
    monitor isStopped
  | event :: _ =>
    change (·.move .take)
    match Order.eventLine event with
    | .error text => return .error ⟨text, []⟩
    | .ok line =>
      IO.println line
      (← IO.getStdout).flush
      monitor isStopped

/-- Carry an order out with a board that has started. -/
def carryOut (order : Order) (discovery : Discovery) : Work (Except Failure Unit) := do
  match order.oneShot? discovery.profile with
  | some task =>
    match ← converse task with
    | .ok lines =>
      for line in lines do IO.println line
      return .ok ()
    | .error e => return .error (.ofDevice e)
  | none =>
    let waiter ← Std.Async.Signal.Waiter.mk .sigint false
    let interrupt ← waiter.wait
    let switches := (← get).bench.session.switches
    for line in Order.openingLines discovery.profile switches do IO.println line
    (← IO.getStdout).flush
    let result ← monitor (IO.hasFinished interrupt)
    waiter.stop
    return result

/-- Start the board, carry the order out and shut the board down. A channel that there cannot be is
no failure of the program but a crash. -/
def attend (settings : Settings) (order : Order) : Work (Except Failure Unit) := do
  let result ← match ← converse Platform.start with
    | .error e => pure (.error (.starting e))
    | .ok discovery =>
      match (← get).bench.beginPolling? discovery settings.options with
      | none => throw (.userError "a channel cannot have this capacity")
      | some bench => change fun _ ↦ bench
      let result ← carryOut order discovery
      change (·.move .cancelPolling)
      converse (Dialogue.single .close fun _ ↦ ())
      pure result
  carryAway
  (← get).carrier.giveUp
  return result

end Work

/-! ## The whole run -/

/-- Run the program as its options and its order say. -/
def run (overrides : Overrides) (order : Order) : IO (Except Failure Unit) := do
  let content ← match overrides.config with
    | none => pure (.ok "")
    | some path => readText path
  match overrides.settings content with
  | .error f => return .error f
  | .ok (settings, endpoint) =>
    match ← openStream endpoint with
    | .error e => return .error (.starting (.ofLink e))
    | .ok carrier =>
      let place : Workplace := {
        carrier
        start := ← IO.monoMsNow
        bench := Bench.ofStream endpoint.text {}
        arriving := ← carrier.receive }
      (Work.attend settings order).run' place

end PinballBoard.Program

/-- Run the program on the words of its command line. -/
def main (words : List String) : IO UInt32 := do
  match Invocation.ofWords words with
  | .error _ =>
    IO.eprintln usageText
    return 2
  | .ok .help =>
    IO.println usageText
    return 0
  | .ok .version =>
    IO.println versionText
    return 0
  | .ok (.run overrides order) =>
    try
      match ← Program.run overrides order with
      | .ok () => return 0
      | .error f =>
        IO.eprintln f.text
        return 1
    catch crash =>
      IO.eprintln crash
      return 101
