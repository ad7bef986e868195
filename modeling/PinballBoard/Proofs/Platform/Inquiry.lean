import PinballBoard.Proofs.Link.Supply
import PinballBoard.Proofs.Platform.Bench
import PinballBoard.Proofs.Wire.Frame
import PinballBoard.Proofs.Wire.Parse

/-!
# A single question

A host asks the board a question on a connection that nobody else uses, and waits for what it is
told. A bench takes that through a line of moves: the request gets the lock, its frame is written a
few bytes at a time, the stream is flushed, and the reply is read in as many pieces as it comes in.
`Bench.told_of_resting` says what all that amounts to. The frame has been written, and what the host
is told is the reply at the front of what was still to be read (`ReplyKind.parse?`), or the way in
which the stream ends before there is one.

## Between two questions

A bench at rest holds part of what is to be read in the buffer of its connection, and the stream
brings the remainder. How much is where depends on how the bytes were cut, so `Bench.Resting` speaks
of both together. It is what one question leaves to the next.

## Strings that are too long

The codec gives up on a string as soon as it has more bytes than the limit allows and no terminator
among them. If the terminator arrives together with the byte that is too much, the string is read
like any other. So for such a string, and for no other, the host can be told one of two things
(`Told.overruns`).
-/

namespace PinballBoard

/-! ## A connection with one task -/

namespace Connection

/-- An open connection that a single task uses. -/
def serving (peer : String) (l : Link) (k : Caller) : Connection := ⟨peer, some l, false, [k], none⟩

/-- An open connection that nobody uses. -/
def resting (peer : String) (l : Link) : Connection := ⟨peer, some l, false, [], none⟩

/-- A connection that has lost its stream and that nobody uses. -/
def closed (peer : String) : Connection := ⟨peer, none, false, [], none⟩

variable {σ : Type} [ByteStream σ] (peer : String) {l : Link} {k : Caller} {t : Ticket}
  {command : Command} {stream stream' : σ}

/-! ### What comes next -/

theorem next?_of_waiting (h : k.stage = .waiting) :
    (serving peer l k).next? stream = some (.proceed, stream) := by
  simp [serving, next?, serving?, h]

theorem next?_of_write {count : Nat} (h : k.stage = .writing) (hout : l.outgoing ≠ [])
    (hwrite : ByteStream.write stream l.outgoing = (.accepted count, stream')) :
    (serving peer l k).next? stream = some (.accept count, stream') := by
  simp [serving, next?, serving?, writer?, h, hout, hwrite]

theorem next?_of_flush (h : k.stage = .writing) (hout : l.outgoing = [])
    (hflush : ByteStream.flush stream = (.finished, stream')) :
    (serving peer l k).next? stream = some (.flush, stream') := by
  simp [serving, next?, serving?, writer?, h, hout, hflush]

/-- What a task that reads makes of an answer of the stream. -/
def ofRead : ReadStatus → Option Action
  | .chunk bytes => some (.receive bytes)
  | .ended => some .ends
  | .failed detail => some (.readFails detail)
  | .notReady => none

theorem next?_of_read {status : ReadStatus} (h : k.stage = .reading)
    (hread : ByteStream.read stream l.readLimit = (status, stream')) :
    (serving peer l k).next? stream = (ofRead status).map (·, stream') := by
  cases status <;> simp [serving, next?, serving?, writer?, reader?, h, hread, ofRead]

/-! ### What it does -/

theorem step_proceed {l' : Link} (hout : l.outgoing = []) (hsubmit : l.submit command = .ok l') :
    (serving peer l ⟨t, .request command, .waiting⟩).step .proceed =
      (serving peer l' ⟨t, .request command, .writing⟩,
        [.locked t, .encoded t command]) := by
  simp [serving, step, proceed, heedAbort, serve, hout, backlogLimit, submit, hsubmit, setStage]

theorem step_accept {count : Nat} (h : k.stage = .writing) (hout : l.outgoing ≠ [])
    (hcount : count ≠ 0) :
    (serving peer l k).step (.accept count) =
      (serving peer (l.taken count) k, [.accepted (l.outgoing.take count)]) := by
  simp [serving, step, accept, writer?, h, hout, hcount]

/-- What a task that looks for its reply makes of what the codec finds. -/
def delivered (peer : String) (l : Link) (t : Ticket) (command : Command) :
    Decoded → Connection × List Event
  | .reply reply rest => (resting peer (l.answered rest), [.settled t (.reply reply)])
  | .incomplete => (serving peer l ⟨t, .request command, .reading⟩, [])
  | .failed e => (resting peer l, [.settled t (.failed (.ofProtocol e))])

theorem step_flush (hout : l.outgoing = []) :
    (serving peer l ⟨t, .request command, .writing⟩).step .flush =
      delivered peer l t command (l.codec.decode l.incoming) := by
  cases hdecode : l.codec.decode l.incoming <;>
    simp [serving, step, flush, writer?, hout, flushed, setStage, deliver, hdecode, leave,
      delivered, resting]

theorem step_receive {chunk : Bytes} (hchunk : chunk ≠ []) :
    (serving peer l ⟨t, .request command, .reading⟩).step (.receive chunk) =
      delivered peer (l.received chunk) t command
        ((l.received chunk).codec.decode (l.received chunk).incoming) := by
  cases hdecode : (l.received chunk).codec.decode (l.received chunk).incoming <;>
    simp [-Link.received_codec, -Link.received_incoming, serving, step, receive, reader?, hchunk,
      deliver, hdecode, leave, delivered, resting]

/-- A task whose reply is not complete when the stream has come to its end loses the stream. -/
theorem step_end {e : StreamEnd} {a : Action} {error : LinkError} (t : Ticket)
    (command : Command) (hdecode : l.codec.decode l.incoming = .incomplete)
    (ha : ofRead e.status = some a) (herror : e.failure? peer l.incoming = some error) :
    (serving peer l ⟨t, .request command, .reading⟩).step a =
      (closed peer, [.dropped, .settled t (.failed error)]) := by
  cases e with
  | hangs => cases ha
  | ended =>
    cases ha
    cases herror
    by_cases hempty : l.incoming = []
    · have hnil : l.codec.decode [] = .incomplete := hempty ▸ hdecode
      simp [serving, step, ends, reader?, Codec.decodeAtEnd, hnil, hempty, fail, dropLink, leave,
        closed]
    · simp [serving, step, ends, reader?, Codec.decodeAtEnd, hdecode, hempty, fail, dropLink, leave,
        closed, Codec.remainingBytes]
  | failed detail =>
    cases ha
    cases herror
    simp [serving, step, readFails, reader?, fail, dropLink, leave, closed]

end Connection

/-! ## One question -/

namespace Bench

variable {σ : Type} {b : Bench σ} {c c' : Connection} {stream stream' : σ} {t : Ticket}

/-- The bench after some moves: where the connection and the stream have got to, and what has been
noted on the way. -/
def reach (b : Bench σ) (c : Connection) (stream : σ) (events : Trace) : Bench σ :=
  { b with
    session := { b.session with connection := c }
    stream
    trace := events.reverse ++ b.trace }

/-- The bench rests on an open connection, and these bytes and this end are still to be read: some
have been received, the others the stream brings. -/
structure Resting (holds : σ → Bytes → StreamEnd → Prop) (peer : String) (b : Bench σ)
    (bytes : Bytes) (e : StreamEnd) : Prop where
  poll_none : b.session.poll = none
  quiet : b.outcomes = []
  bytes_eq : ∃ incoming spent unread, bytes = incoming ++ unread ∧ holds b.stream unread e ∧
    b.session.connection = .resting peer ⟨.idle, [], incoming, spent⟩

/-- Nobody uses the open connection of the bench, and nothing is left to be written. What the codec
expects does not matter. -/
structure Unused (holds : σ → Bytes → StreamEnd → Prop) (peer : String) (b : Bench σ)
    (e : StreamEnd) : Prop where
  poll_none : b.session.poll = none
  quiet : b.outcomes = []
  connection_eq : ∃ l unread, l.outgoing = [] ∧ holds b.stream unread e ∧
    b.session.connection = .resting peer l

/-- The bench rests on a connection that has lost its stream. -/
structure Closed (peer : String) (b : Bench σ) : Prop where
  poll_none : b.session.poll = none
  quiet : b.outcomes = []
  connection_eq : b.session.connection = .closed peer

theorem Resting.unused {holds : σ → Bytes → StreamEnd → Prop} {peer : String} {bytes : Bytes}
    {e : StreamEnd} (h : b.Resting holds peer bytes e) : b.Unused holds peer e := by
  obtain ⟨incoming, spent, unread, -, hholds, hconnection⟩ := h.bytes_eq
  exact ⟨h.poll_none, h.quiet, _, unread, rfl, hholds, hconnection⟩

theorem resting_ofStream (peer : String) {holds : σ → Bytes → StreamEnd → Prop} {bytes : Bytes}
    {e : StreamEnd} (h : holds stream bytes e) :
    (ofStream peer stream).Resting holds peer bytes e :=
  ⟨rfl, rfl, [], 0, bytes, rfl, h, rfl⟩

theorem reach_self (hconnection : b.session.connection = c) (hstream : b.stream = stream) :
    b.reach c stream [] = b := by
  rw [← hconnection, ← hstream]
  rfl

/-- Neither the end of a call nor the end of the stream. -/
def IsQuiet (events : Trace) : Prop :=
  ∀ e ∈ events, e ≠ .dropped ∧ ∀ t outcome, e ≠ .settled t outcome

theorem isQuiet_nil : IsQuiet [] := fun _ he ↦ nomatch he

variable [ByteStream σ]

theorem foldl_note_of_quiet {events : Trace} (h : IsQuiet events) (b : Bench σ) :
    events.foldl note b = { b with trace := events.reverse ++ b.trace } := by
  induction events generalizing b with
  | nil => rfl
  | cons e events ih =>
    obtain ⟨hdropped, hsettled⟩ := h e List.mem_cons_self
    rw [List.foldl_cons, ih fun e he ↦ h e (List.mem_cons_of_mem _ he), List.reverse_cons,
      List.append_assoc]
    cases e with
    | dropped => exact absurd rfl hdropped
    | settled t outcome => exact absurd rfl (hsettled t outcome)
    | _ => rfl

variable {events' : Trace} {a : Action}

theorem moves_of_quiet (hpoll : b.session.poll = none) (hb : b.outcomes = [])
    (hnext : c.next? stream = some (a, stream')) (ha : a.isProgress = true)
    (hstep : c.step a = (c', events')) (hquiet : IsQuiet events') (events : Trace) :
    Moves (b.reach c stream events) 1 (b.reach c' stream' (events ++ events')) := by
  refine .single hb ?_
  rw [next?_of_action (b := b.reach c stream events) hpoll hnext ha]
  have hstep : (b.reach c stream events).session.connection.step a = (c', events') := hstep
  rw [hstep, resume, foldl_note_of_quiet hquiet]
  simp [reach]

theorem moves_of_settled {outcome : Outcome} (hpoll : b.session.poll = none) (hb : b.outcomes = [])
    (hnext : c.next? stream = some (a, stream')) (ha : a.isProgress = true)
    (hquiet : IsQuiet events') (hstep : c.step a = (c', events' ++ [.settled t outcome]))
    (events : Trace) :
    Moves (b.reach c stream events) 1
      { b.reach c' stream' (events ++ (events' ++ [.settled t outcome])) with
        outcomes := [(t, outcome)] } := by
  refine .single hb ?_
  rw [next?_of_action (b := b.reach c stream events) hpoll hnext ha]
  have hstep : (b.reach c stream events).session.connection.step a =
      (c', events' ++ [.settled t outcome]) := hstep
  rw [hstep, resume, List.foldl_append, foldl_note_of_quiet hquiet]
  simp [reach, note, hb]

theorem moves_of_dropped {outcome : Outcome} (hpoll : b.session.poll = none) (hb : b.outcomes = [])
    (hnext : c.next? stream = some (a, stream')) (ha : a.isProgress = true)
    (hstep : c.step a = (c', [.dropped, .settled t outcome])) (events : Trace) :
    Moves (b.reach c stream events) 1
      { b.reach c' (ByteStream.hangUp stream') (events ++ [.dropped, .settled t outcome]) with
        outcomes := [(t, outcome)] } := by
  refine .single hb ?_
  rw [next?_of_action (b := b.reach c stream events) hpoll hnext ha]
  have hstep : (b.reach c stream events).session.connection.step a =
      (c', [.dropped, .settled t outcome]) := hstep
  rw [hstep]
  simp [reach, resume, note, hb]

/-! ### Asking -/

variable {peer : String} {command : Command} {l : Link}

theorem moves_write (peer : String) {good : σ → Prop} (hgood : TakesAll good)
    (hpoll : b.session.poll = none) (hb : b.outcomes = []) {k : Caller} (hk : k.stage = .writing)
    (hs : good stream) (events : Trace) :
    ∃ n stream' written, n ≤ l.outgoing.length ∧ good stream' ∧
      Trace.written written = l.outgoing ∧
      Moves (b.reach (.serving peer l k) stream events) n
        (b.reach (.serving peer { l with outgoing := [] } k) stream' (events ++ written)) := by
  -- each write takes a byte at least
  induction hlength : l.outgoing.length using Nat.strongRecOn generalizing l stream events with
  | _ length ih =>
    by_cases hout : l.outgoing = []
    · refine ⟨0, stream, [], Nat.zero_le _, hs, hout.symm, ?_⟩
      have hl : { l with outgoing := [] } = l := by rw [← hout]
      rw [hl, List.append_nil]
      exact .refl _
    obtain ⟨count, stream', hcount, hwrite, hs'⟩ := hgood.write stream l.outgoing hs hout
    have hmove := moves_of_quiet (b := b) hpoll hb (Connection.next?_of_write peer hk hout hwrite)
      rfl (Connection.step_accept peer hk hout (Nat.ne_of_gt hcount)) (by simp [IsQuiet]) events
    have hpos : 0 < l.outgoing.length := List.length_pos_iff.mpr hout
    have hless : (l.taken count).outgoing.length < length := by
      rw [Link.taken, List.length_drop]
      omega
    obtain ⟨n, stream'', written, hn, hs'', hwritten, hmoves⟩ :=
      ih _ hless hs' (events ++ [.accepted (l.outgoing.take count)]) rfl
    refine ⟨1 + n, stream'', .accepted (l.outgoing.take count) :: written, by omega, hs'', ?_, ?_⟩
    · rw [Trace.written_cons, hwritten]
      exact List.take_append_drop count l.outgoing
    · rw [List.append_assoc] at hmoves
      exact hmove.trans hmoves

/-! ### Reading -/

/-- How it stands when a question has been dealt with, where `bytes` were to be read and `e` after
them. -/
inductive Concluded (holds : σ → Bytes → StreamEnd → Prop) (peer : String) (kind : ReplyKind)
    (bytes : Bytes) (e : StreamEnd) (t : Ticket) (b : Bench σ) : Prop where
  /-- The reply has been read, and what follows it is still there. -/
  | replied {reply : Reply} {incoming unread : Bytes} {spent : Nat}
      (hparse : kind.parse? bytes = some (reply, incoming ++ unread))
      (houtcome : b.outcomes = [(t, .reply reply)])
      (hconnection : b.session.connection = .resting peer ⟨.idle, [], incoming, spent⟩)
      (hholds : holds b.stream unread e)
  /-- The reply is not complete, and nothing more comes. -/
  | waits (hparse : kind.parse? bytes = none) (hshort : ¬kind.Overrun bytes) (he : e = .hangs)
      (hstuck : b.Stuck)
  /-- The reply is not complete, and the stream has come to its end. -/
  | fails {error : LinkError} (hparse : kind.parse? bytes = none) (hshort : ¬kind.Overrun bytes)
      (herror : e.failure? peer bytes = some error) (houtcome : b.outcomes = [(t, .failed error)])
      (hconnection : b.session.connection = .closed peer)
  /-- The reply is a string that is too long. -/
  | overruns {l : Link} {unread : Bytes} (hover : kind.Overrun bytes)
      (houtcome : b.outcomes = [(t, .failed (.protocol (.stringTooLong Limit.stringReply)))])
      (hconnection : b.session.connection = .resting peer l) (hout : l.outgoing = [])
      (hholds : holds b.stream unread e)

variable {holds : σ → Bytes → StreamEnd → Prop} {kind : ReplyKind} {e : StreamEnd} {unread : Bytes}

/-- What a task that looks for its reply comes to: an end, or a read. -/
theorem moves_of_delivered (hpoll : b.session.poll = none) (hb : b.outcomes = [])
    (hnext : c.next? stream = some (a, stream')) (ha : a.isProgress = true)
    (hcodec : l.codec.pending = some kind) (hout : l.outgoing = [])
    (hstep : c.step a = Connection.delivered peer l t command (l.codec.decode l.incoming))
    (hholds : holds stream' unread e) (events : Trace) :
    (∃ b', Moves (b.reach c stream events) 1 b' ∧ b'.session.poll = none ∧
        b'.written = b.written ++ events.written ∧
        Concluded holds peer kind (l.incoming ++ unread) e t b') ∨
      kind.parse? l.incoming = none ∧ ¬kind.Overrun l.incoming ∧
        Moves (b.reach c stream events) 1
          (b.reach (.serving peer l ⟨t, .request command, .reading⟩) stream' events) := by
  obtain ⟨reply, rest, hparse, hdecode⟩ | ⟨hparse, hshort, hdecode⟩ | ⟨hparse, hover, hdecode⟩ :=
    Codec.decode_of_pending l.incoming hcodec
  · rw [hdecode] at hstep
    have hend : Connection.resting peer (l.answered rest) =
        .resting peer ⟨.idle, [], rest, (l.answered rest).spent⟩ := by
      rw [Link.answered, hout]
    refine .inl ⟨_, moves_of_settled hpoll hb hnext ha isQuiet_nil hstep events, hpoll, ?_,
      .replied (ReplyKind.parse?_append hparse unread) rfl hend hholds⟩
    simp [written_eq, reach]
  · rw [hdecode] at hstep
    have hmoves := moves_of_quiet (b := b) hpoll hb hnext ha hstep isQuiet_nil events
    rw [List.append_nil] at hmoves
    exact .inr ⟨hparse, hshort, hmoves⟩
  · rw [hdecode] at hstep
    refine .inl ⟨_, moves_of_settled hpoll hb hnext ha isQuiet_nil hstep events, hpoll, ?_,
      .overruns (hover.append unread) rfl rfl hout hholds⟩
    simp [written_eq, reach]

/-- A task that reads comes to its end, or waits for bytes that do not come. -/
theorem concludes_of_reading (hsupply : Supplies holds) (hpoll : b.session.poll = none)
    (hb : b.outcomes = []) (hcodec : l.codec.pending = some kind) (hout : l.outgoing = [])
    (hparse : kind.parse? l.incoming = none) (hshort : ¬kind.Overrun l.incoming)
    (hholds : holds stream unread e) (events : Trace) :
    ∃ n b', n + l.incoming.length ≤ Limit.stringReply + 1 ∧
      Moves (b.reach (.serving peer l ⟨t, .request command, .reading⟩) stream events) n b' ∧
      b'.session.poll = none ∧ b'.written = b.written ++ events.written ∧
      Concluded holds peer kind (l.incoming ++ unread) e t b' := by
  -- each read brings a byte at least, and there is only so much that a task goes on reading
  induction hlength : unread.length using Nat.strongRecOn generalizing l stream unread with
  | _ length ih =>
    have hlimit := ReplyKind.length_le_of_not_overrun hparse hshort
    have hroom : 0 < l.readLimit := l.readLimit_pos (Nat.lt_of_le_of_lt hlimit (by decide))
    by_cases hunread : unread = []
    · subst hunread
      have hdecode := Codec.decode_of_not_overrun hcodec hparse hshort
      obtain ⟨stream', hread⟩ := hsupply.finishes stream e l.readLimit hholds hroom
      have hnext := Connection.next?_of_read peer (k := ⟨t, .request command, .reading⟩) rfl
        hread
      rw [List.append_nil]
      -- all has been received, so all depends on how the stream ends
      cases herror : e.failure? peer l.incoming with
      | none =>
        obtain rfl : e = .hangs := by cases e <;> first | rfl | cases herror
        refine ⟨0, _, by omega, .refl _, hpoll, ?_,
          .waits hparse hshort rfl ⟨hpoll, rfl, hnext, hb⟩⟩
        simp [written_eq, reach]
      | some error =>
        obtain ⟨a, ha, hprogress⟩ : ∃ a, Connection.ofRead e.status = some a ∧
            a.isProgress = true := by
          cases e with
          | hangs => cases herror
          | _ => exact ⟨_, rfl, rfl⟩
        rw [ha] at hnext
        have hstep := Connection.step_end peer t command hdecode ha herror
        refine ⟨1, _, by omega, moves_of_dropped hpoll hb hnext hprogress hstep events, hpoll, ?_,
          .fails hparse hshort herror rfl rfl⟩
        simp [written_eq, reach]
    · obtain ⟨chunk, rest, stream', hchunk, -, rfl, hread, hholds'⟩ :=
        hsupply.brings stream unread e l.readLimit hholds hunread hroom
      have hpos : 0 < chunk.length := List.length_pos_iff.mpr hchunk
      have hnext := Connection.next?_of_read peer (k := ⟨t, .request command, .reading⟩) rfl
        hread
      rcases moves_of_delivered hpoll hb hnext rfl (l := l.received chunk)
        (by rwa [Link.received_codec]) (by rwa [Link.received_outgoing])
        (Connection.step_receive peer hchunk) hholds' events with
        ⟨b', hmoves, hpoll', hwritten, hend⟩ | ⟨hparse', hshort', hmoves⟩
      · rw [Link.received_incoming, List.append_assoc] at hend
        exact ⟨1, b', by omega, hmoves, hpoll', hwritten, hend⟩
      · have hless : rest.length < length := by
          rw [← hlength, List.length_append]
          omega
        obtain ⟨n, b', hn, hmoves', hpoll', hwritten, hend⟩ := ih _ hless
          (by rwa [Link.received_codec]) (by rwa [Link.received_outgoing]) hparse' hshort' hholds'
          rfl
        rw [Link.received_incoming, List.length_append] at hn
        rw [Link.received_incoming, List.append_assoc] at hend
        exact ⟨1 + n, b', by omega, hmoves.trans hmoves', hpoll', hwritten, hend⟩

/-! ### A whole question -/

/-- A host makes a request and waits for its end. -/
def inquire (b : Bench σ) (deadline : Nat) (command : Command) : Option Outcome × Bench σ :=
  (b.enter (.request command)).2.await deadline (b.enter (.request command)).1

/-- The bench when a request has been made on an idle connection. -/
def asking (b : Bench σ) (peer : String) (link : Option Link) (command : Command) : Bench σ :=
  { b with
    session := { b.session with
      nextTicket := b.session.nextTicket + 1
      connection := ⟨peer, link, false, [⟨b.session.nextTicket, .request command, .waiting⟩],
        none⟩ } }

theorem enter_request {link : Option Link} (hpoll : b.session.poll = none)
    (hconnection : b.session.connection = ⟨peer, link, false, [], none⟩)
    (hkind : command.replyKind = some kind) :
    b.enter (.request command) = (b.session.nextTicket, b.asking peer link command) := by
  have hstep : b.session.connection.step (.enter b.session.nextTicket (.request command)) =
      (⟨peer, link, false, [⟨b.session.nextTicket, .request command, .waiting⟩], none⟩, []) := by
    simp [Connection.step, Connection.enter, Call.refusal, hkind, hconnection]
  have hlater : Session.poll { b.session with nextTicket := b.session.nextTicket + 1 } = none :=
    hpoll
  simp only [enter, move, Session.step, stepLink_of_no_poll hlater, hstep, resume, List.foldl_nil,
    asking]

/-- A request is made, and its frame is written. All that is asked of the stream is that it takes
bytes. -/
theorem moves_of_asking {good : σ → Prop} (hgood : TakesAll good) (hs : good b.stream)
    (hpoll : b.session.poll = none) (hb : b.outcomes = [])
    (hconnection : b.session.connection = .serving peer l ⟨t, .request command, .waiting⟩)
    (hidle : l.codec = .idle) (hout : l.outgoing = []) (hkind : command.replyKind = some kind) :
    ∃ n stream' events, n ≤ 3 ∧ good stream' ∧ Trace.written events = command.frame ∧
      Moves b n (b.reach (.serving peer { l with codec := ⟨some kind⟩ }
        ⟨t, .request command, .writing⟩) stream' events) := by
  obtain ⟨hframe, hlength⟩ : command.HasFrame ∧ command.frame.length ≤ 2 :=
    Command.hasFrame_of_replyKind (by simp [hkind])
  -- the lock and the codec take one move, and the frame is written in those that follow
  have hsubmit : l.submit command =
      .ok { l with codec := ⟨some kind⟩, outgoing := command.frame } := by
    have hencode : command.encode = .ok command.frame := hframe
    simp [Link.submit, Codec.encode, hidle, Codec.idle, hencode, Except.map, hkind, hout]
  have hnext : (Connection.serving peer l ⟨t, .request command, .waiting⟩).next? b.stream =
      some (.proceed, b.stream) := Connection.next?_of_waiting peer rfl
  have hproceed := moves_of_quiet (b := b) hpoll hb hnext rfl
    (Connection.step_proceed peer hout hsubmit) (by simp [IsQuiet]) []
  rw [reach_self hconnection rfl, List.nil_append] at hproceed
  obtain ⟨n, stream', written, hn, hs', hwritten, hmoves⟩ := moves_write peer
    (l := { l with codec := ⟨some kind⟩, outgoing := command.frame })
    (k := ⟨t, .request command, .writing⟩) hgood hpoll hb rfl hs [.locked t, .encoded t command]
  refine ⟨1 + n, stream', [.locked t, .encoded t command] ++ written, ?_, hs', ?_,
    hproceed.trans ?_⟩
  · have hn : n ≤ command.frame.length := hn
    omega
  · simpa using hwritten
  · rw [hout]
    exact hmoves

private theorem concludes_of_resting (hsupply : Supplies holds) {bytes : Bytes}
    (h : b.Resting holds peer bytes e) (hkind : command.replyKind = some kind) :
    ∃ n b', n ≤ restLimit ∧ Moves (b.enter (.request command)).2 n b' ∧
      b'.session.poll = none ∧ b'.written = b.written ++ command.frame ∧
      Concluded holds peer kind bytes e b.session.nextTicket b' := by
  obtain ⟨incoming, spent, unread, rfl, hholds, hconnection⟩ := h.bytes_eq
  rw [enter_request h.poll_none hconnection hkind]
  obtain ⟨n, stream', events, hn, hholds, hwritten, hasked⟩ := moves_of_asking
    (b := b.asking peer (some ⟨.idle, [], incoming, spent⟩) command)
    (hsupply.takesAll unread e) hholds h.poll_none h.quiet rfl rfl rfl hkind
  obtain ⟨stream'', hflush, hholds⟩ := (hsupply.takesAll unread e).flush stream' hholds
  have hnext := Connection.next?_of_flush peer
    (l := ⟨⟨some kind⟩, [], incoming, spent⟩)
    (k := ⟨b.session.nextTicket, .request command, .writing⟩) rfl rfl hflush
  rw [← hwritten]
  rcases moves_of_delivered (b := b.asking peer (some ⟨.idle, [], incoming, spent⟩) command)
    (l := ⟨⟨some kind⟩, [], incoming, spent⟩) h.poll_none h.quiet hnext rfl rfl rfl
    (Connection.step_flush peer rfl) hholds events with ⟨b', hend, hpoll, hwritten', hconcluded⟩ |
    ⟨hparse, hshort, hflushed⟩
  · exact ⟨n + 1, b', Nat.le_trans (Nat.succ_le_succ hn) (by decide), hasked.trans hend, hpoll,
      hwritten', hconcluded⟩
  · -- what had been received before does not hold the reply, so the stream is read
    obtain ⟨m, b', hm, hread, hpoll, hwritten', hconcluded⟩ := concludes_of_reading
      (b := b.asking peer (some ⟨.idle, [], incoming, spent⟩) command)
      (l := ⟨⟨some kind⟩, [], incoming, spent⟩) hsupply h.poll_none h.quiet rfl rfl hparse hshort
      hholds events
    refine ⟨n + 1 + m, b', ?_, (hasked.trans hflushed).trans hread, hpoll, hwritten', hconcluded⟩
    have hm : m ≤ Limit.stringReply + 1 := Nat.le_trans (Nat.le_add_right _ _) hm
    exact Nat.le_trans (Nat.add_le_add (Nat.succ_le_succ hn) hm) (by decide)

/-- What a host is told when it asks where `bytes` are to be read and `e` after them, and how it
stands then. -/
inductive Told (holds : σ → Bytes → StreamEnd → Prop) (peer : String) (kind : ReplyKind)
    (bytes : Bytes) (e : StreamEnd) : Option Outcome × Bench σ → Prop where
  | replied {b : Bench σ} {reply : Reply} {rest : Bytes}
      (hparse : kind.parse? bytes = some (reply, rest)) (h : b.Resting holds peer rest e) :
      Told holds peer kind bytes e (some (.reply reply), b)
  | waits {b : Bench σ} (hparse : kind.parse? bytes = none) (hshort : ¬kind.Overrun bytes)
      (he : e = .hangs) : Told holds peer kind bytes e (none, b)
  | fails {b : Bench σ} {error : LinkError} (hparse : kind.parse? bytes = none)
      (hshort : ¬kind.Overrun bytes) (herror : e.failure? peer bytes = some error)
      (h : b.Closed peer) :
      Told holds peer kind bytes e (some (.failed error), b)
  | overruns {b : Bench σ} (hover : kind.Overrun bytes) (h : b.Unused holds peer e) :
      Told holds peer kind bytes e
        (some (.failed (.protocol (.stringTooLong Limit.stringReply))), b)

theorem told_at_once (hsupply : Supplies holds) {bytes : Bytes}
    (h : b.Resting holds peer bytes e) (hkind : command.replyKind = some kind) (deadline : Nat) :
    (b.inquire deadline command).2.written = b.written ++ command.frame ∧
      Told holds peer kind bytes e (b.inquire deadline command) ∧
      ((b.inquire deadline command).1 ≠ none →
        (b.inquire deadline command).2.session.clock = b.session.clock) := by
  obtain ⟨n, b', hn, hmoves, hpoll, hwritten, hconcluded⟩ :=
    concludes_of_resting hsupply h hkind
  have hticket : (b.enter (.request command)).1 = b.session.nextTicket := rfl
  have hclock : b'.session.clock = b.session.clock := by
    obtain ⟨incoming, spent, unread, -, -, hconnection⟩ := h.bytes_eq
    rw [hmoves.clock_eq, enter_request h.poll_none hconnection hkind]
    rfl
  rw [inquire, hticket]
  cases hconcluded with
  | @replied reply incoming unread spent hparse houtcome hconnection hholds =>
    rw [await_of_moves hmoves hn houtcome]
    refine ⟨hwritten, .replied hparse ?_, fun _ ↦ hclock⟩
    exact ⟨hpoll, rfl, incoming, spent, unread, rfl, hholds, hconnection⟩
  | waits hparse hshort he hstuck =>
    obtain ⟨hnone, hsame⟩ := await_of_stuck (t := b.session.nextTicket) hmoves hn hstuck deadline
    generalize (b.enter (.request command)).2.await deadline b.session.nextTicket = told
      at hnone hsame ⊢
    obtain ⟨_, b''⟩ := told
    cases hnone
    exact ⟨hsame.trans hwritten, .waits hparse hshort he, fun h ↦ absurd rfl h⟩
  | fails hparse hshort herror houtcome hconnection =>
    rw [await_of_moves hmoves hn houtcome]
    exact ⟨hwritten, .fails hparse hshort herror ⟨hpoll, rfl, hconnection⟩, fun _ ↦ hclock⟩
  | @overruns l unread hover houtcome hconnection hout hholds =>
    rw [await_of_moves hmoves hn houtcome]
    exact ⟨hwritten, .overruns hover ⟨hpoll, rfl, l, unread, hout, hholds, hconnection⟩,
      fun _ ↦ hclock⟩

/-- **One question.** Its frame is written, and what the host is told depends only on what is to be
read, except that a string that is too long may or may not be found out. -/
theorem told_of_resting (hsupply : Supplies holds) {bytes : Bytes}
    (h : b.Resting holds peer bytes e) (hkind : command.replyKind = some kind) (deadline : Nat) :
    (b.inquire deadline command).2.written = b.written ++ command.frame ∧
      Told holds peer kind bytes e (b.inquire deadline command) := by
  obtain ⟨hwritten, htold, -⟩ := told_at_once hsupply h hkind deadline
  exact ⟨hwritten, htold⟩

theorem told_of_closed (h : b.Closed peer) (hkind : command.replyKind = some kind)
    (deadline : Nat) :
    ∃ b', b.inquire deadline command = (some (.failed .notConnected), b') ∧
      b'.written = b.written ∧ b'.Closed peer := by
  have hnext : Connection.next? ⟨peer, none, false,
      [⟨b.session.nextTicket, .request command, .waiting⟩], none⟩ b.stream =
        some (.proceed, b.stream) := by
    simp [Connection.next?, Connection.serving?]
  have hstep : Connection.step ⟨peer, none, false,
      [⟨b.session.nextTicket, .request command, .waiting⟩], none⟩ .proceed =
        (.closed peer, [.locked b.session.nextTicket] ++
          [.settled b.session.nextTicket (.failed .notConnected)]) := by
    simp [Connection.step, Connection.proceed, Connection.heedAbort, Connection.serve,
      Connection.leave, Connection.closed]
  have hmoves : Moves (b.asking peer none command) 1 _ :=
    moves_of_settled (b := b.asking peer none command) h.poll_none h.quiet hnext rfl
      (by simp [IsQuiet]) hstep []
  have htold := await_of_moves hmoves (by decide) rfl deadline
  rw [inquire, enter_request h.poll_none h.connection_eq hkind]
  exact ⟨_, htold, by simp [written_eq, reach, asking], h.poll_none, rfl, rfl⟩

/-- **A reply that has already been received** is returned whatever the stream would bring. All that
is asked of the stream is that it takes bytes. -/
theorem told_of_received {good : σ → Prop} (hgood : TakesAll good) (hs : good b.stream)
    (hpoll : b.session.poll = none) (hb : b.outcomes = []) {incoming rest : Bytes} {spent : Nat}
    {reply : Reply}
    (hconnection : b.session.connection = .resting peer ⟨.idle, [], incoming, spent⟩)
    (hkind : command.replyKind = some kind) (hparse : kind.parse? incoming = some (reply, rest))
    (deadline : Nat) :
    ∃ b' spent', b.inquire deadline command = (some (.reply reply), b') ∧ good b'.stream ∧
      b'.session.connection = .resting peer ⟨.idle, [], rest, spent'⟩ := by
  obtain ⟨n, stream', events, hn, hs, hwritten, hasked⟩ := moves_of_asking
    (b := b.asking peer (some ⟨.idle, [], incoming, spent⟩) command) hgood hs hpoll hb rfl rfl rfl
    hkind
  obtain ⟨stream'', hflush, hs⟩ := hgood.flush stream' hs
  have hnext := Connection.next?_of_flush peer
    (l := ⟨⟨some kind⟩, [], incoming, spent⟩)
    (k := ⟨b.session.nextTicket, .request command, .writing⟩) rfl rfl hflush
  have hdecode : Codec.decode ⟨some kind⟩ incoming = .reply reply rest :=
    Codec.decode_of_parse? rfl hparse
  have hstep : (Connection.serving peer ⟨⟨some kind⟩, [], incoming, spent⟩
      ⟨b.session.nextTicket, .request command, .writing⟩).step .flush =
        (.resting peer (Link.answered ⟨⟨some kind⟩, [], incoming, spent⟩ rest),
          [.settled b.session.nextTicket (.reply reply)]) := by
    rw [Connection.step_flush peer rfl, hdecode]
    rfl
  have hsettled := moves_of_settled
    (b := b.asking peer (some ⟨.idle, [], incoming, spent⟩) command) hpoll hb hnext rfl isQuiet_nil
    hstep events
  have hmoves := hasked.trans hsettled
  have hn : n + 1 ≤ restLimit := Nat.le_trans (Nat.succ_le_succ hn) (by decide)
  have htold := await_of_moves hmoves hn rfl deadline
  rw [inquire, enter_request hpoll hconnection hkind]
  exact ⟨_, _, htold, hs, rfl⟩

end Bench

end PinballBoard
