import Mathlib.Data.List.Basic
import PinballBoard.Link.Connection

/-!
# What one step can do to a connection

`Connection.step` is written for whoever runs a connection: a chain of small functions that each ask
what the connection looks like. Proofs about all runs need the same facts the other way round: given
that something has happened, what did the connection look like, and what does it look like now?

`Change c a c' events` lists the answers. Each constructor is one thing that can happen, with all
that is then known of the connection before it. `change_step` says that the list is complete, and is
the only place where the functions behind `step` are opened.

## How the cases are cut

Two situations can be reached from several actions, and each is told once. A command is handed to
the codec when its task gets the lock, or when the backlog in front of it has gone (`Admits`). A
reply is looked for when the frame has been passed on, or when the stream has brought bytes or its
end (`Awaits`). The stream can fail in many ways, but it fails in one.
-/

namespace PinballBoard

/-! ## Calls -/

/-- The command of a call, if it has one. -/
def Call.command? : Call → Option Command
  | .send command | .request command => some command
  | .probe | .close => none

/-- How a call ends on a connection without a stream. -/
def Call.closedOutcome : Call → Outcome
  | .probe => .isOpen false
  | .close => .done
  | .send _ | .request _ => .failed .notConnected

/-- The event of dropping a stream, if there is one to drop. -/
def droppedEvents : Option Link → List Event
  | some _ => [.dropped]
  | none => []

theorem Codec.decode_failed {codec : Codec} {received : Bytes} {e : ProtocolError}
    (h : codec.decode received = .failed e) :
    e = .unsolicited received.length ∨ e = .stringTooLong Limit.stringReply := by
  unfold decode at h
  split at h
  · split at h
    · cases h
    · cases h
      exact .inl rfl
  · split at h <;> cases h
  · split at h
    · cases h
    · split at h
      · cases h
        exact .inr rfl
      · cases h

theorem Codec.decode_ne_io (codec : Codec) (received : Bytes) (detail : String) :
    codec.decode received ≠ .failed (.io detail) := by
  intro h
  rcases decode_failed h with h | h <;> cases h

@[simp] theorem Link.received_codec (l : Link) (chunk : Bytes) :
    (l.received chunk).codec = l.codec := by
  unfold received makeRoom
  split <;> rfl

@[simp] theorem Link.received_outgoing (l : Link) (chunk : Bytes) :
    (l.received chunk).outgoing = l.outgoing := by
  unfold received makeRoom
  split <;> rfl

@[simp] theorem Link.received_incoming (l : Link) (chunk : Bytes) :
    (l.received chunk).incoming = l.incoming ++ chunk := rfl

namespace Connection

/-- The task at the head hands its command to the codec in this step, which notes `pre` first. -/
inductive Admits (c : Connection) (caller : Caller) (l : Link) : Action → List Event → Prop where
  | atOnce (hstage : caller.stage = .waiting) (hopen : c.aborted = false)
      (hroom : l.outgoing.length < backlogLimit) :
      Admits c caller l .proceed [.locked caller.ticket]
  | drained (hstage : caller.stage = .draining) (hempty : l.outgoing = []) :
      Admits c caller l .flush []

/-- The task at the head looks for its reply in this step, at a stream that has become `l'`. -/
inductive Awaits (caller : Caller) (l : Link) : Action → Link → Prop where
  | sent (command : Command) (hcall : caller.call = .request command)
      (hstage : caller.stage = .writing) (hempty : l.outgoing = []) :
      Awaits caller l .flush l
  | fed (chunk : Bytes) (hstage : caller.stage = .reading) (hchunk : chunk ≠ []) :
      Awaits caller l (.receive chunk) (l.received chunk)
  | ended (hstage : caller.stage = .reading) (hreply : l.codec.decode l.incoming ≠ .incomplete) :
      Awaits caller l .ends l

/-- All that one step can do to a connection, and what is noted of it. -/
inductive Change : Connection → Action → Connection → List Event → Prop where
  /-- The action does not apply. What the stream brings to a task that reads always does. -/
  | idle {c : Connection} {a : Action}
      (hidle : ∀ chunk, a = .receive chunk → chunk = [] ∨ c.reader? = none) : Change c a c []
  /-- A call is not put in line. -/
  | refused {c : Connection} {ticket : Ticket} {call : Call} {e : LinkError}
      (h : call.refusal = some e) :
      Change c (.enter ticket call) c [.settled ticket (.failed e)]
  /-- A call is put in line. -/
  | queued {c : Connection} {ticket : Ticket} {call : Call} (h : call.refusal = none) :
      Change c (.enter ticket call) { c with line := c.line ++ [⟨ticket, call, .waiting⟩] } []
  /-- A task gets the lock and finds no stream, or drops it. -/
  | foundClosed {c : Connection} {caller : Caller} {rest : List Caller}
      (hline : c.line = caller :: rest) (hstage : caller.stage = .waiting)
      (hclosed : c.link = none ∨ c.aborted = true) :
      Change c .proceed { c with link := none, line := rest }
        (.locked caller.ticket :: droppedEvents c.link ++
          [.settled caller.ticket caller.call.closedOutcome])
  /-- A task gets the lock and has found the stream open. -/
  | foundOpen {c : Connection} {caller : Caller} {rest : List Caller} {l : Link}
      (hline : c.line = caller :: rest) (hstage : caller.stage = .waiting)
      (hlink : c.link = some l) (hopen : c.aborted = false) (hcall : caller.call = .probe) :
      Change c .proceed { c with line := rest }
        [.locked caller.ticket, .settled caller.ticket (.isOpen true)]
  /-- A task gets the lock and takes the stream away to end it. -/
  | takesStream {c : Connection} {caller : Caller} {rest : List Caller} {l : Link}
      (hline : c.line = caller :: rest) (hstage : caller.stage = .waiting)
      (hlink : c.link = some l) (hopen : c.aborted = false) (hcall : caller.call = .close) :
      Change c .proceed
        { c with
          link := none
          line := rest
          closer := some ⟨caller.ticket, l, .flushing, closingPatience⟩ }
        [.locked caller.ticket]
  /-- A task gets the lock and finds too much in front of its frame. -/
  | drains {c : Connection} {caller : Caller} {rest : List Caller} {l : Link} {command : Command}
      (hline : c.line = caller :: rest) (hstage : caller.stage = .waiting)
      (hlink : c.link = some l) (hopen : c.aborted = false)
      (hcall : caller.call.command? = some command) (hroom : backlogLimit ≤ l.outgoing.length) :
      Change c .proceed { c with line := { caller with stage := .draining } :: rest }
        [.locked caller.ticket]
  /-- The codec accepts the command of the task at the head. -/
  | encodes {c : Connection} {a : Action} {pre : List Event} {caller : Caller}
      {rest : List Caller} {l l' : Link} {command : Command}
      (hline : c.line = caller :: rest) (hlink : c.link = some l)
      (hcall : caller.call.command? = some command) (hfrom : Admits c caller l a pre)
      (hsubmit : l.submit command = .ok l') :
      Change c a { c with link := some l', line := { caller with stage := .writing } :: rest }
        (pre ++ [.encoded caller.ticket command])
  /-- The codec refuses the command of the task at the head. -/
  | rejects {c : Connection} {a : Action} {pre : List Event} {caller : Caller}
      {rest : List Caller} {l : Link} {command : Command} {e : ProtocolError}
      (hline : c.line = caller :: rest) (hlink : c.link = some l)
      (hcall : caller.call.command? = some command) (hfrom : Admits c caller l a pre)
      (hsubmit : l.submit command = .error e) :
      Change c a { c with line := rest } (pre ++ [.settled caller.ticket (.failed (.protocol e))])
  /-- The stream takes bytes of the task at the head. -/
  | accepts {c : Connection} {caller : Caller} {rest : List Caller} {l : Link} {count : Nat}
      (hline : c.line = caller :: rest) (hlink : c.link = some l)
      (hstage : caller.stage = .draining ∨ caller.stage = .writing) (hcount : count ≠ 0) :
      Change c (.accept count) { c with link := some (l.taken count) }
        [.accepted (l.outgoing.take count)]
  /-- The frame of a command without a reply has been passed on. -/
  | sent {c : Connection} {caller : Caller} {rest : List Caller} {l : Link} {command : Command}
      (hline : c.line = caller :: rest) (hlink : c.link = some l)
      (hcall : caller.call = .send command) (hstage : caller.stage = .writing)
      (hempty : l.outgoing = []) :
      Change c .flush { c with line := rest } [.settled caller.ticket .done]
  /-- The received bytes hold the reply. -/
  | replied {c : Connection} {a : Action} {caller : Caller} {rest : List Caller} {l l' : Link}
      {reply : Reply} {left : Bytes}
      (hline : c.line = caller :: rest) (hlink : c.link = some l) (hfrom : Awaits caller l a l')
      (hdecode : l'.codec.decode l'.incoming = .reply reply left) :
      Change c a { c with link := some (l'.answered left), line := rest }
        [.settled caller.ticket (.reply reply)]
  /-- The received bytes do not hold all of the reply. -/
  | waits {c : Connection} {a : Action} {caller : Caller} {rest : List Caller} {l l' : Link}
      (hline : c.line = caller :: rest) (hlink : c.link = some l) (hfrom : Awaits caller l a l')
      (hdecode : l'.codec.decode l'.incoming = .incomplete) :
      Change c a { c with link := some l', line := { caller with stage := .reading } :: rest } []
  /-- The received bytes are no reply. -/
  | misreads {c : Connection} {a : Action} {caller : Caller} {rest : List Caller} {l l' : Link}
      {e : ProtocolError}
      (hline : c.line = caller :: rest) (hlink : c.link = some l) (hfrom : Awaits caller l a l')
      (hdecode : l'.codec.decode l'.incoming = .failed e) :
      Change c a { c with link := some l', line := rest }
        [.settled caller.ticket (.failed (.protocol e))]
  /-- The stream fails the task at the head. -/
  | breaks {c : Connection} {a : Action} {caller : Caller} {rest : List Caller} {l : Link}
      {e : LinkError}
      (hline : c.line = caller :: rest) (hlink : c.link = some l)
      (hstage : caller.stage ≠ .waiting) (herror : e.isTransport = true ∧ e ≠ .notConnected) :
      Change c a { c with link := none, line := rest }
        [.dropped, .settled caller.ticket (.failed e)]
  /-- A task gives its call up, and a reply with it. -/
  | deserts {c : Connection} {ticket : Ticket} {caller : Caller}
      (hmem : caller ∈ c.line) (hticket : caller.ticket = ticket)
      (howes : caller.owesReply = true) :
      Change c (.cancel ticket)
        { c with
          link := none
          line := c.line.filter (·.ticket != ticket)
          closer := c.closer.filter (·.ticket != ticket) }
        (droppedEvents c.link ++
          droppedEvents ((c.closer.filter (·.ticket == ticket)).map (·.link)))
  /-- A task gives its call up, and nothing else. -/
  | retires {c : Connection} {ticket : Ticket}
      (howes : ∀ caller ∈ c.line, caller.ticket = ticket → caller.owesReply = false) :
      Change c (.cancel ticket)
        { c with
          line := c.line.filter (·.ticket != ticket)
          closer := c.closer.filter (·.ticket != ticket) }
        (droppedEvents ((c.closer.filter (·.ticket == ticket)).map (·.link)))
  /-- The connection is given up while nobody holds the lock. -/
  | abortsFree {c : Connection} (hline : c.line = []) :
      Change c .abort { c with link := none, aborted := true } (droppedEvents c.link)
  /-- The connection is given up while somebody holds the lock. -/
  | abortsBusy {c : Connection} (hline : c.line ≠ []) :
      Change c .abort { c with aborted := true } []
  /-- The stream takes bytes of the task that ends it. -/
  | closerAccepts {c : Connection} {closer : Closer} {count : Nat}
      (hcloser : c.closer = some closer) (hstage : closer.stage = .flushing)
      (hcount : count ≠ 0) :
      Change c (.closerAccept closer.ticket count)
        { c with closer := some { closer with link := closer.link.taken count } }
        [.accepted (closer.link.outgoing.take count)]
  /-- The stream is told to shut down. -/
  | closerShuts {c : Connection} {a : Action} {closer : Closer}
      (hcloser : c.closer = some closer) (hstage : closer.stage = .flushing)
      (hflush : ∀ t, a = .closerFlush t → closer.link.outgoing = []) :
      Change c a
        { c with
          closer := some { closer with stage := .shuttingDown, patience := closingPatience } }
        [.shutdown]
  /-- Time passes for the task that ends the stream. -/
  | closerWaits {c : Connection} {closer : Closer} {ms : Nat} (hcloser : c.closer = some closer)
      (hpatience : ms < closer.patience) :
      Change c (.elapse ms)
        { c with closer := some { closer with patience := closer.patience - ms } } []
  /-- The task that ends the stream is done. -/
  | closerEnds {c : Connection} {a : Action} {closer : Closer} (hcloser : c.closer = some closer)
      (hstage : closer.stage = .shuttingDown) :
      Change c a { c with closer := none } [.dropped, .settled closer.ticket .done]

/-! ## The list is complete -/

variable {c : Connection} {caller : Caller} {rest : List Caller} {l l' : Link}

theorem command?_eq_none_iff {call : Call} :
    call.command? = none ↔ call = .probe ∨ call = .close := by
  cases call <;> simp [Call.command?]

private theorem fail_eq (hline : c.line = caller :: rest) (hlink : c.link = some l)
    (e : LinkError) :
    c.fail e = ({ c with link := none, line := rest },
      [.dropped, .settled caller.ticket (.failed e)]) := by
  simp [fail, dropLink, leave, hline, hlink]

private theorem leave_eq (hline : c.line = caller :: rest) (outcome : Outcome) :
    c.leave outcome = ({ c with line := rest }, [.settled caller.ticket outcome]) := by
  simp [leave, hline]

private theorem change_fail {a : Action} {e : LinkError} (hline : c.line = caller :: rest)
    (hlink : c.link = some l) (hstage : caller.stage ≠ .waiting)
    (herror : e.isTransport = true ∧ e ≠ .notConnected) :
    Change c a (c.fail e).1 (c.fail e).2 := by
  rw [fail_eq hline hlink]
  exact .breaks hline hlink hstage herror

private theorem change_submit {a : Action} {pre : List Event} {command : Command}
    (hline : c.line = caller :: rest) (hlink : c.link = some l)
    (hcall : caller.call.command? = some command) (hfrom : Admits c caller l a pre) :
    Change c a (c.submit l caller command).1 (pre ++ (c.submit l caller command).2) := by
  cases hsubmit : l.submit command with
  | ok l' =>
    simp only [submit, hsubmit, setStage, hline]
    exact .encodes hline hlink hcall hfrom hsubmit
  | error e =>
    simp only [submit, hsubmit, leave_eq hline]
    exact .rejects hline hlink hcall hfrom hsubmit

private theorem change_deliver {a : Action} (hline : c.line = caller :: rest)
    (hlink : c.link = some l) (hfrom : Awaits caller l a l') :
    let c' := { c with link := some l', line := { caller with stage := .reading } :: rest }
    Change c a (c'.deliver l').1 (c'.deliver l').2 := by
  intro c'
  cases hdecode : l'.codec.decode l'.incoming with
  | reply reply left =>
    have h := Change.replied hline hlink hfrom hdecode
    simpa only [deliver, hdecode, leave, c'] using h
  | incomplete =>
    simp only [deliver, hdecode]
    exact .waits hline hlink hfrom hdecode
  | failed e =>
    have he : LinkError.ofProtocol e = .protocol e := by
      cases e with
      | io detail => exact absurd hdecode (Codec.decode_ne_io _ _ _)
      | _ => rfl
    have h := Change.misreads hline hlink hfrom hdecode
    simpa only [deliver, hdecode, leave, he, c'] using h

/-- What a task finds that gets the lock without a stream, or loses it in that moment. -/
private theorem heedAbort_of_closed (hclosed : c.link = none ∨ c.aborted = true) :
    c.heedAbort = ({ c with link := none }, droppedEvents c.link) := by
  cases hlink : c.link with
  | none =>
    have hc : c = { c with link := none } := by rw [← hlink]
    by_cases h : c.aborted = true <;> simp [heedAbort, dropLink, hlink, droppedEvents, ← hc]
  | some l =>
    have haborted : c.aborted = true := by simpa [hlink] using hclosed
    simp [heedAbort, dropLink, hlink, haborted, droppedEvents]

private theorem serve_closed (hline : c.line = caller :: rest) :
    { c with link := none }.serve caller =
      ({ c with link := none, line := rest },
        [.settled caller.ticket caller.call.closedOutcome]) := by
  cases hcall : caller.call <;> simp [serve, hcall, leave, hline, Call.closedOutcome]

private theorem change_serve (hline : c.line = caller :: rest) (hstage : caller.stage = .waiting)
    (hlink : c.link = some l) (hopen : c.aborted = false) :
    Change c .proceed (c.serve caller).1 (.locked caller.ticket :: (c.serve caller).2) := by
  cases hcommand : caller.call.command? with
  | none =>
    rcases command?_eq_none_iff.mp hcommand with hcall | hcall
    · have h := Change.foundOpen hline hstage hlink hopen hcall
      simpa only [serve, hcall, leave_eq hline, hlink, Option.isSome_some] using h
    · simp only [serve, hcall, hlink, beginClose, hline, List.tail_cons]
      exact .takesStream hline hstage hlink hopen hcall
  | some command =>
    have hserve : c.serve caller =
        if backlogLimit ≤ l.outgoing.length then (c.setStage .draining, [])
        else c.submit l caller command := by
      cases hcall : caller.call <;> simp_all [serve, Call.command?]
    by_cases hroom : backlogLimit ≤ l.outgoing.length
    · simp only [hserve, if_pos hroom, setStage, hline]
      exact .drains hline hstage hlink hopen hcommand hroom
    · simp only [hserve, if_neg hroom]
      exact change_submit hline hlink hcommand (.atOnce hstage hopen (Nat.lt_of_not_le hroom))

private theorem change_proceed (c : Connection) : Change c .proceed c.proceed.1 c.proceed.2 := by
  unfold proceed
  split
  · rename_i caller rest hline
    split
    · rename_i hstage
      by_cases hclosed : c.link = none ∨ c.aborted = true
      · simp only [heedAbort_of_closed hclosed, serve_closed hline]
        exact .foundClosed hline hstage hclosed
      · -- there is nothing to heed on a stream that has not been given up
        obtain ⟨hlink, hopen⟩ := not_or.mp hclosed
        obtain ⟨l, hlink⟩ := Option.ne_none_iff_exists'.mp hlink
        have hheed : c.heedAbort = (c, []) := by simp [heedAbort, hopen]
        rw [hheed]
        exact change_serve hline hstage hlink (by simpa using hopen)
    · exact .idle (by simp)
  · exact .idle (by simp)

/-! ### The stream and the task at the head -/

theorem writer?_eq_some (h : c.writer? = some (caller, l)) :
    ∃ rest, c.line = caller :: rest ∧ c.link = some l ∧
      (caller.stage = .draining ∨ caller.stage = .writing) := by
  unfold writer? at h
  split at h
  · rename_i caller' rest l' hline hlink
    split at h
    · rename_i hstage
      obtain ⟨rfl, rfl⟩ : caller' = caller ∧ l' = l := by simpa using h
      exact ⟨rest, hline, hlink, hstage⟩
    · simp at h
  · simp at h

theorem reader?_eq_some (h : c.reader? = some (caller, l)) :
    ∃ rest, c.line = caller :: rest ∧ c.link = some l ∧ caller.stage = .reading := by
  unfold reader? at h
  split at h
  · rename_i caller' rest l' hline hlink
    split at h
    · rename_i hstage
      obtain ⟨rfl, rfl⟩ : caller' = caller ∧ l' = l := by simpa using h
      exact ⟨rest, hline, hlink, hstage⟩
    · simp at h
  · simp at h

private theorem busy_of_writer (h : caller.stage = .draining ∨ caller.stage = .writing) :
    caller.stage ≠ .waiting := by
  rcases h with h | h <;> simp [h]

private theorem change_accept (c : Connection) (count : Nat) :
    Change c (.accept count) (c.accept count).1 (c.accept count).2 := by
  unfold accept
  split
  · exact .idle (by simp)
  · rename_i caller l hwriter
    obtain ⟨rest, hline, hlink, hstage⟩ := writer?_eq_some hwriter
    split
    · exact .idle (by simp)
    · split
      · exact change_fail hline hlink (busy_of_writer hstage) ⟨rfl, by simp [writeZero]⟩
      · rename_i hcount
        exact .accepts hline hlink hstage hcount

private theorem change_flush (c : Connection) : Change c .flush c.flush.1 c.flush.2 := by
  unfold flush
  split
  · rename_i caller l hwriter
    obtain ⟨rest, hline, hlink, hstage⟩ := writer?_eq_some hwriter
    split
    · rename_i hempty
      rcases hstage with hstage | hstage
      · cases hcommand : caller.call.command? with
        | none =>
          rcases command?_eq_none_iff.mp hcommand with hcall | hcall <;>
            simpa only [flushed, hstage, hcall] using Change.idle (by simp)
        | some command =>
          have hflushed : c.flushed l caller = c.submit l caller command := by
            cases hcall : caller.call <;> simp_all [flushed, Call.command?]
          rw [hflushed]
          exact change_submit hline hlink hcommand (.drained hstage hempty)
      · cases hcall : caller.call with
        | send command =>
          simp only [flushed, hstage, hcall, leave_eq hline]
          exact .sent hline hlink hcall hstage hempty
        | request command =>
          have h := change_deliver hline hlink (.sent command hcall hstage hempty)
          simpa only [flushed, hstage, hcall, setStage, hline, ← hlink] using h
        | probe => simpa only [flushed, hstage, hcall] using Change.idle (by simp)
        | close => simpa only [flushed, hstage, hcall] using Change.idle (by simp)
    · exact .idle (by simp)
  · exact .idle (by simp)

private theorem change_writeFails (c : Connection) (detail : String) :
    Change c (.writeFails detail) (c.writeFails detail).1 (c.writeFails detail).2 := by
  unfold writeFails
  split
  · rename_i writer hwriter
    obtain ⟨rest, hline, hlink, hstage⟩ := writer?_eq_some hwriter
    exact change_fail hline hlink (busy_of_writer hstage) ⟨rfl, by simp⟩
  · exact .idle (by simp)

private theorem change_receive (c : Connection) (chunk : Bytes) :
    Change c (.receive chunk) (c.receive chunk).1 (c.receive chunk).2 := by
  unfold receive
  split
  · rename_i caller l hreader
    obtain ⟨rest, hline, hlink, hstage⟩ := reader?_eq_some hreader
    split
    · rename_i hchunk
      exact .idle (by simp [hchunk])
    · rename_i hchunk
      have hsame : c.line = { caller with stage := .reading } :: rest := by rw [← hstage, hline]
      have h := change_deliver hline hlink (.fed chunk hstage hchunk)
      simpa only [← hsame] using h
  · rename_i hreader
    exact .idle (by simp [hreader])

private theorem change_ends (c : Connection) : Change c .ends c.ends.1 c.ends.2 := by
  unfold ends
  split
  · rename_i caller l hreader
    obtain ⟨rest, hline, hlink, hstage⟩ := reader?_eq_some hreader
    have hbusy : caller.stage ≠ .waiting := by simp [hstage]
    -- at the end of the stream the codec is asked once more about what has been received
    cases hdecode : l.codec.decode l.incoming with
    | reply reply left =>
      simp only [Codec.decodeAtEnd, hdecode, leave, hline]
      exact .replied hline hlink (.ended hstage (by simp [hdecode])) hdecode
    | incomplete =>
      by_cases hempty : l.incoming = []
      · simp only [Codec.decodeAtEnd, hdecode, if_pos hempty]
        exact change_fail hline hlink hbusy ⟨rfl, by simp⟩
      · simp only [Codec.decodeAtEnd, hdecode, if_neg hempty, Codec.remainingBytes]
        exact change_fail hline hlink hbusy ⟨rfl, by simp⟩
    | failed e =>
      have h := Change.misreads hline hlink (.ended hstage (by simp [hdecode])) hdecode
      cases e with
      | io detail => exact absurd hdecode (Codec.decode_ne_io _ _ _)
      | _ => simpa only [Codec.decodeAtEnd, hdecode, leave_eq hline, hlink] using h
  · exact .idle (by simp)

private theorem change_readFails (c : Connection) (detail : String) :
    Change c (.readFails detail) (c.readFails detail).1 (c.readFails detail).2 := by
  unfold readFails
  split
  · rename_i reader hreader
    obtain ⟨rest, hline, hlink, hstage⟩ := reader?_eq_some hreader
    exact change_fail hline hlink (by simp [hstage]) ⟨rfl, by simp⟩
  · exact .idle (by simp)

/-! ### Tasks that give up -/

private theorem map_dropped_toList (closer : Option Closer) :
    closer.toList.map (fun _ ↦ Event.dropped) = droppedEvents (closer.map (·.link)) := by
  cases closer <;> rfl

private theorem change_cancel (c : Connection) (ticket : Ticket) :
    Change c (.cancel ticket) (c.cancel ticket).1 (c.cancel ticket).2 := by
  unfold cancel
  simp only [map_dropped_toList]
  by_cases howed : (c.line.any fun caller ↦ caller.ticket == ticket && caller.owesReply) = true
  · obtain ⟨caller, hmem, hcaller⟩ := List.any_eq_true.mp howed
    obtain ⟨hticket, howes⟩ : caller.ticket = ticket ∧ caller.owesReply = true := by
      simpa using hcaller
    have h := Change.deserts hmem hticket howes
    cases hlink : c.link with
    | none =>
      have hc : c.dropLink = (c, []) := by simp [dropLink, hlink]
      simpa only [if_pos howed, hc, hlink, droppedEvents] using h
    | some l =>
      have hc : c.dropLink = ({ c with link := none }, [.dropped]) := by simp [dropLink, hlink]
      simpa only [if_pos howed, hc, hlink, droppedEvents] using h
  · simp only [if_neg howed, List.nil_append]
    refine .retires fun caller hmem hticket ↦ ?_
    have hall : ∀ k ∈ c.line, k.ticket = ticket → ¬k.owesReply = true := by simpa using howed
    exact Bool.not_eq_true _ ▸ hall caller hmem hticket

private theorem change_abort (c : Connection) : Change c .abort c.abort.1 c.abort.2 := by
  unfold abort isFree
  by_cases hline : c.line = []
  · have h := Change.abortsFree hline
    cases hlink : c.link <;> simpa [hline, dropLink, hlink, droppedEvents] using h
  · have h := Change.abortsBusy hline
    simpa [hline] using h

/-! ### The task that ends the stream -/

/-- What the task that ends the stream makes of a step, in the terms of `updateCloser`. -/
private theorem change_updateCloser {a : Action} {ticket : Ticket}
    {f : Closer → Option Closer × List Event} (ha : ∀ chunk, a ≠ .receive chunk)
    (h : ∀ closer, c.closer = some closer → closer.ticket = ticket →
      Change c a { c with closer := (f closer).1 }
        ((f closer).2 ++ if (f closer).1 = none then [.dropped, .settled ticket .done] else [])) :
    Change c a (c.updateCloser ticket f).1 (c.updateCloser ticket f).2 := by
  unfold updateCloser
  split
  · rename_i closer hcloser
    split
    · rename_i hticket
      have h := h closer hcloser hticket
      rcases hf : f closer with ⟨_ | next, events⟩ <;> simpa [hf] using h
    · exact .idle fun chunk h ↦ absurd h (ha chunk)
  · exact .idle fun chunk h ↦ absurd h (ha chunk)

private theorem change_closer_idle {a : Action} {closer : Closer}
    (ha : ∀ chunk, a ≠ .receive chunk) (hcloser : c.closer = some closer) :
    Change c a { c with closer := some closer } [] := by
  have h := Change.idle (c := c) fun chunk h ↦ absurd h (ha chunk)
  rw [← hcloser]
  exact h

private theorem change_closerAccept (c : Connection) (ticket : Ticket) (count : Nat) :
    Change c (.closerAccept ticket count)
      (c.closerAccept ticket count).1 (c.closerAccept ticket count).2 := by
  refine change_updateCloser (by simp) fun closer hcloser hticket ↦ ?_
  subst hticket
  by_cases hstage : closer.stage = .flushing ∧ closer.link.outgoing ≠ []
  · by_cases hcount : count = 0
    · simpa [hstage, hcount, Closer.shutDown] using .closerShuts hcloser hstage.1 (by simp)
    · have h := Change.closerAccepts hcloser hstage.1 hcount
      simpa [hstage, hcount] using h
  · simpa [hstage] using change_closer_idle (by simp) hcloser

private theorem change_closerFlush (c : Connection) (ticket : Ticket) :
    Change c (.closerFlush ticket) (c.closerFlush ticket).1 (c.closerFlush ticket).2 := by
  refine change_updateCloser (by simp) fun closer hcloser hticket ↦ ?_
  by_cases hstage : closer.stage = .flushing ∧ closer.link.outgoing = []
  · simpa [hstage, Closer.shutDown] using .closerShuts hcloser hstage.1 fun _ _ ↦ hstage.2
  · simpa [hstage] using change_closer_idle (by simp) hcloser

private theorem change_closerWriteFails (c : Connection) (ticket : Ticket) :
    Change c (.closerWriteFails ticket)
      (c.closerWriteFails ticket).1 (c.closerWriteFails ticket).2 := by
  refine change_updateCloser (by simp) fun closer hcloser hticket ↦ ?_
  by_cases hstage : closer.stage = .flushing
  · simpa [hstage, Closer.shutDown] using .closerShuts hcloser hstage (by simp)
  · simpa [hstage] using change_closer_idle (by simp) hcloser

private theorem change_shutdownEnds (c : Connection) (ticket : Ticket) :
    Change c (.shutdownEnds ticket) (c.shutdownEnds ticket).1 (c.shutdownEnds ticket).2 := by
  refine change_updateCloser (by simp) fun closer hcloser hticket ↦ ?_
  subst hticket
  by_cases hstage : closer.stage = .shuttingDown
  · simpa [hstage] using .closerEnds hcloser hstage
  · simpa [hstage] using change_closer_idle (by simp) hcloser

private theorem change_elapse (c : Connection) (ms : Nat) :
    Change c (.elapse ms) (c.elapse ms).1 (c.elapse ms).2 := by
  unfold elapse
  split
  · refine change_updateCloser (by simp) fun closer hcloser hticket ↦ ?_
    by_cases hpatience : ms < closer.patience
    · simpa [Closer.elapse, hpatience] using .closerWaits hcloser hpatience
    · cases hstage : closer.stage with
      | flushing =>
        simpa [Closer.elapse, hpatience, hstage, Closer.shutDown]
          using .closerShuts hcloser hstage (by simp)
      | shuttingDown =>
        have h : Change c (.elapse ms) _ _ := .closerEnds hcloser hstage
        simpa [Closer.elapse, hpatience, hstage, hticket] using h
  · exact .idle (by simp)

private theorem change_enter (c : Connection) (ticket : Ticket) (call : Call) :
    Change c (.enter ticket call) (c.enter ticket call).1 (c.enter ticket call).2 := by
  unfold enter
  cases h : call.refusal with
  | some e => exact .refused h
  | none => exact .queued h

/-- **What one step can do.** -/
theorem change_step (c : Connection) (a : Action) : Change c a (c.step a).1 (c.step a).2 := by
  cases a with
  | enter ticket call => exact change_enter c ticket call
  | proceed => exact change_proceed c
  | accept count => exact change_accept c count
  | flush => exact change_flush c
  | writeFails detail => exact change_writeFails c detail
  | receive chunk => exact change_receive c chunk
  | ends => exact change_ends c
  | readFails detail => exact change_readFails c detail
  | cancel ticket => exact change_cancel c ticket
  | abort => exact change_abort c
  | closerAccept ticket count => exact change_closerAccept c ticket count
  | closerFlush ticket => exact change_closerFlush c ticket
  | closerWriteFails ticket => exact change_closerWriteFails c ticket
  | shutdownEnds ticket => exact change_shutdownEnds c ticket
  | elapse ms => exact change_elapse c ms

end Connection

end PinballBoard
