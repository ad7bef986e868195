import PinballBoard.Proofs.Platform.Record

/-!
# All or nothing

A start asks the questions of the handshake one after the other, and every one of them can go wrong:
the stream fails, or the board says what no board may say. The two leave the connection in different
states, so `Bench.Left` says for every end of a course what is left of the connection, and
`left_of_follows` proves it question by question. A lost stream has been dropped already. When the
board is to blame the stream is still there, with whatever it has still to bring, and nothing of it
is in use.

The start closes the connection after either. Where there is no stream nothing happens
(`await_close_of_closed`); where there is one it is told to shut down, and it is dropped when it has
done so or when the patience of closing is at an end (`await_close_of_unused`).

What has happened on the way is read off the trace, since a bench without a poll loop records a run
(`Bench.records_converse`).
-/

namespace PinballBoard

/-! ## The questions of a handshake -/

/-- A course asks the questions of its script. -/
theorem Handshake.Follows.asks_script {script : List (HandshakeStage × Command)}
    {found : List Reply → Discovery → Prop} {course : Course} (h : Follows script found course) :
    course.Asks fun call ↦ ∃ q ∈ script, call = .request q.2 := by
  induction h with
  | runs => trivial
  | @asks α stage command kind read tell next script found hkind hread hnext ih =>
    refine ⟨⟨_, List.mem_cons_self, rfl⟩, fun outcome ↦ ?_⟩
    dsimp only
    split
    · refine (ih _).mono fun call ⟨q, hq, hcall⟩ ↦ ⟨q, List.mem_cons_of_mem _ hq, hcall⟩
    · trivial

/-- To start a board is to ask the questions of the handshake, and perhaps to end the stream. -/
theorem Platform.asks_start :
    start.Asks fun call ↦ call = .close ∨ ∃ q ∈ Handshake.script, call = .request q.2 := by
  refine ((Handshake.follows_course.asks_script.mono fun _ ↦ .inr).view _).andThen fun _ result ↦ ?_
  cases result with
  | ok => trivial
  | error => exact ⟨.inl rfl, fun _ ↦ trivial⟩

/-- All that a handshake writes. -/
def Handshake.questions : Bytes :=
  [100, 0, 3, 4, 6] ++ (List.range 8).flatMap fun row ↦
    (List.range 8).flatMap fun column ↦ [40, UInt8.ofNat (10 * row + column)]

example : Handshake.questions.length = 133 := by decide +kernel

theorem Handshake.frames_of_wire {i : Introduction} {bytes : Bytes} (h : i.wire <+: bytes) :
    Command.frames ((script.take ((answered bytes).1.length + 1)).map Prod.snd) = questions := by
  rw [i.answered_of_wire h, i.length_replies, List.take_of_length_le (Nat.le_succ _)]
  exact frames_script

theorem Handshake.frames_prefix (n : Nat) :
    Command.frames ((script.take n).map Prod.snd) <+: questions := by
  refine ⟨Command.frames ((script.drop n).map Prod.snd), ?_⟩
  rw [← Command.frames_append, ← List.map_append, List.take_append_drop]
  exact frames_script

/-! ## The end of a connection -/

namespace Connection

variable {σ : Type} [ByteStream σ] (peer : String) (l : Link) (t : Ticket) {stream stream' : σ}

/-- A connection whose stream a task is ending. -/
def ending (peer : String) (t : Ticket) (l : Link) (stage : ClosingStage) : Connection :=
  ⟨peer, none, false, [], some ⟨t, l, stage, closingPatience⟩⟩

theorem step_takes :
    (serving peer l ⟨t, .close, .waiting⟩).step .proceed =
      (ending peer t l .flushing, [.locked t]) := rfl

variable {l}

theorem next?_of_flushing (hout : l.outgoing = [])
    (hflush : ByteStream.flush stream = (.finished, stream')) :
    (ending peer t l .flushing).next? stream = some (.closerFlush t, stream') := by
  simp [ending, next?, closing?, hout, hflush]

theorem step_shuts (hout : l.outgoing = []) :
    (ending peer t l .flushing).step (.closerFlush t) =
      (ending peer t l .shuttingDown, [.shutdown]) := by
  simp [ending, step, closerFlush, updateCloser, hout, Closer.shutDown]

theorem next?_of_shutdown (l : Link)
    (hshutdown : ByteStream.shutdown stream = (.finished, stream')) :
    (ending peer t l .shuttingDown).next? stream = some (.shutdownEnds t, stream') := by
  simp [ending, next?, closing?, hshutdown]

theorem next?_of_slow_shutdown (l : Link)
    (hshutdown : ByteStream.shutdown stream = (.notReady, stream')) :
    (ending peer t l .shuttingDown).next? stream = none := by
  simp [ending, next?, closing?, serving?, hshutdown]

theorem step_shutdownEnds (l : Link) :
    (ending peer t l .shuttingDown).step (.shutdownEnds t) =
      (closed peer, [.dropped, .settled t .done]) := by
  simp [ending, step, shutdownEnds, updateCloser, closed]

theorem step_elapse (l : Link) {ms : Nat} (hms : closingPatience ≤ ms) :
    (ending peer t l .shuttingDown).step (.elapse ms) =
      (closed peer, [.dropped, .settled t .done]) := by
  simp [ending, step, elapse, updateCloser, Closer.elapse, Nat.not_lt_of_le hms, closed]

end Connection

namespace Bench

variable {σ τ α : Type} [ByteStream σ] {b : Bench σ}

/-! ## What a handshake leaves behind -/

section Handshake

open Handshake

variable {holds : σ → Bytes → StreamEnd → Prop} {peer : String} {bytes rest : Bytes} {e : StreamEnd}
  {clock : Nat} {script : List (HandshakeStage × Command)}
  {found : List Reply → Discovery → Prop} {course : Course}

/-- The state in which a course leaves the connection where `bytes` and then `e` were to be read. -/
inductive Left (holds : σ → Bytes → StreamEnd → Prop) (peer : String)
    (found : List Reply → Discovery → Prop) (bytes : Bytes) (e : StreamEnd) (clock : Nat) :
    (HandshakeStage × Option (Except DeviceError Discovery)) × Bench σ → Prop
  /-- It has succeeded, and all that stands behind the replies is still to be read. -/
  | runs {b : Bench σ} {replies : List Reply} {rest : Bytes} {discovery : Discovery}
      (hfound : found replies discovery) (hbytes : bytes = replies.flatMap Reply.wire ++ rest)
      (h : b.Resting holds peer rest e) :
      Left holds peer found bytes e clock ((.running, some (.ok discovery)), b)
  /-- It waits for bytes that do not come. -/
  | waits {b : Bench σ} (stage : HandshakeStage) (he : e = .hangs) :
      Left holds peer found bytes e clock ((stage, none), b)
  /-- It has lost the stream. -/
  | loses {b : Bench σ} (error : LinkError) (h : b.Closed peer) :
      Left holds peer found bytes e clock ((.failed, some (.error (.transport error))), b)
  /-- It blames the board, and the stream is still there. -/
  | blames {b : Bench σ} (detail : String) (h : b.Unused holds peer e)
      (hclock : b.session.clock = clock) :
      Left holds peer found bytes e clock ((.failed, some (.error (.violation detail))), b)

omit [ByteStream σ] in
private theorem Left.cons {reply : Reply}
    {result : (HandshakeStage × Option (Except DeviceError Discovery)) × Bench σ}
    (h : Left holds peer (fun replies ↦ found (reply :: replies)) rest e clock result)
    (hbytes : bytes = reply.wire ++ rest) : Left holds peer found bytes e clock result := by
  cases h with
  | runs hfound hrest h =>
    refine .runs hfound ?_ h
    rw [hbytes, hrest, List.flatMap_cons, List.append_assoc]
  | waits stage he => exact .waits stage he
  | loses error h => exact .loses error h
  | blames detail h hclock => exact .blames detail h hclock

/-- How a course leaves the connection depends on the error with which it ends. -/
theorem left_of_follows (hsupply : Supplies holds) (hcourse : Follows script found course)
    (h : b.Resting holds peer bytes e) (deadline : Nat) :
    Left holds peer found bytes e b.session.clock (b.converse deadline course) := by
  induction hcourse generalizing b bytes with
  | runs hfound => exact .runs hfound rfl h
  | @asks α stage command kind read tell next script found hkind hread hnext ih =>
    obtain ⟨-, htold, hclock⟩ := told_at_once hsupply h hkind deadline
    rw [question, converse_ask]
    generalize b.inquire deadline command = answer at htold hclock ⊢
    cases htold with
    | @replied b' reply rest hparse hresting =>
      have htime : b'.session.clock = b.session.clock := hclock (Option.some_ne_none _)
      simp only [Outcome.asReply, Except.bind]
      cases hanswer : read reply with
      | ok answer =>
        obtain rfl := (hread.ok_iff reply answer).mp hanswer
        rw [← htime]
        exact (ih answer hresting).cons (ReplyKind.eq_append_of_parse? hparse)
      | error error =>
        obtain ⟨detail, rfl⟩ := hread.blames reply error hanswer
        exact .blames detail hresting.unused htime
    | waits hparse hshort he => exact .waits _ he
    | @fails b' error hparse hshort herror hclosed =>
      simp only [Outcome.asReply, Except.bind, ofLink_failure herror]
      exact .loses error hclosed
    | overruns hover hunused => exact .blames _ hunused (hclock (Option.some_ne_none _))

end Handshake

/-! ## The end of a stream -/

section Closing

variable {holds : σ → Bytes → StreamEnd → Prop} {peer : String} {e : StreamEnd} {result : α}

/-- The bench when a task has asked for the end of the stream. -/
def closing (b : Bench σ) (peer : String) (link : Option Link) : Bench σ :=
  { b with
    session := { b.session with
      nextTicket := b.session.nextTicket + 1
      connection := ⟨peer, link, false, [⟨b.session.nextTicket, .close, .waiting⟩], none⟩ } }

theorem enter_close {link : Option Link} (hpoll : b.session.poll = none)
    (hconnection : b.session.connection = ⟨peer, link, false, [], none⟩) :
    b.enter .close = (b.session.nextTicket, b.closing peer link) := by
  have hstep : b.session.connection.step (.enter b.session.nextTicket .close) =
      (⟨peer, link, false, [⟨b.session.nextTicket, .close, .waiting⟩], none⟩, []) := by
    simp [Connection.step, Connection.enter, Call.refusal, hconnection]
  have hlater : Session.poll { b.session with nextTicket := b.session.nextTicket + 1 } = none :=
    hpoll
  simp only [enter, Bench.move, Session.step, stepLink_of_no_poll hlater, hstep, resume,
    List.foldl_nil, closing]

/-- What is left when a stream that was there, or was not, has been ended. -/
structure Ended (peer : String) (b : Bench σ) (events : Trace) (b' : Bench σ) : Prop where
  poll_none : b'.session.poll = none
  connection_eq : b'.session.connection = .closed peer
  trace_eq : b'.trace.reverse = b.trace.reverse ++ events

theorem await_close_of_closed (h : b.Closed peer) (deadline : Nat) :
    ∃ b', (b.enter .close).2.await deadline (b.enter .close).1 = (some .done, b') ∧
      Ended peer b [.locked b.session.nextTicket, .settled b.session.nextTicket .done] b' := by
  have hnext : Connection.next? ⟨peer, none, false,
      [⟨b.session.nextTicket, .close, .waiting⟩], none⟩ b.stream = some (.proceed, b.stream) := by
    simp [Connection.next?, Connection.serving?]
  have hstep : Connection.step ⟨peer, none, false,
      [⟨b.session.nextTicket, .close, .waiting⟩], none⟩ .proceed =
        (.closed peer, [.locked b.session.nextTicket] ++
          [.settled b.session.nextTicket .done]) := by
    simp [Connection.step, Connection.proceed, Connection.heedAbort, Connection.serve,
      Connection.leave, Connection.closed]
  have hmoves : Moves (b.closing peer none) 1 _ :=
    moves_of_settled (b := b.closing peer none) h.poll_none h.quiet hnext rfl
      (by simp [IsQuiet]) hstep []
  rw [enter_close h.poll_none h.connection_eq]
  refine ⟨_, await_of_moves hmoves (by decide) rfl deadline, h.poll_none, rfl, ?_⟩
  simp [reach, closing]

/-- A stream that is slow to shut down is dropped when the patience of closing ends. -/
private theorem leap_of_shuttingDown (hpoll : b.session.poll = none) (hb : b.outcomes = [])
    {l : Link} {t : Ticket} (hconnection : b.session.connection = .ending peer t l .shuttingDown)
    {deadline : Nat} (hdeadline : b.session.clock + closingPatience ≤ deadline) :
    (b.leap deadline).outcomes = [(t, .done)] ∧
      Ended peer b [.dropped, .settled t .done] (b.leap deadline) := by
  have htimer : b.session.untilTimer? = some closingPatience := by
    simp [Session.untilTimer?, Session.restsUntil?, hpoll, hconnection, Connection.ending]
  obtain ⟨ms, hms, hleap⟩ : ∃ ms, closingPatience ≤ ms ∧ b.leap deadline = b.move (.elapse ms) := by
    refine ⟨_, ?_, rfl⟩
    rw [htimer, Option.getD_some]
    omega
  have hstep := Connection.step_elapse peer t l hms
  rw [← hconnection] at hstep
  have hlater : Session.poll { b.session with clock := b.session.clock + ms } = none := hpoll
  rw [hleap]
  simp only [Bench.move, Session.step, stepLink_of_no_poll hlater, hstep]
  refine ⟨?_, hpoll, rfl, ?_⟩ <;> simp [resume, note, hb]

/-- A stream that is there is told to shut down, and dropped when it has done so or has taken too
long. -/
private theorem await_ending {good : σ → Prop} (hgood : TakesAll good) (hs : good b.stream)
    (hpoll : b.session.poll = none) (hb : b.outcomes = []) {l : Link} {t : Ticket}
    (hout : l.outgoing = [])
    (hconnection : b.session.connection = .serving peer l ⟨t, .close, .waiting⟩) {deadline : Nat}
    (hdeadline : b.session.clock + closingPatience ≤ deadline) :
    ∃ b', b.await deadline t = (some .done, b') ∧
      Ended peer b [.locked t, .shutdown, .dropped, .settled t .done] b' := by
  obtain ⟨stream', hflush, -⟩ := hgood.flush b.stream hs
  have hfirst : (Connection.serving peer l ⟨t, .close, .waiting⟩).next? b.stream =
      some (.proceed, b.stream) := Connection.next?_of_waiting peer rfl
  have htakes := moves_of_quiet hpoll hb hfirst rfl (Connection.step_takes peer l t)
    (by simp [IsQuiet]) []
  rw [reach_self hconnection rfl, List.nil_append] at htakes
  have hshuts := moves_of_quiet hpoll hb (Connection.next?_of_flushing peer t hout hflush) rfl
    (Connection.step_shuts peer t hout) (by simp [IsQuiet]) [.locked t]
  have hmoves := htakes.trans hshuts
  cases hshutdown : ByteStream.shutdown stream' with
  | mk status stream'' =>
    cases status with
    | finished =>
      have hends := moves_of_dropped hpoll hb (Connection.next?_of_shutdown peer t l hshutdown) rfl
        (Connection.step_shutdownEnds peer t l) ([.locked t] ++ [.shutdown])
      refine ⟨_, await_of_moves (hmoves.trans hends) (by decide) rfl deadline, hpoll, rfl, ?_⟩
      simp [reach]
    | notReady =>
      have hnext := next?_of_no_action
        (b := b.reach (.ending peer t l .shuttingDown) stream' ([.locked t] ++ [.shutdown])) hpoll
        (Connection.next?_of_slow_shutdown peer t l hshutdown)
      obtain ⟨houtcomes, hended⟩ := leap_of_shuttingDown
        (b := b.reach (.ending peer t l .shuttingDown) stream' ([.locked t] ++ [.shutdown])) hpoll
        hb rfl hdeadline
      have hlater : b.session.clock < deadline := Nat.lt_of_lt_of_le (Nat.lt_add_of_pos_right
        (by decide)) hdeadline
      refine ⟨_, await_of_leap hmoves (by decide) hb hnext hlater houtcomes, hended.poll_none,
        hended.connection_eq, hended.trace_eq.trans ?_⟩
      simp [reach]

/-- Where there is a stream it is told to shut down, and dropped. -/
theorem await_close_of_unused (hsupply : Supplies holds) (h : b.Unused holds peer e)
    {deadline : Nat}
    (hdeadline : b.session.clock + closingPatience ≤ deadline) :
    ∃ b', (b.enter .close).2.await deadline (b.enter .close).1 = (some .done, b') ∧
      Ended peer b [.locked b.session.nextTicket, .shutdown, .dropped,
        .settled b.session.nextTicket .done] b' := by
  obtain ⟨l, unread, hout, hholds, hconnection⟩ := h.connection_eq
  rw [enter_close h.poll_none hconnection]
  obtain ⟨b', hawait, hended⟩ := await_ending (b := b.closing peer (some l))
    (hsupply.takesAll unread e) hholds h.poll_none h.quiet hout rfl hdeadline
  exact ⟨b', hawait, hended.poll_none, hended.connection_eq, hended.trace_eq⟩

end Closing

/-! ## Starting a board -/

theorem converse_andThen {β : Type} (d : Dialogue τ α) (k : τ → α → Dialogue τ β) (deadline : Nat)
    (b : Bench σ) :
    b.converse deadline (d.andThen k) =
      match b.converse deadline d with
      | ((state, some result), b') => b'.converse deadline (k state result)
      | ((state, none), b') => ((state, none), b') := by
  induction d generalizing b with
  | done state result => rfl
  | ask state call next ih =>
    rw [Dialogue.andThen, converse_call, converse_call]
    generalize (b.enter call).2.await deadline (b.enter call).1 = ended
    obtain ⟨outcome?, b'⟩ := ended
    cases outcome? with
    | none => rfl
    | some outcome => exact ih outcome b'

theorem converse_view {ρ : Type} (d : Dialogue τ α) (f : τ → ρ) (deadline : Nat) (b : Bench σ) :
    b.converse deadline (d.view f) =
      ((f (b.converse deadline d).1.1, (b.converse deadline d).1.2),
        (b.converse deadline d).2) := by
  induction d generalizing b with
  | done state result => rfl
  | ask state call next ih =>
    rw [Dialogue.view, converse_call, converse_call]
    generalize (b.enter call).2.await deadline (b.enter call).1 = ended
    obtain ⟨outcome?, b'⟩ := ended
    cases outcome? with
    | none => rfl
    | some outcome => exact ih outcome b'

/-- Nothing has come of a start that has failed. -/
structure Undone (b : Bench σ) (error : DeviceError) : Prop where
  /-- The handshake has been broken off after one of its questions. -/
  asked : ∃ n, b.written = Command.frames ((Handshake.script.take n).map Prod.snd)
  written_prefix : b.written <+: Handshake.questions
  /-- Nobody has asked what has changed, and nobody will. -/
  unpolled : ∀ t, .encoded t .pollChanges ∉ b.trace
  poll_none : b.session.poll = none
  /-- The stream has been dropped, and neither the connection nor anybody else has it. -/
  dropped : b.trace.count .dropped = 1
  gone : b.session.connection.link = none ∧ b.session.connection.closer = none
  /-- It has been told to shut down unless it has failed by itself. -/
  shutdown_iff : .shutdown ∈ b.trace ↔ ∀ cause, error ≠ .transport cause

/-- A start that has succeeded where `bytes` and then `e` were to be read. -/
structure Done (holds : σ → Bytes → StreamEnd → Prop) (peer : String) (bytes : Bytes)
    (e : StreamEnd) (b : Bench σ) (discovery : Discovery) : Prop where
  /-- The board has introduced itself. What it has sent besides is still there. -/
  introduced : ∃ (i : Introduction) (rest : Bytes), bytes = i.wire ++ rest ∧
    discovery.profile = ⟨i.family, i.lamps, i.coils, i.displays⟩ ∧
    discovery.switches = ⟨i.states.map some⟩ ∧ b.Resting holds peer rest e ∧
    ∀ n ≤ rest.length, ∀ deadline,
      (b.converse deadline (inquiries [] (List.replicate n .pollChanges))).1 =
        ((rest.take n).map fun status ↦ .reply (.byte status), some ())
  unpolled : ∀ t, .encoded t .pollChanges ∉ b.trace
  /-- The stream is still there. -/
  kept : .dropped ∉ b.trace ∧ .shutdown ∉ b.trace
  /-- The poll loop starts with the questions of the handshake written, and with what the handshake
  has found out. -/
  begins : ∀ options : PlatformOptions,
    (b.beginPolling discovery options).written = Handshake.questions ∧
      (b.beginPolling discovery options).session.switches = discovery.switches ∧
      (b.beginPolling discovery options).session.poll = some (.start options.pollInterval)

section Start

variable {holds : σ → Bytes → StreamEnd → Prop} {peer : String} {bytes : Bytes} {e : StreamEnd}
  {discovery : Discovery}

/-- A host that polls is told one byte after the other of what is still to be read. -/
theorem polls_of_resting (hsupply : Supplies holds) (h : b.Resting holds peer bytes e) {n : Nat}
    (hn : n ≤ bytes.length) (deadline : Nat) :
    (b.converse deadline (inquiries [] (List.replicate n .pollChanges))).1 =
      ((bytes.take n).map fun status ↦ .reply (.byte status), some ()) := by
  have hparse : ∀ (n : Nat) (bytes : Bytes), n ≤ bytes.length →
      StringsFit (List.replicate n .pollChanges) bytes ∧
        (Reply.parseAll (List.replicate n .pollChanges) bytes).1 = (bytes.take n).map .byte := by
    intro n
    induction n with
    | zero => exact fun bytes _ ↦ ⟨trivial, rfl⟩
    | succ n ih =>
      intro bytes hbytes
      cases bytes with
      | nil => cases hbytes
      | cons status bytes =>
        obtain ⟨hfit, hall⟩ := ih bytes (Nat.le_of_succ_le_succ hbytes)
        have hfirst : Command.pollChanges.parse? (status :: bytes) = some (.byte status, bytes) :=
          rfl
        constructor
        · refine ⟨?_, fun reply rest hrest ↦ ?_⟩
          · rintro ⟨kind, hkind, rfl, -⟩
            cases hkind
          · rw [hfirst] at hrest
            cases hrest
            exact hfit
        · rw [Reply.parseAll, List.replicate_succ, Reply.parseWhile_of_good hfirst rfl]
          exact congrArg (Reply.byte status :: ·) hall
  obtain ⟨hfit, hall⟩ := hparse n bytes hn
  have hkinds : ∀ c ∈ List.replicate n Command.pollChanges, c.replyKind ≠ none := by
    intro c hc
    rw [List.eq_of_mem_replicate hc]
    exact Option.some_ne_none _
  have hparsed := parsed_of_resting hsupply _ hkinds hfit h [] deadline
  have hlength : (Reply.parseAll (List.replicate n .pollChanges) bytes).1.length =
      (List.replicate n Command.pollChanges).length := by
    rw [hall, List.length_map, List.length_take, List.length_replicate]
    exact Nat.min_eq_left hn
  rw [(hparsed.complete hlength).1, hall, List.map_map]
  rfl

/-- No question of the handshake asks what has changed. -/
private theorem command_ne_pollChanges {call : Call}
    (hcall : call = .close ∨ ∃ q ∈ Handshake.script, call = .request q.2) :
    call.command? ≠ some .pollChanges := by
  have hscript : ∀ q ∈ Handshake.script, q.2 ≠ .pollChanges := by decide
  rcases hcall with rfl | ⟨q, hq, rfl⟩
  · nofun
  · exact fun h ↦ hscript q hq (Option.some.inj h)

/-- A start ends as its handshake does, once the stream has been ended if the handshake has
failed. -/
theorem converse_start (deadline : Nat) (b : Bench σ) :
    b.converse deadline Platform.start =
      match b.converse deadline Handshake.course with
      | ((_, some (.ok discovery)), b') => (((), some (.ok discovery)), b')
      | ((_, some (.error error)), b') =>
        b'.converse deadline (.ask () .close fun _ ↦ .done () (.error error))
      | ((_, none), b') => (((), none), b') := by
  rw [Platform.start, converse_andThen, converse_view]
  generalize b.converse deadline Handshake.course = result
  obtain ⟨⟨stage, outcome?⟩, b'⟩ := result
  match outcome? with
  | none => rfl
  | some (.ok discovery) => rfl
  | some (.error error) => rfl

omit [ByteStream σ] in
private theorem undone_of_ended {b' : Bench σ} {w : Watch} {error : DeviceError} {events : Trace}
    (hended : Ended peer b events b') (hevents : Trace.written events = [])
    (hrecords : b'.Records w)
    (hcalls : ∀ call ∈ w.usage.calls,
      call = .close ∨ ∃ q ∈ Handshake.script, call = .request q.2)
    (hasked : ∃ n, b.written = Command.frames ((Handshake.script.take n).map Prod.snd))
    (hshutdown : .shutdown ∈ b'.trace ↔ ∀ cause, error ≠ .transport cause) :
    b'.Undone error := by
  obtain ⟨n, hwritten⟩ := hasked
  have hsame : b'.written = Command.frames ((Handshake.script.take n).map Prod.snd) := by
    rw [written_eq, hended.trace_eq, Trace.written_append, hevents, List.append_nil, ← hwritten]
    rfl
  have hcount := hrecords.count_dropped
  rw [hended.connection_eq] at hcount
  refine ⟨⟨n, hsame⟩, hsame ▸ Handshake.frames_prefix n, fun t hmem ↦ ?_, hended.poll_none, hcount,
    ?_, hshutdown⟩
  · obtain ⟨call, hcall, hcommand⟩ := hrecords.call_of_encoded hmem
    exact command_ne_pollChanges (hcalls call hcall) hcommand
  · rw [hended.connection_eq]
    exact ⟨rfl, rfl⟩

private theorem done_of_resting (hsupply : Supplies holds) {w : Watch} {i : Introduction}
    {rest : Bytes} (hbytes : bytes = i.wire ++ rest) (hresting : b.Resting holds peer rest e)
    (hwritten : b.written = Handshake.questions) (hrecords : b.Records w)
    (hcalls : ∀ call ∈ w.usage.calls, ∃ q ∈ Handshake.script, call = .request q.2) :
    b.Done holds peer bytes e i.discovery where
  introduced := ⟨i, rest, hbytes, rfl, rfl, hresting,
    fun _ hn deadline ↦ polls_of_resting hsupply hresting hn deadline⟩
  unpolled t hmem := by
    obtain ⟨call, hcall, hcommand⟩ := hrecords.call_of_encoded hmem
    exact command_ne_pollChanges (.inr (hcalls call hcall)) hcommand
  kept := by
    obtain ⟨incoming, spent, unread, -, -, hconnection⟩ := hresting.bytes_eq
    have hcount := hrecords.count_dropped
    rw [hconnection] at hcount
    refine ⟨List.count_eq_zero.mp (Nat.succ.inj hcount), fun hshutdown ↦ ?_⟩
    obtain ⟨q, -, hcall⟩ := hcalls .close (hrecords.close_of_shutdown hshutdown)
    cases hcall
  begins _ := ⟨hwritten, rfl, rfl⟩

/-- A handshake asks a question for each proper reply that it has got, and one more. -/
private theorem written_course (hsupply : Supplies holds) {stream : σ}
    (hstream : holds stream bytes e) (peer : String) (deadline : Nat) :
    ((ofStream peer stream).converse deadline Handshake.course).2.written =
      Command.frames ((Handshake.script.take
        ((Handshake.answered bytes).1.length + 1)).map Prod.snd) :=
  (pursued_of_follows hsupply Handshake.follows_course (resting_ofStream peer hstream)
    deadline).written_eq

/-- **All or nothing.** Whatever the stream brings and however it ends, a start that fails leaves no
stream, no poll and no poll loop behind, and has written nothing but the beginning of a handshake.
A start that succeeds has used the introduction of the board, and not one byte more. -/
theorem started_or_undone (hsupply : Supplies holds) (bytes : Bytes) (e : StreamEnd) (peer : String)
    (stream : σ) (hstream : holds stream bytes e) :
    let outcome := (ofStream peer stream).perform Platform.start
    (e ≠ .hangs → outcome.1.2 ≠ none) ∧
      (∀ error, outcome.1.2 = some (.error error) → outcome.2.Undone error) ∧
      ∀ discovery, outcome.1.2 = some (.ok discovery) →
        outcome.2.Done holds peer bytes e discovery := by
  have hperform : (ofStream peer stream).perform Platform.start =
      (ofStream peer stream).converse patience Platform.start :=
    congrArg (converse · Platform.start (ofStream peer stream)) (Nat.zero_add patience)
  have hasked := written_course hsupply hstream peer patience
  have hleft := left_of_follows hsupply Handshake.follows_course (resting_ofStream peer hstream)
    patience
  obtain ⟨w, hrecords, hcalls⟩ := records_converse Handshake.follows_course.asks_script patience
    (records_ofStream peer stream) (fun call hcall ↦ nomatch hcall)
  obtain ⟨w', hrecords', hcalls'⟩ := records_converse Platform.asks_start patience
    (records_ofStream peer stream) (fun call hcall ↦ nomatch hcall)
  rw [hperform, converse_start]
  rw [converse_start] at hrecords'
  generalize (ofStream peer stream).converse patience Handshake.course = result at *
  cases hleft with
  | @runs b replies rest discovery hfound hbytes hresting =>
    obtain ⟨i, rfl, rfl⟩ := hfound
    rw [i.flatMap_wire_replies] at hbytes
    have hwritten : b.written = Handshake.questions :=
      hasked.trans (Handshake.frames_of_wire ⟨rest, hbytes.symm⟩)
    refine ⟨fun _ ↦ nofun, nofun, fun found hfound ↦ ?_⟩
    obtain rfl : i.discovery = found := Except.ok.inj (Option.some.inj hfound)
    exact done_of_resting hsupply hbytes hresting hwritten hrecords hcalls
  | waits stage he => exact ⟨fun hne ↦ absurd he hne, nofun, nofun⟩
  | @loses b error hclosed =>
    obtain ⟨b', hawait, hended⟩ := await_close_of_closed hclosed patience
    dsimp only at hrecords' ⊢
    rw [converse_last hawait] at hrecords' ⊢
    refine ⟨fun _ ↦ nofun, fun found hfound ↦ ?_, nofun⟩
    obtain rfl := Except.error.inj (Option.some.inj hfound)
    refine undone_of_ended hended rfl hrecords' hcalls' ⟨_, hasked⟩ (iff_of_false ?_ ?_)
    · -- only the task that ends the stream tells it to shut down, and it has found none
      have hbefore : .shutdown ∉ b.trace := fun hshutdown ↦ by
        obtain ⟨q, -, hcall⟩ := hcalls .close (hrecords.close_of_shutdown hshutdown)
        cases hcall
      rw [← List.mem_reverse, hended.trace_eq]
      simpa using hbefore
    · exact fun hother ↦ hother error rfl
  | @blames b detail hunused hclock =>
    have hpatience : b.session.clock + closingPatience ≤ patience := by
      rw [hclock]
      change 0 + closingPatience ≤ patience
      decide
    obtain ⟨b', hawait, hended⟩ := await_close_of_unused hsupply hunused hpatience
    dsimp only at hrecords' ⊢
    rw [converse_last hawait] at hrecords' ⊢
    refine ⟨fun _ ↦ nofun, fun found hfound ↦ ?_, nofun⟩
    obtain rfl := Except.error.inj (Option.some.inj hfound)
    refine undone_of_ended hended rfl hrecords' hcalls' ⟨_, hasked⟩ (iff_of_true ?_ nofun)
    rw [← List.mem_reverse, hended.trace_eq]
    simp

end Start

/-- A board that says that its reset has failed, and one that goes on talking when it has introduced
itself. -/
theorem started_or_undone_of_chunks :
    let failing : ScriptedStream := ⟨[.chunk [1], .ended], .open, 0, .blocked⟩
    let wire : Bytes := [0, 76, 73, 83, 89, 56, 48, 0, 1, 2, 3] ++ List.replicate 64 1 ++ [8, 127]
    let talking : ScriptedStream := ⟨[.chunk wire, .ended], .open, 0, .blocked⟩
    (∃ error, ((ofStream "board" failing).perform Platform.start).1.2 = some (.error error) ∧
      ((ofStream "board" failing).perform Platform.start).2.Undone error) ∧
      ∃ discovery,
        ((ofStream "board" talking).perform Platform.start).1.2 = some (.ok discovery) ∧
        ((ofStream "board" talking).perform Platform.start).2.Done ScriptedStream.Brings "board"
          wire .ended discovery := by
  intro failing wire talking
  constructor
  · obtain ⟨hends, hundone, hdone⟩ := started_or_undone ScriptedStream.supplies [1] .ended "board"
      failing ⟨rfl, [[1]], [.ended], by decide, rfl, rfl, .ended []⟩
    generalize (ofStream "board" failing).perform Platform.start = outcome at hends hundone hdone ⊢
    obtain ⟨⟨_, result⟩, b⟩ := outcome
    match result with
    | none => exact absurd rfl (hends nofun)
    | some (.error error) => exact ⟨error, rfl, hundone error rfl⟩
    | some (.ok discovery) =>
      -- no introduction starts with one
      obtain ⟨i, rest, hbytes, -⟩ := (hdone discovery rfl).introduced
      cases hbytes
  · have hok : ((ofStream "board" talking).perform Platform.start).1.2 =
        some (.ok ⟨⟨.system80, 1, 2, 3⟩, ⟨Vector.replicate 64 (some true)⟩⟩) := by decide +kernel
    have h := started_or_undone ScriptedStream.supplies wire .ended "board" talking
      ⟨rfl, [wire], [.ended], by decide, List.flatten_singleton, rfl, .ended []⟩
    exact ⟨_, hok, h.2.2 _ hok⟩

end Bench

end PinballBoard
