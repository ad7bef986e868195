import PinballBoard.Proofs.Link.Failure
import PinballBoard.Proofs.Platform.Polling

/-!
# A poll loop that waits, and one that is stopped

A poll loop is mostly waiting: for the lock, for the stream, for its rest to end, for room on the
channel. Whoever drives the machine must not notice. While the loop rests, or has an event that
nobody takes, coils have to fire as if it were not there (`Suspended.unhindered`), so in all these
phases it has nothing to do with the line (`Suspended.in_line`).

At each of these places it can be stopped. It then has to be gone at once, without another byte and
without taking the stream along, with one exception: a reply that is on its way would be read by
whoever comes next, so a poll that has got the lock takes the stream with it
(`Cancelled.dropped`). What the board has answered before is not lost, because an answer is in the
table in the very move in which it is read (`Suspended.learnt`).

## How a loop can end

Each ending belongs to one kind of move: the loop ends without an error only in the move that
cancels it (`phase?_step_ended`), and with one only after it has said so.
-/

namespace PinballBoard

namespace Connection

/-- Who gives his call up takes the stream along if he owes a reply, and leaves the line to the
others. All that can be noted of it is that a stream is gone. -/
theorem step_cancel (c : Connection) (t : Ticket) :
    (c.step (.cancel t)).1.link =
        (if c.line.any (fun k ↦ k.ticket == t && k.owesReply) then none else c.link) ∧
      (c.step (.cancel t)).1.line = c.line.filter (·.ticket != t) ∧
      ∀ e ∈ (c.step (.cancel t)).2, e = .dropped := by
  have hdropped : c.dropLink.1 = { c with link := none } := by
    unfold dropLink
    split
    · rfl
    · rename_i hlink
      rw [← hlink]
  have hevents : ∀ e ∈ c.dropLink.2, e = .dropped := by
    unfold dropLink
    split <;> simp
  simp only [step, cancel]
  split
  · refine ⟨by simp [hdropped], by simp, fun e he ↦ ?_⟩
    rcases List.mem_append.mp he with he | he
    · exact hevents e he
    · exact (List.mem_map.mp he).choose_spec.2.symm
  · refine ⟨by simp, by simp, fun e he ↦ ?_⟩
    rw [List.nil_append] at he
    exact (List.mem_map.mp he).choose_spec.2.symm

end Connection

namespace Session

variable {s : Session}

/-! ## What a move does to the phase -/

theorem foldl_hearEnd_of_idle (h : s.pollTicket? = none)
    (ends : List (Ticket × Outcome)) : ends.foldl hearEnd s = s := by
  induction ends with
  | nil => rfl
  | cons p ends ih => rw [List.foldl_cons, s.hearEnd_of_ne (by simp [h]), ih]

/-- While the poll loop is not asking, only the connection makes a step. -/
theorem stepLink_of_idle (h : s.pollTicket? = none) (a : Action) :
    (s.stepLink a).1 = { s with connection := (s.connection.step a).1 } := by
  have hidle : { s with connection := (s.connection.step a).1 }.pollTicket? = none := h
  rw [stepLink_fst]
  exact foldl_hearEnd_of_idle hidle _

/-- A poll loop that is running is over when it has been cancelled, and its call with it. -/
theorem cancelPolling_of_running {loop : PollLoop} (hpoll : s.poll = some loop)
    (hrunning : loop.isRunning = true) :
    s.cancelPolling.1 =
      { s with
        connection := (loop.ticket?.map fun t ↦ (s.connection.step (.cancel t)).1).getD s.connection
        poll := some { loop with phase := .ended none } } := by
  cases hphase : loop.phase with
  | ended => simp [PollLoop.isRunning, hphase] at hrunning
  | asking t =>
    simp [cancelPolling, hpoll, hphase, setPhase, PollLoop.ticket?, Connection.step]
  | _ => simp [cancelPolling, hpoll, hphase, setPhase, PollLoop.ticket?]

theorem cancelPolling_of_not_polling (h : s.isPolling = false) : s.cancelPolling.1 = s := by
  cases hpoll : s.poll with
  | none => simp [cancelPolling, hpoll]
  | some loop =>
    cases hphase : loop.phase with
    | ended => simp [cancelPolling, hpoll, hphase]
    | _ => simp [isPolling, PollLoop.isRunning, hpoll, hphase] at h

private theorem phase?_hearEnd {p : Ticket × Outcome}
    (h : (s.hearEnd p).phase? = some (.ended none)) : s.phase? = some (.ended none) := by
  unfold hearEnd at h
  split at h
  · rename_i loop hpoll
    split at h
    · -- who hears of the end of his poll goes on
      unfold hear at h
      split at h <;> simp [setPhase, phase?, hpoll] at h
    · exact h
  · exact h

private theorem phase?_stepLink {a : Action}
    (h : (s.stepLink a).1.phase? = some (.ended none)) : s.phase? = some (.ended none) := by
  rw [stepLink_fst] at h
  have hfold : ∀ (ends : List (Ticket × Outcome)) (s : Session),
      (ends.foldl hearEnd s).phase? = some (.ended none) → s.phase? = some (.ended none) := by
    intro ends
    induction ends with
    | nil => exact fun s h ↦ h
    | cons p ends ih => exact fun s h ↦ phase?_hearEnd (ih _ h)
  have hbefore := hfold _ _ h
  exact hbefore

private theorem phase?_advance? {next : Session × List Event} (h : s.advance? = some next) :
    next.1.phase? ≠ some (.ended none) := by
  obtain ⟨loop, hpoll, hnext⟩ := Option.bind_eq_some_iff.mp h
  split at hnext
  · cases hnext
    simp [phase?, setPhase, hpoll]
  · split at hnext
    · cases hnext
      simp [phase?, setPhase, hpoll]
    · cases hnext
  · split at hnext <;> cases hnext <;> simp [phase?, setPhase, hpoll]
  · split at hnext <;> cases hnext <;> simp [phase?, setPhase, hpoll]
  · cases hnext
  · cases hnext

/-- **Without an error the poll loop ends only when it is cancelled.** -/
theorem phase?_step_ended {move : Move} (h : (s.step move).1.phase? = some (.ended none)) :
    s.phase? = some (.ended none) ∨ move = .cancelPolling ∧ s.isPolling = true := by
  cases move with
  | call call =>
    have hlink : ({ s with nextTicket := s.nextTicket + 1 }.stepLink
        (.enter s.nextTicket call)).1.phase? = some (.ended none) := h
    have hbefore := phase?_stepLink hlink
    exact .inl hbefore
  | giveUp t =>
    rw [step] at h
    split at h
    · exact .inl h
    · exact .inl (phase?_stepLink h)
  | abort => exact .inl (phase?_stepLink h)
  | link a =>
    rw [step] at h
    split at h
    · exact .inl (phase?_stepLink h)
    · exact .inl h
  | advance =>
    rw [step] at h
    cases hadvance : s.advance? with
    | none => exact .inl (by simpa [hadvance] using h)
    | some next =>
      rw [hadvance] at h
      exact absurd h (phase?_advance? hadvance)
  | cancelPolling =>
    cases hpolling : s.isPolling with
    | true => exact .inr ⟨rfl, rfl⟩
    | false =>
      rw [step, cancelPolling_of_not_polling hpolling] at h
      exact .inl h
  | take =>
    rw [step] at h
    split at h <;> exact .inl h
  | abandon => exact .inl h
  | elapse ms =>
    have hlink : ({ s with clock := s.clock + ms }.stepLink (.elapse ms)).1.phase? =
        some (.ended none) := h
    have hbefore := phase?_stepLink hlink
    exact .inl hbefore

end Session

/-! ## Turns that the host brings about -/

/-- The moves by which the host and the stream bring a turn of the connection about. Nothing is
taken off the channel in them, and the poll loop does not get on. -/
def Turn.moves : Turn → List Move
  | .call made => [.call made]
  | .act (.enter _ _) => []
  | .act (.cancel ticket) => [.giveUp ticket]
  | .act .abort => [.abort]
  | .act (.elapse ms) => [.elapse ms]
  | .act action => [.link action]

namespace Watch

variable {w : Watch} {switches : SwitchTable}

private theorem pollTicket?_of_pollState {s s' : Session} (hpollState : s'.pollState = s.pollState)
    (h : s.pollTicket? = none) : s'.pollTicket? = none := by
  have hphase : s'.phase? = s.phase? := congrArg PollState.phase hpollState
  cases hticket : s'.pollTicket? with
  | none => rfl
  | some t =>
    rw [Session.pollTicket?_eq_some, hphase, ← Session.pollTicket?_eq_some, h] at hticket
    cases hticket

private theorem act_of_idle (h : w.session.pollTicket? = none) {move : Move} {a : Action}
    {clock : Nat} (hstep : (w.session.step move).1 = ({ w.session with clock }.stepLink a).1)
    (hturn : w.session.turn? move = some (.act a)) :
    (w.step move).usage = w.usage.step (.act a) ∧
      (w.step move).session.pollState = w.session.pollState := by
  have hidle : { w.session with clock }.pollTicket? = none := h
  refine ⟨by rw [step, hturn, Option.map_some, Option.getD_some], ?_⟩
  rw [step, hstep, Session.stepLink_of_idle hidle]
  rfl

private theorem step_of_idle (h : w.session.pollTicket? = none) (turn : Turn) :
    (w.run turn.moves).usage = w.usage.step turn ∧
      (w.run turn.moves).session.pollState = w.session.pollState := by
  cases turn with
  | call call =>
    have hidle : { w.session with nextTicket := w.session.nextTicket + 1 }.pollTicket? = none := h
    refine ⟨rfl, ?_⟩
    change (Session.stepLink _ _).1.pollState = _
    rw [Session.stepLink_of_idle hidle]
    rfl
  | act a =>
    cases a with
    | enter => exact ⟨rfl, rfl⟩
    | cancel t =>
      -- the call is not that of the poll loop, for it has none
      have hne : w.session.pollTicket? ≠ some t := by simp [h]
      have hstep : w.session.step (.giveUp t) = w.session.stepLink (.cancel t) := if_neg hne
      exact act_of_idle h (by rw [hstep]) (if_neg hne)
    | _ => exact act_of_idle h rfl rfl

/-- While the poll loop is not asking, the connection goes through any turns that the host and the
stream bring about, and nothing happens to the rest of the session. -/
theorem run_of_idle (h : w.session.pollTicket? = none) (turns : List Turn) :
    (w.run (turns.flatMap Turn.moves)).usage = w.usage.run turns ∧
      (w.run (turns.flatMap Turn.moves)).session.pollState = w.session.pollState := by
  induction turns generalizing w with
  | nil => exact ⟨rfl, rfl⟩
  | cons turn turns ih =>
    obtain ⟨husage, hpollState⟩ := step_of_idle h turn
    obtain ⟨husage', hpollState'⟩ := ih (pollTicket?_of_pollState hpollState h)
    rw [List.flatMap_cons, run_append]
    exact ⟨by rw [husage', husage]; rfl, hpollState'.trans hpollState⟩

/-! ## Poll loops that are over -/

private theorem ended_of_shift {d d' : PollState} {heard : Option Outcome}
    {took : Option PlatformEvent} {asked : Option Ticket} {failure : Option DeviceError}
    (h : d.phase = some (.ended failure)) (hshift : PollState.Shift d heard took asked d') :
    heard = none ∧ asked = none ∧ d'.phase = d.phase ∧ d'.switches = d.switches := by
  cases hshift with
  | stays | takes | leaves => exact ⟨rfl, rfl, rfl, rfl⟩
  | stops hrunning => exact absurd (Option.some.inj h) (hrunning failure)
  | _ => cases h

/-- A poll loop that is over stays as it is, and writes and learns nothing any more. -/
theorem ended_run (hlinked : w.Linked) {failure : Option DeviceError}
    (h : w.session.phase? = some (.ended failure)) (moves : List Move) :
    (w.run moves).session.phase? = some (.ended failure) ∧
      (w.run moves).session.switches = w.session.switches ∧
      (w.run moves).answers = w.answers ∧ (w.run moves).polls = w.polls ∧
      (w.run moves).pollBytes = w.pollBytes := by
  induction moves using List.reverseRecOn with
  | nil => exact ⟨h, rfl, rfl, rfl, rfl⟩
  | append_singleton moves move ih =>
    obtain ⟨hphase, hswitches, hanswers, hpolls, hbytes⟩ := ih
    obtain ⟨heard, took, asked, hmoved⟩ := (hlinked.run moves).moved_step move
    obtain ⟨rfl, rfl, hphase', hswitches'⟩ := ended_of_shift hphase hmoved.shift
    have hidle := pollTicket?_of_phase hphase (by simp)
    rw [run_append]
    refine ⟨hphase'.trans hphase, hswitches'.trans hswitches, ?_, ?_, ?_⟩
    · exact hmoved.answers_eq.trans ((List.append_nil _).trans hanswers)
    · exact hmoved.polls_eq.trans ((List.append_nil _).trans hpolls)
    · exact ((hlinked.run moves).pollBytes_step hidle move).trans hbytes

/-! ## The law -/

/-- The poll loop has got the lock, and its call has not ended. -/
def Holds (w : Watch) : Prop :=
  ∃ k ∈ w.session.connection.line, k.ticket ∈ w.polls ∧ k.stage ≠ .waiting

/-- What becomes of a watch whose poll loop is cancelled. -/
structure Cancelled (w w' : Watch) : Prop where
  /-- The poll loop is over for good, and without an error. -/
  ended : ∀ moves, (w'.run moves).session.phase? = some (.ended none)
  /-- It asks no more, and not a byte of its polls is written any more. -/
  silent : ∀ moves, (w'.run moves).polls = w.polls ∧ (w'.run moves).pollBytes = w.pollBytes
  /-- What has been answered has been learnt, and stays so. -/
  learnt : ∀ moves, (w'.run moves).answers = w.answers ∧
    (w'.run moves).session.switches = w.session.switches
  /-- The stream goes with a poll that has got the lock, -/
  dropped : w.Holds → w.session.connection.link ≠ none ∧ w'.session.connection.link = none
  /-- and with no other. -/
  kept : ¬w.Holds → w'.session.connection.link = w.session.connection.link
  /-- Whoever else stands in line stays there. -/
  others : w'.session.connection.line = w.session.connection.line.filter (·.ticket ∉ w.polls)

/-- What can be relied on about a poll loop that waits. -/
structure Suspended (switches : SwitchTable) (w : Watch) : Prop where
  /-- Of the poll loop nothing is in line but a poll that has not ended, while the loop asks. -/
  in_line : ∀ k ∈ w.session.connection.line, k.ticket ∈ w.polls →
    w.session.phase? = some (.asking k.ticket) ∧ k.call = .request .pollChanges ∧
      ∀ outcome, Event.settled k.ticket outcome ∉ w.usage.events
  /-- It never ends the stream. -/
  never_closes : ∀ k, w.session.connection.closer = some k → k.ticket ∉ w.polls
  /-- It has the lock from the first byte that it has to write to the last byte of the reply. -/
  holds : w.Holds → ∃ k rest, w.session.connection.line = k :: rest ∧
    w.session.phase? = some (.asking k.ticket) ∧
      (k.stage = .draining ∨ k.stage = .writing ∨ k.stage = .reading)
  /-- While it does anything else, nobody waits for it: the connection goes through whatever turns
  host and stream bring about, even if the host takes nothing off the channel. -/
  unhindered : (∀ t, w.session.phase? ≠ some (.asking t)) →
    (∀ k ∈ w.session.connection.line, k.ticket ∉ w.polls) ∧ ∀ turns,
      (w.run (turns.flatMap Turn.moves)).usage = w.usage.run turns ∧
        (w.run (turns.flatMap Turn.moves)).session.pollState = w.session.pollState
  /-- While the channel is full, the poll loop does nothing. -/
  blocked : ∀ event, w.waiting = [event] → w.session.channel.abandoned = false →
    w.session.channel.capacity ≤ w.session.channel.queue.length →
      (∀ t, w.session.phase? ≠ some (.asking t)) ∧ w.step .advance = w
  /-- It can be cancelled wherever it is. -/
  cancelled : w.session.isPolling = true → w.Cancelled (w.step .cancelPolling)
  /-- Every change that has been answered is in the table. -/
  learnt : w.session.switches = switches.learn (w.answers.filterMap PollLoop.change?)
  /-- If it has ended with an error, the last poll has failed with it, and the host has been told so
  or has gone away. -/
  failed : ∀ e, w.session.phase? = some (.ended (some e)) →
    ∃ earlier outcome, w.answers = earlier ++ [outcome] ∧ PollLoop.judge outcome = .error e ∧
      (.pollFailed e ∈ w.posted ∨ w.session.channel.abandoned = true)

/-! ### Polls in line -/

theorem Linked.decided (h : w.Linked) : w.usage.Decided := by
  obtain ⟨peer, turns, heq⟩ := h.usage_eq
  exact heq ▸ Usage.decided_run peer turns

/-- Of the poll loop only the call under way is in line. -/
private theorem Linked.mem_polls (h : w.Linked) {k : Caller} (hk : k ∈ w.session.connection.line) :
    k.ticket ∈ w.polls ↔ w.session.pollTicket? = some k.ticket := by
  refine ⟨fun hpoll ↦ (h.gone _ hpoll).resolve_right fun hgone ↦ ?_, h.under_way _⟩
  rw [h.connection_eq] at hk
  exact hgone.2 k hk rfl

private theorem Linked.call_of_poll (h : w.Linked) {k : Caller}
    (hk : k ∈ w.session.connection.line) (hpoll : k.ticket ∈ w.polls) :
    k.call = .request .pollChanges := by
  rw [h.connection_eq] at hk
  exact Option.some.inj ((h.sound.orderly.call_of k hk).symm.trans (h.polled _ hpoll))

private theorem Linked.in_line (h : w.Linked) {k : Caller} (hk : k ∈ w.session.connection.line)
    (hpoll : k.ticket ∈ w.polls) :
    w.session.phase? = some (.asking k.ticket) ∧ k.call = .request .pollChanges ∧
      ∀ outcome, Event.settled k.ticket outcome ∉ w.usage.events := by
  refine ⟨Session.pollTicket?_eq_some _ |>.mp ((h.mem_polls hk).mp hpoll),
    h.call_of_poll hk hpoll, fun outcome hmem ↦ ?_⟩
  rw [h.connection_eq] at hk
  exact (h.sound.settled_gone _ _ hmem).2 k hk rfl

private theorem Linked.holds (h : w.Linked) (hholds : w.Holds) :
    ∃ k rest, w.session.connection.line = k :: rest ∧
      w.session.phase? = some (.asking k.ticket) ∧
        (k.stage = .draining ∨ k.stage = .writing ∨ k.stage = .reading) := by
  obtain ⟨k, hk, hpoll, hstage⟩ := hholds
  have hbehind : ∀ k ∈ w.session.connection.line.tail, k.stage = .waiting := by
    rw [h.connection_eq]
    exact h.sound.orderly.tail_waiting
  obtain ⟨rest, hline⟩ := Connection.head_of_stage hbehind hk hstage
  refine ⟨k, rest, hline, (h.in_line hk hpoll).1, ?_⟩
  cases hk' : k.stage with
  | waiting => exact absurd hk' hstage
  | draining => exact .inl rfl
  | writing => exact .inr (.inl rfl)
  | reading => exact .inr (.inr rfl)

private theorem Linked.not_in_line (h : w.Linked) (hidle : w.session.pollTicket? = none) :
    ∀ k ∈ w.session.connection.line, k.ticket ∉ w.polls := by
  intro k hk hpoll
  have hticket := (h.mem_polls hk).mp hpoll
  rw [hidle] at hticket
  cases hticket

/-- Without its call, the line is without the poll loop. -/
private theorem Linked.filter_line (h : w.Linked) {t : Ticket}
    (hticket : w.session.pollTicket? = some t) :
    w.session.connection.line.filter (·.ticket != t) =
      w.session.connection.line.filter (·.ticket ∉ w.polls) := by
  refine List.filter_congr fun k hk ↦ ?_
  have hsame : k.ticket ∈ w.polls ↔ k.ticket = t := by
    rw [h.mem_polls hk, hticket, Option.some.injEq, eq_comm]
  rw [Bool.eq_iff_iff, bne_iff_ne, decide_eq_true_iff]
  exact hsame.not.symm

/-! ### Cancelling -/

/-- Whether a poll has got the lock can be seen from what its call owes. -/
private theorem Linked.owes (h : w.Linked) {t : Ticket} (hticket : w.session.pollTicket? = some t) :
    w.session.connection.line.any (fun k ↦ k.ticket == t && k.owesReply) = true ↔ w.Holds := by
  rw [List.any_eq_true]
  constructor
  · rintro ⟨k, hk, hboth⟩
    obtain ⟨hown, howes⟩ := Bool.and_eq_true_iff.mp hboth
    obtain rfl := eq_of_beq hown
    exact ⟨k, hk, (h.mem_polls hk).mpr hticket, Caller.stage_ne_of_owesReply howes⟩
  · rintro ⟨k, hk, hpoll, hstage⟩
    obtain rfl := Option.some.inj (((h.mem_polls hk).mp hpoll).symm.trans hticket)
    refine ⟨k, hk, ?_⟩
    simp [Caller.owesReply, h.call_of_poll hk hpoll, hstage]

/-- In the move in which it is cancelled, nothing of the poll loop is written. -/
private theorem Linked.pollBytes_cancel (h : w.Linked) :
    (w.step .cancelPolling).pollBytes = w.pollBytes := by
  cases hticket : w.session.pollTicket? with
  | none => exact h.pollBytes_step hticket .cancelPolling
  | some t =>
    have husage : (w.step .cancelPolling).usage = w.usage.act (.cancel t) := by
      rw [step, Session.turn?, hticket, Option.map_some, Option.map_some, Option.getD_some,
        Usage.step_act (by simp)]
    have hwritten : Trace.written (w.usage.connection.step (.cancel t)).2 = [] := by
      refine List.flatMap_eq_nil_iff.mpr fun e he ↦ ?_
      rw [(w.usage.connection.step_cancel t).2.2 e he]
      rfl
    have hpolls : (w.step .cancelPolling).polls = w.polls := List.append_nil _
    rw [pollBytes, husage, hpolls, Usage.act, Trace.sent_append_of_not_written
      (h.framed.inOrder _ List.prefix_rfl) hwritten]
    rfl

private theorem Linked.cancelled (h : w.Linked) (hpolling : w.session.isPolling = true) :
    w.Cancelled (w.step .cancelPolling) := by
  obtain ⟨loop, hpoll, hrunning⟩ := (Option.any_eq_true _ _).mp hpolling
  have hsession : (w.step .cancelPolling).session = _ :=
    Session.cancelPolling_of_running hpoll hrunning
  have hphase : (w.step .cancelPolling).session.phase? = some (.ended none) := by
    rw [hsession]
    rfl
  have hmoved := h.moved_cancel
  have hlater := ended_run hmoved.linked hphase
  have hticket : w.session.pollTicket? = loop.ticket? := by
    rw [Session.pollTicket?, hpoll, Option.bind_some]
  have hconnection : (w.step .cancelPolling).session.connection =
      (w.session.pollTicket?.map fun t ↦ (w.session.connection.step (.cancel t)).1).getD
        w.session.connection := by
    rw [hsession, hticket]
  refine ⟨fun moves ↦ (hlater moves).1, fun moves ↦ ⟨?_, ?_⟩, fun moves ↦ ⟨?_, ?_⟩, fun hholds ↦ ?_,
    fun hnot ↦ ?_, ?_⟩
  · exact (hlater moves).2.2.2.1.trans (hmoved.polls_eq.trans (List.append_nil _))
  · exact (hlater moves).2.2.2.2.trans h.pollBytes_cancel
  · exact (hlater moves).2.2.1.trans (hmoved.answers_eq.trans (List.append_nil _))
  · exact (hlater moves).2.1.trans (by rw [hsession])
  · obtain ⟨k, hk, hown, hstage⟩ := hholds
    have ht := (h.mem_polls hk).mp hown
    constructor
    · rw [h.connection_eq] at hk ⊢
      exact h.decided.manned k hk hstage
    · rw [hconnection, ht, Option.map_some, Option.getD_some,
        (w.session.connection.step_cancel _).1, if_pos ((h.owes ht).mpr ⟨k, hk, hown, hstage⟩)]
  · rw [hconnection]
    cases ht : w.session.pollTicket? with
    | none => rfl
    | some t =>
      rw [Option.map_some, Option.getD_some, (w.session.connection.step_cancel t).1,
        if_neg (mt (h.owes ht).mp hnot)]
  · rw [hconnection]
    cases ht : w.session.pollTicket? with
    | none =>
      refine (List.filter_eq_self.mpr fun k hk ↦ ?_).symm
      exact decide_eq_true (h.not_in_line ht k hk)
    | some t =>
      rw [Option.map_some, Option.getD_some, (w.session.connection.step_cancel t).2.1]
      exact h.filter_line ht

/-! ### Waiting for room -/

private theorem step_advance_of_full {event : PlatformEvent} (hwaiting : w.waiting = [event])
    (hopen : w.session.channel.abandoned = false)
    (hfull : w.session.channel.capacity ≤ w.session.channel.queue.length) :
    (∀ t, w.session.phase? ≠ some (.asking t)) ∧ w.step .advance = w := by
  have hoffer : w.session.channel.offer event = .full := by
    simp [Channel.offer, hopen, Nat.not_lt.mpr hfull]
  obtain ⟨switch, active, hphase, rfl⟩ | ⟨e, hphase, rfl⟩ := phase_of_waiting hwaiting
  all_goals
    obtain ⟨interval, hpoll⟩ := poll_of_phase hphase
    refine ⟨by simp [hphase], ?_⟩
    simp [step, Session.step, Session.advance?, Session.turn?, Session.asks?, Session.takes?, hpoll,
      hphase, hoffer]

/-! ### Having failed -/

private theorem reported_of_ended (h : Kept switches w.session.pollState w.answers w.taken)
    {e : DeviceError} (hphase : w.session.phase? = some (.ended (some e))) :
    ∃ earlier outcome, w.answers = earlier ++ [outcome] ∧ PollLoop.judge outcome = .error e ∧
      (.pollFailed e ∈ w.posted ∨ w.session.channel.abandoned = true) := by
  obtain ⟨earlier, outcome, hanswers, hjudge⟩ := h.failed e (.inr hphase)
  refine ⟨earlier, outcome, hanswers, hjudge, ?_⟩
  rcases Bool.eq_false_or_eq_true w.session.channel.abandoned with hgone | hopen
  · exact .inr hgone
  · have hreported :
        w.posted ++ w.session.pollState.waiting = w.answers.filterMap PollLoop.event? :=
      h.reported hopen (by simp [Session.pollState, hphase])
    have hempty : w.session.pollState.waiting = [] := by
      rw [PollState.waiting, Session.pollState, hphase]
      rfl
    rw [hempty, List.append_nil] at hreported
    refine .inl (hreported ▸ List.mem_filterMap.mpr ⟨outcome, by simp [hanswers], ?_⟩)
    rw [PollLoop.event?, hjudge]

/-! ### All runs -/

/-- **A poll loop that waits is in nobody's way, and can be stopped wherever it is.** It holds
however board, poll loop and host interleave, on a connection that others use beside the poll loop.
A poll loop that has ended without an error has been cancelled while it was running. -/
theorem suspended_run (peer : String) (earlier : List Move) (switches : SwitchTable)
    (capacity interval : Nat) (moves : List Move) :
    let start := polling peer earlier switches capacity interval
    (start.run moves).Suspended switches ∧
      ((start.run moves).session.phase? = some (.ended none) →
        ∃ before after, moves = before ++ .cancelPolling :: after ∧
          (start.run before).session.isPolling = true) := by
  intro start
  have hlinked := (linked_polling peer earlier switches capacity interval).run moves
  have hkept := kept_run peer earlier switches capacity interval moves
  constructor
  · generalize start.run moves = w at hlinked hkept
    refine ⟨fun k ↦ hlinked.in_line, fun k hk hpoll ↦ ?_, hlinked.holds, fun hphase ↦ ?_,
      fun event ↦ step_advance_of_full, hlinked.cancelled, hkept.cached,
      fun e ↦ reported_of_ended hkept⟩
    · -- who ends the stream has asked for it, and the poll loop asks something else
      rw [hlinked.connection_eq] at hk
      have hclose := (hlinked.sound.closer_gone k hk).2
      rw [hlinked.polled _ hpoll] at hclose
      cases hclose
    · have hidle : w.session.pollTicket? = none := by
        refine Option.eq_none_iff_forall_ne_some.mpr fun t ht ↦ ?_
        exact hphase t ((Session.pollTicket?_eq_some _).mp ht)
      exact ⟨hlinked.not_in_line hidle, run_of_idle hidle⟩
  · intro hended
    clear hlinked hkept
    induction moves using List.reverseRecOn with
    | nil => cases hended
    | append_singleton moves move ih =>
      rw [run_append] at hended
      obtain hbefore | ⟨rfl, hpolling⟩ := Session.phase?_step_ended hended
      · obtain ⟨before, after, rfl, hpolling⟩ := ih hbefore
        exact ⟨before, after ++ [move], by simp, hpolling⟩
      · exact ⟨moves, [], rfl, hpolling⟩

/-- A board has told of two changes, and nobody takes the first event. The poll loop waits with the
second one, and is stopped there: the stream stays, and so does what the board has told. -/
theorem suspended_run_full :
    let ask : List Move := [.advance, .link .proceed, .link (.accept 1), .link .flush]
    let moves := ask ++ [.link (.receive [133]), .advance] ++ ask ++ [.link (.receive [5])]
    let w := (polling "board" [] .empty 1 50).run moves
    let stopped := w.step .cancelPolling
    w.step .advance = w ∧ stopped.session.connection.link ≠ none ∧
      (∀ later, (stopped.run later).session.switches.get? (.ofPosition 0 5) = some false) ∧
      ∃ before after, moves ++ [.cancelPolling] = before ++ .cancelPolling :: after ∧
        ((polling "board" [] .empty 1 50).run before).session.isPolling = true := by
  intro ask moves w stopped
  obtain ⟨hsuspended, -⟩ := suspended_run "board" [] .empty 1 50 moves
  obtain ⟨hphase, hblocked⟩ := hsuspended.blocked (.switchChanged (.ofPosition 0 5) false)
    (by decide +kernel) (by decide +kernel) (by decide +kernel)
  have hcancelled := hsuspended.cancelled (by decide +kernel)
  have hfree : ¬w.Holds := fun ⟨k, hk, hpoll, _⟩ ↦ (hsuspended.unhindered hphase).1 k hk hpoll
  refine ⟨hblocked, ?_, fun later ↦ ?_, ?_⟩
  · rw [hcancelled.kept hfree]
    decide +kernel
  · rw [(hcancelled.learnt later).2]
    decide +kernel
  · have hrun := run_append (polling "board" [] .empty 1 50) moves [.cancelPolling]
    obtain ⟨-, hstopped⟩ := suspended_run "board" [] .empty 1 50 (moves ++ [.cancelPolling])
    rw [hrun] at hstopped
    exact hstopped (hcancelled.ended [])

end Watch

end PinballBoard
