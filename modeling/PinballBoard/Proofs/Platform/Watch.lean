import PinballBoard.Platform.Session
import PinballBoard.Proofs.Link.Idle
import PinballBoard.Proofs.Link.Origin

/-!
# Sessions, watched

A session forgets what it has done: which calls were those of the poll loop, how they have ended,
what the host has taken off the channel. `Watch` is a session together with this history, and
`Watch.run` takes it through any list of moves. A statement about all lists of moves is a statement
about all ways in which board, poll loop and host can interleave.

## Two layers

What happens to the connection of a session is a usage of this connection: `Session.turn?` tells the
turn that a move is. So the watch carries a `Usage` beside the session, every theorem about usages
holds of it (`Watch.Linked`), and nothing about the line, the codec or the stream has to be proved a
second time.

What happens to the rest of a session is little. `PollState` is this rest: the table, the channel
and the phase of the poll loop. `PollState.Shift` lists all that a move can do to it, together with
what goes in and out, and `Watch.Linked.moved_step` says that the list is complete. It is the only
place where the functions behind `Session.step` are opened.
-/

namespace PinballBoard

namespace Session

/-! ## What a move is for the connection -/

/-- What the poll loop is doing, once there is one. -/
def phase? (s : Session) : Option PollPhase := s.poll.map (·.phase)

/-- The call of the poll loop that is under way. -/
def pollTicket? (s : Session) : Option Ticket := s.poll.bind PollLoop.ticket?

/-- The turn that a move is for the connection, if it is one. -/
def turn? (s : Session) : Move → Option Turn
  | .call call => some (.call call)
  | .giveUp ticket => if s.pollTicket? = some ticket then none else some (.act (.cancel ticket))
  | .abort => some (.act .abort)
  | .link action => if action.isProgress then some (.act action) else none
  | .advance => if s.phase? = some .ready then some (.call (.request .pollChanges)) else none
  | .cancelPolling => s.pollTicket?.map fun ticket ↦ .act (.cancel ticket)
  | .take | .abandon => none
  | .elapse ms => some (.act (.elapse ms))

/-- The call that the poll loop makes in a move. -/
def asks? (s : Session) : Move → Option Ticket
  | .advance => if s.phase? = some .ready then some s.nextTicket else none
  | _ => none

/-- The event that the host takes in a move. -/
def takes? (s : Session) : Move → Option PlatformEvent
  | .take => s.channel.queue.head?
  | _ => none

/-! ## What the poll loop hears -/

/-- The poll loop hears of the end of a call, if the call is its own. -/
def hearEnd (s : Session) (p : Ticket × Outcome) : Session :=
  match s.poll with
  | some loop => if loop.ticket? = some p.1 then s.hear loop p.2 else s
  | none => s

variable (s : Session)

/-- Of all that is noted the poll loop hears the ends of calls. -/
theorem settle_fst (events : Trace) : (s.settle events).1 = events.settled.foldl hearEnd s := by
  induction events generalizing s with
  | nil => rfl
  | cons event events ih =>
    cases event with
    | settled t outcome =>
      rw [Trace.settled_cons, Event.settling?, Option.toList_some, List.singleton_append,
        List.foldl_cons, ← ih]
      cases hpoll : s.poll with
      | none => simp only [settle, hearEnd, hpoll]
      | some loop =>
        by_cases hticket : loop.ticket? = some t
        · simp only [settle, hearEnd, hpoll, if_pos hticket]
        · simp only [settle, hearEnd, hpoll, if_neg hticket]
    | _ => exact ih s

theorem stepLink_fst (a : Action) :
    (s.stepLink a).1 = (Trace.settled (s.connection.step a).2).foldl hearEnd
      { s with connection := (s.connection.step a).1 } :=
  settle_fst { s with connection := (s.connection.step a).1 } _

theorem hearEnd_of_ne {p : Ticket × Outcome} (h : s.pollTicket? ≠ some p.1) : s.hearEnd p = s := by
  unfold hearEnd
  split
  · rename_i loop hloop
    have hne : loop.ticket? ≠ some p.1 := by simpa [pollTicket?, hloop] using h
    rw [if_neg hne]
  · rfl

/-- Whose call is under way asks. -/
theorem pollTicket?_eq_some {t : Ticket} :
    s.pollTicket? = some t ↔ s.phase? = some (.asking t) := by
  unfold pollTicket? phase? PollLoop.ticket?
  cases s.poll with
  | none => simp
  | some loop => cases hphase : loop.phase <;> simp [hphase]

end Session

/-! ## The state of polling -/

/-- What a session holds besides the connection and the clock. -/
structure PollState where
  switches : SwitchTable
  channel : Channel
  phase : Option PollPhase

def Session.pollState (s : Session) : PollState := ⟨s.switches, s.channel, s.phase?⟩

/-- The event that the poll loop has and the channel has not. -/
def PollPhase.waiting : PollPhase → List PlatformEvent
  | .delivering switch active => [.switchChanged switch active]
  | .reporting e => [.pollFailed e]
  | _ => []

namespace PollState

/-- The event that waits for room on the channel. -/
def waiting (d : PollState) : List PlatformEvent := (d.phase.map PollPhase.waiting).getD []

/-- All that one move can do to it: how the call of the poll loop has ended, which event the host
has taken, and which call the poll loop has made. -/
inductive Shift :
    PollState → Option Outcome → Option PlatformEvent → Option Ticket → PollState → Prop where
  /-- Nothing happens here. -/
  | stays (d : PollState) : Shift d none none none d
  /-- The poll loop asks. -/
  | asks {table : SwitchTable} {channel : Channel} (t : Ticket) :
      Shift ⟨table, channel, some .ready⟩ none none (some t) ⟨table, channel, some (.asking t)⟩
  /-- Nothing has changed. -/
  | unchanged {table : SwitchTable} {channel : Channel} {t : Ticket} {outcome : Outcome}
      (deadline : Nat) (hjudge : PollLoop.judge outcome = .ok .unchanged) :
      Shift ⟨table, channel, some (.asking t)⟩ (some outcome) none none
        ⟨table, channel, some (.resting deadline)⟩
  /-- A switch has changed. -/
  | changed {table : SwitchTable} {channel : Channel} {t : Ticket} {outcome : Outcome}
      {switch : Switch} {active : Bool}
      (hjudge : PollLoop.judge outcome = .ok (.changed switch active)) :
      Shift ⟨table, channel, some (.asking t)⟩ (some outcome) none none
        ⟨table.insert switch active, channel, some (.delivering switch active)⟩
  /-- The poll has failed. -/
  | fails {table : SwitchTable} {channel : Channel} {t : Ticket} {outcome : Outcome}
      {e : DeviceError} (hjudge : PollLoop.judge outcome = .error e) :
      Shift ⟨table, channel, some (.asking t)⟩ (some outcome) none none
        ⟨table, channel, some (.reporting e)⟩
  /-- The poll loop has rested. -/
  | wakes {table : SwitchTable} {channel : Channel} {deadline : Nat} :
      Shift ⟨table, channel, some (.resting deadline)⟩ none none none
        ⟨table, channel, some .ready⟩
  /-- A change gets on the channel. -/
  | posts {table : SwitchTable} {channel : Channel} {switch : Switch} {active : Bool}
      (hopen : channel.abandoned = false) (hroom : channel.queue.length < channel.capacity) :
      Shift ⟨table, channel, some (.delivering switch active)⟩ none none none
        ⟨table, { channel with queue := channel.queue ++ [.switchChanged switch active] },
          some .ready⟩
  /-- A change is for nobody. -/
  | skips {table : SwitchTable} {channel : Channel} {switch : Switch} {active : Bool}
      (hgone : channel.abandoned = true) :
      Shift ⟨table, channel, some (.delivering switch active)⟩ none none none
        ⟨table, channel, some .ready⟩
  /-- A failure gets on the channel. -/
  | reports {table : SwitchTable} {channel : Channel} {e : DeviceError}
      (hopen : channel.abandoned = false) (hroom : channel.queue.length < channel.capacity) :
      Shift ⟨table, channel, some (.reporting e)⟩ none none none
        ⟨table, { channel with queue := channel.queue ++ [.pollFailed e] }, some (.ended (some e))⟩
  /-- A failure is for nobody. -/
  | ends {table : SwitchTable} {channel : Channel} {e : DeviceError}
      (hgone : channel.abandoned = true) :
      Shift ⟨table, channel, some (.reporting e)⟩ none none none
        ⟨table, channel, some (.ended (some e))⟩
  /-- The poll loop is cancelled. -/
  | stops {table : SwitchTable} {channel : Channel} {phase : PollPhase}
      (hrunning : ∀ failure, phase ≠ .ended failure) :
      Shift ⟨table, channel, some phase⟩ none none none ⟨table, channel, some (.ended none)⟩
  /-- The host takes an event. -/
  | takes {table : SwitchTable} {channel : Channel} {phase : Option PollPhase}
      {event : PlatformEvent} {queue : List PlatformEvent}
      (hqueue : channel.queue = event :: queue) :
      Shift ⟨table, channel, phase⟩ none (some event) none
        ⟨table, { channel with queue }, phase⟩
  /-- The host goes away. -/
  | leaves {table : SwitchTable} {channel : Channel} {phase : Option PollPhase} :
      Shift ⟨table, channel, phase⟩ none none none ⟨table, channel.abandon, phase⟩

end PollState

/-! ## Watches -/

/-- A session, and what has been noted of it. -/
structure Watch where
  session : Session
  /-- What the connection has gone through. -/
  usage : Usage
  /-- The calls of the poll loop, oldest first. -/
  polls : List Ticket
  /-- The events that the host has taken off the channel, oldest first. -/
  taken : List PlatformEvent

namespace Watch

/-- A session over a stream that has just been opened. -/
def fresh (peer : String) : Watch := ⟨.fresh peer, .fresh peer, [], []⟩

/-- One move. -/
def step (w : Watch) (move : Move) : Watch where
  session := (w.session.step move).1
  usage := ((w.session.turn? move).map w.usage.step).getD w.usage
  polls := w.polls ++ (w.session.asks? move).toList
  taken := w.taken ++ (w.session.takes? move).toList

/-- Any number of moves. -/
def run (w : Watch) (moves : List Move) : Watch := moves.foldl step w

theorem run_append (w : Watch) (moves more : List Move) :
    w.run (moves ++ more) = (w.run moves).run more := List.foldl_append

/-- The poll loop is started. -/
def beginPolling (w : Watch) (switches : SwitchTable) (capacity interval : Nat) : Watch :=
  { w with session := w.session.beginPolling switches capacity interval }

variable (w : Watch)

/-- How the calls of the poll loop have ended, oldest first. -/
def answers : List Outcome := (w.usage.events.settled.filter (·.1 ∈ w.polls)).map Prod.snd

/-- The events that have been put on the channel, oldest first, as long as the host is there. -/
def posted : List PlatformEvent := w.taken ++ w.session.channel.queue

/-- The event that waits for room on the channel. -/
def waiting : List PlatformEvent := w.session.pollState.waiting

/-- The bytes that the polls have written. -/
def pollBytes : Bytes := (w.usage.events.sent.filter (·.1 ∈ w.polls)).map Prod.snd

/-- The history belongs to the session. -/
structure Linked (w : Watch) : Prop where
  /-- What the connection has gone through is a usage of it. -/
  usage_eq : ∃ peer turns, w.usage = (Usage.fresh peer).run turns
  connection_eq : w.session.connection = w.usage.connection
  nextTicket_eq : w.session.nextTicket = w.usage.calls.length
  /-- The poll loop has asked what has changed, and nothing else. -/
  polled : ∀ t ∈ w.polls, w.usage.calls[t]? = some (.request .pollChanges)
  /-- Its calls have gone, but for the one that is under way. -/
  gone : ∀ t ∈ w.polls, w.session.pollTicket? = some t ∨ w.usage.Gone t
  under_way : ∀ t, w.session.pollTicket? = some t → t ∈ w.polls

variable {w : Watch}

theorem linked_fresh (peer : String) : (fresh peer).Linked where
  usage_eq := ⟨peer, [], rfl⟩
  connection_eq := rfl
  nextTicket_eq := rfl
  polled _ ht := absurd ht List.not_mem_nil
  gone _ ht := absurd ht List.not_mem_nil
  under_way _ ht := nomatch ht

theorem Linked.sound (h : w.Linked) : w.usage.Sound := by
  obtain ⟨peer, turns, heq⟩ := h.usage_eq
  exact heq ▸ Usage.sound_run peer turns

theorem Linked.framed (h : w.Linked) : w.usage.Framed := by
  obtain ⟨peer, turns, heq⟩ := h.usage_eq
  exact heq ▸ Usage.framed_run peer turns

theorem Linked.told (h : w.Linked) : w.usage.Told := by
  obtain ⟨peer, turns, heq⟩ := h.usage_eq
  exact heq ▸ (Usage.armed_told_run peer turns).2

theorem Linked.billed (h : w.Linked) : w.usage.Billed := by
  obtain ⟨peer, turns, heq⟩ := h.usage_eq
  exact heq ▸ Usage.billed_run peer turns

theorem Linked.usage_step (h : w.Linked) (turn : Turn) :
    ∃ peer turns, w.usage.step turn = (Usage.fresh peer).run turns := by
  obtain ⟨peer, turns, heq⟩ := h.usage_eq
  refine ⟨peer, turns ++ [turn], ?_⟩
  rw [Usage.run, List.foldl_append, heq]
  rfl

/-! ## One move -/

/-- What one move does to a watch. -/
structure Moved (w : Watch) (heard : Option Outcome) (took : Option PlatformEvent)
    (asked : Option Ticket) (w' : Watch) : Prop where
  linked : w'.Linked
  shift : PollState.Shift w.session.pollState heard took asked w'.session.pollState
  answers_eq : w'.answers = w.answers ++ heard.toList
  polls_eq : w'.polls = w.polls ++ asked.toList
  taken_eq : w'.taken = w.taken ++ took.toList

private theorem answers_act (u : Usage) (polls : List Ticket) (a : Action) :
    ((u.act a).events.settled.filter (·.1 ∈ polls)).map Prod.snd =
      (u.events.settled.filter (·.1 ∈ polls)).map Prod.snd ++
        ((Trace.settled (u.connection.step a).2).filter (·.1 ∈ polls)).map Prod.snd := by
  rw [Usage.act, Trace.settled_append, List.filter_append, List.map_append]

private theorem shift_hear (s : Session) {loop : PollLoop} {t : Ticket} (hpoll : s.poll = some loop)
    (hphase : loop.phase = .asking t) (outcome : Outcome) :
    PollState.Shift s.pollState (some outcome) none none (s.hear loop outcome).pollState ∧
      (s.hear loop outcome).pollTicket? = none := by
  have hpollState : s.pollState = ⟨s.switches, s.channel, some (.asking t)⟩ := by
    simp [Session.pollState, Session.phase?, hpoll, hphase]
  rw [hpollState]
  unfold Session.hear
  cases hjudge : PollLoop.judge outcome with
  | ok report =>
    cases report with
    | unchanged =>
      simp only [Session.pollState, Session.phase?, Session.pollTicket?, Session.setPhase, hpoll,
        Option.map_some, Option.bind_some]
      exact ⟨.unchanged _ hjudge, rfl⟩
    | changed switch active =>
      simp only [Session.pollState, Session.phase?, Session.pollTicket?, Session.setPhase, hpoll,
        Option.map_some, Option.bind_some]
      exact ⟨.changed hjudge, rfl⟩
  | error e =>
    simp only [Session.pollState, Session.phase?, Session.pollTicket?, Session.setPhase, hpoll,
      Option.map_some, Option.bind_some]
    exact ⟨.fails hjudge, rfl⟩

private theorem hear_connection (s : Session) (loop : PollLoop) (outcome : Outcome) :
    (s.hear loop outcome).connection = s.connection ∧
      (s.hear loop outcome).nextTicket = s.nextTicket := by
  unfold Session.hear
  split <;> exact ⟨rfl, rfl⟩

/-- The connection has made a step that is no call, and the poll loop has at most lost its call. -/
private theorem Linked.act (h : w.Linked) {a : Action} (ha : ∀ t call, a ≠ .enter t call)
    {w' : Watch} (husage : w'.usage = w.usage.act a)
    (hconnection : w'.session.connection = (w.session.connection.step a).1)
    (hnext : w'.session.nextTicket = w.session.nextTicket) (hpolls : w'.polls = w.polls)
    (hticket : ∀ t, w'.session.pollTicket? = some t → w.session.pollTicket? = some t)
    (hgone : ∀ t, w.session.pollTicket? = some t →
      w'.session.pollTicket? = some t ∨ (w.usage.act a).Gone t) : w'.Linked where
  usage_eq := by
    obtain ⟨peer, turns, heq⟩ := h.usage_step (.act a)
    exact ⟨peer, turns, by rw [husage, ← heq, Usage.step_act ha]⟩
  connection_eq := by rw [hconnection, husage, h.connection_eq, Usage.act]
  nextTicket_eq := by rw [hnext, husage, h.nextTicket_eq, Usage.act]
  polled t ht := by
    rw [husage]
    exact h.polled t (hpolls ▸ ht)
  gone t ht := by
    rw [husage]
    rcases h.gone t (hpolls ▸ ht) with hunder | hgone'
    · exact hgone t hunder
    · exact .inr (hgone'.act ha)
  under_way t ht := hpolls ▸ h.under_way t (hticket t ht)

/-- The watch after a step of the connection that is no call. -/
private structure Linking (w : Watch) (a : Action) (clock : Nat) (w' : Watch) : Prop where
  session_eq : w'.session = (Trace.settled (w.session.connection.step a).2).foldl Session.hearEnd
    { w.session with clock, connection := (w.session.connection.step a).1 }
  usage_eq : w'.usage = w.usage.act a
  polls_eq : w'.polls = w.polls
  taken_eq : w'.taken = w.taken

private theorem linking_step {move : Move} {a : Action} {clock : Nat}
    (ha : ∀ t call, a ≠ .enter t call)
    (hstep : (w.session.step move).1 = ({ w.session with clock }.stepLink a).1)
    (hturn : w.session.turn? move = some (.act a)) (hasks : w.session.asks? move = none)
    (htakes : w.session.takes? move = none) : Linking w a clock (w.step move) where
  session_eq := by rw [step, hstep, Session.stepLink_fst]
  usage_eq := by rw [step, hturn, Option.map_some, Option.getD_some, Usage.step_act ha]
  polls_eq := by rw [step, hasks, Option.toList_none, List.append_nil]
  taken_eq := by rw [step, htakes, Option.toList_none, List.append_nil]

section Linking

variable {a : Action} {clock : Nat} {w' : Watch}

private theorem Linking.answers_eq (h : Linking w a clock w') (hlinked : w.Linked) :
    w'.answers = w.answers ++
      ((Trace.settled (w.session.connection.step a).2).filter (·.1 ∈ w.polls)).map Prod.snd := by
  rw [answers, h.usage_eq, h.polls_eq, answers_act, hlinked.connection_eq, answers]

private theorem Linking.moved_quiet (h : Linking w a clock w') (hlinked : w.Linked)
    (ha : ∀ t call, a ≠ .enter t call)
    (hsession : w'.session =
      { w.session with clock, connection := (w.session.connection.step a).1 })
    (hanswers : w'.answers = w.answers) : Moved w none none none w' := by
  have hticket : w'.session.pollTicket? = w.session.pollTicket? := by rw [hsession]; rfl
  refine ⟨?_, ?_, by simpa using hanswers, by simpa using h.polls_eq, by simpa using h.taken_eq⟩
  · refine hlinked.act ha h.usage_eq (by rw [hsession]) (by rw [hsession]) h.polls_eq ?_ ?_
    · exact fun t ht ↦ hticket ▸ ht
    · exact fun t ht ↦ .inl (hticket ▸ ht)
  · rw [hsession]
    exact .stays _

private theorem Linking.moved_hears (h : Linking w a clock w') (hlinked : w.Linked)
    (ha : ∀ t call, a ≠ .enter t call) {t : Ticket} {outcome : Outcome}
    (hsettled : Trace.settled (w.session.connection.step a).2 = [(t, outcome)])
    (hunder : w.session.pollTicket? = some t) : Moved w (some outcome) none none w' := by
  obtain ⟨loop, hpoll, hloop⟩ := Option.bind_eq_some_iff.mp hunder
  have hphase : loop.phase = .asking t := by
    have hasks := (Session.pollTicket?_eq_some _).mp hunder
    simpa [Session.phase?, hpoll] using hasks
  have hhear : w'.session = Session.hear
      { w.session with clock, connection := (w.session.connection.step a).1 } loop outcome := by
    rw [h.session_eq, hsettled, List.foldl_cons, List.foldl_nil, Session.hearEnd]
    simp only [hpoll, if_pos hloop]
  obtain ⟨hshift, hnone⟩ := shift_hear
    { w.session with clock, connection := (w.session.connection.step a).1 } hpoll hphase outcome
  obtain ⟨hconnection, hnext⟩ := hear_connection
    { w.session with clock, connection := (w.session.connection.step a).1 } loop outcome
  rw [← hhear] at hshift hnone
  have hgone : (w.usage.act a).Gone t := by
    obtain ⟨peer, turns, heq⟩ := hlinked.usage_step (.act a)
    rw [Usage.step_act ha] at heq
    have hsound : (w.usage.act a).Sound := heq ▸ Usage.sound_run peer turns
    refine hsound.settled_gone t outcome (Trace.mem_settled.mp ?_)
    rw [Usage.act, Trace.settled_append, ← hlinked.connection_eq, hsettled]
    simp
  refine ⟨?_, hshift, ?_, by simpa using h.polls_eq, by simpa using h.taken_eq⟩
  · refine hlinked.act ha h.usage_eq (by rw [hhear, hconnection]) (by rw [hhear, hnext])
      h.polls_eq (fun t' ht' ↦ ?_) fun t' ht' ↦ ?_
    · rw [hnone] at ht'
      cases ht'
    · obtain rfl : t = t' := Option.some.inj (hunder.symm.trans ht')
      exact .inr hgone
  · rw [h.answers_eq hlinked, hsettled]
    simp [hlinked.under_way t hunder]

end Linking

private theorem Linked.moved_link (h : w.Linked) {move : Move} {a : Action} {clock : Nat}
    (ha : ∀ t call, a ≠ .enter t call)
    (hstep : (w.session.step move).1 = ({ w.session with clock }.stepLink a).1)
    (hturn : w.session.turn? move = some (.act a)) (hasks : w.session.asks? move = none)
    (htakes : w.session.takes? move = none) : ∃ heard, Moved w heard none none (w.step move) := by
  have hlinking := linking_step ha hstep hturn hasks htakes
  have hsession := hlinking.session_eq
  have hanswers := hlinking.answers_eq h
  rcases Usage.settled_of_change ha (w.session.connection.change_step a) with
    hnone | ⟨t, outcome, hsettled, -⟩
  · rw [hnone] at hsession hanswers
    exact ⟨none, hlinking.moved_quiet h ha hsession (by simpa using hanswers)⟩
  by_cases hunder : w.session.pollTicket? = some t
  · exact ⟨some outcome, hlinking.moved_hears h ha hsettled hunder⟩
  · -- a call of the poll loop that is not under way has gone, and does not end again
    have hmem : t ∉ w.polls := by
      intro hmem
      have hgone := (h.gone t hmem).resolve_left hunder
      refine h.sound.not_settled_of_gone hgone (h.polled t hmem) (by simp) ha outcome ?_
      rw [← h.connection_eq, hsettled]
      exact List.mem_singleton_self _
    rw [hsettled] at hsession hanswers
    refine ⟨none, hlinking.moved_quiet h ha ?_ (by simpa [hmem] using hanswers)⟩
    exact hsession.trans (Session.hearEnd_of_ne _ hunder)

private theorem Linked.poll_lt (h : w.Linked) {t : Ticket} (ht : t ∈ w.polls) :
    t < w.usage.calls.length :=
  (List.getElem?_eq_some_iff.mp (h.polled t ht)).choose

/-- Somebody has made a call: a task of the host, or the poll loop. -/
private theorem Linked.enter (h : w.Linked) (call : Call) {w' : Watch}
    (husage : w'.usage = w.usage.step (.call call))
    (hconnection : w'.session.connection =
      (w.session.connection.enter w.session.nextTicket call).1)
    (hnext : w'.session.nextTicket = w.session.nextTicket + 1)
    (hpolls : ∀ t ∈ w'.polls, t ∈ w.polls ∨ t = w.usage.calls.length ∧ call = .request .pollChanges)
    (hgone : ∀ t ∈ w'.polls, w'.session.pollTicket? = some t ∨ w.usage.Gone t)
    (hunder : ∀ t, w'.session.pollTicket? = some t → t ∈ w'.polls) : w'.Linked where
  usage_eq := by
    obtain ⟨peer, turns, heq⟩ := h.usage_step (.call call)
    exact ⟨peer, turns, husage.trans heq⟩
  connection_eq := by
    rw [hconnection, husage, h.connection_eq, h.nextTicket_eq]
    rfl
  nextTicket_eq := by
    rw [hnext, husage, h.nextTicket_eq, Usage.step, List.length_append, List.length_singleton]
  polled t ht := by
    rw [husage]
    rcases hpolls t ht with hold | ⟨rfl, rfl⟩
    · exact getElem?_append_of_some (h.polled t hold) _
    · exact List.getElem?_concat_length
  gone t ht := by
    rw [husage]
    exact (hgone t ht).imp_right fun hgone ↦ hgone.call call
  under_way := hunder

private theorem Linked.moved_call (h : w.Linked) (call : Call) :
    Moved w none none none (w.step (.call call)) := by
  have hnew : w.session.nextTicket ∉ w.polls := by
    intro hmem
    have hlt := h.poll_lt hmem
    rw [h.nextTicket_eq] at hlt
    exact Nat.lt_irrefl _ hlt
  -- the call of the poll loop is an older one
  have hsession : (w.step (.call call)).session =
      { w.session with
        connection := (w.session.connection.enter w.session.nextTicket call).1
        nextTicket := w.session.nextTicket + 1 } := by
    have hne : w.session.pollTicket? ≠ some w.session.nextTicket :=
      fun hunder ↦ hnew (h.under_way _ hunder)
    have hsettled :
        Trace.settled (w.session.connection.enter w.session.nextTicket call).2 = [] ∨
          ∃ outcome, Trace.settled (w.session.connection.enter w.session.nextTicket call).2 =
            [(w.session.nextTicket, outcome)] := by
      unfold Connection.enter
      split
      · exact .inr ⟨_, rfl⟩
      · exact .inl rfl
    change (Session.stepLink { w.session with nextTicket := w.session.nextTicket + 1 }
      (.enter w.session.nextTicket call)).1 = _
    rw [Session.stepLink_fst]
    rcases hsettled with hnone | ⟨outcome, hone⟩
    · exact congrArg (List.foldl _ _) hnone
    · refine (congrArg (List.foldl _ _) hone).trans ?_
      exact Session.hearEnd_of_ne _ hne
  have hticket : (w.step (.call call)).session.pollTicket? = w.session.pollTicket? := by
    rw [hsession]
    rfl
  have hpolls : (w.step (.call call)).polls = w.polls := List.append_nil _
  refine ⟨?_, ?_, ?_, by rw [hpolls, Option.toList_none, List.append_nil], rfl⟩
  · refine h.enter call rfl (by rw [hsession]) (by rw [hsession]) ?_ ?_ ?_
    · exact fun t ht ↦ .inl (hpolls ▸ ht)
    · exact fun t ht ↦ hticket ▸ h.gone t (hpolls ▸ ht)
    · exact fun t ht ↦ hpolls ▸ h.under_way t (hticket ▸ ht)
  · rw [hsession]
    exact .stays _
  · rw [answers, hpolls, Option.toList_none, List.append_nil, answers]
    rw [h.nextTicket_eq] at hnew
    change ((Trace.settled (w.usage.step (.call call)).events).filter _).map _ = _
    cases hcall : call.refusal with
    | none => rw [Usage.step_call_of_not_refusal hcall]
    | some e =>
      rw [Usage.step_call_of_refusal hcall]
      simp [hnew]

/-- A move that is nothing for the connection, and neither begins nor ends a call of the poll
loop. -/
private theorem Linked.moved_pollState (h : w.Linked) {move : Move} {took : Option PlatformEvent}
    (s' : Session) (hstep : (w.session.step move).1 = s') (hturn : w.session.turn? move = none)
    (hasks : w.session.asks? move = none) (htakes : w.session.takes? move = took)
    (hshift : PollState.Shift w.session.pollState none took none s'.pollState)
    (hconnection : s'.connection = w.session.connection)
    (hnext : s'.nextTicket = w.session.nextTicket)
    (hticket : s'.pollTicket? = w.session.pollTicket?) :
    Moved w none took none (w.step move) := by
  have hw : w.step move = ⟨s', w.usage, w.polls, w.taken ++ took.toList⟩ := by
    rw [step, hstep, hturn, hasks, htakes, Option.toList_none, List.append_nil]
    rfl
  rw [hw]
  refine ⟨?_, hshift, (List.append_nil _).symm, (List.append_nil _).symm, rfl⟩
  exact ⟨h.usage_eq, hconnection.trans h.connection_eq, hnext.trans h.nextTicket_eq, h.polled,
    fun t ht ↦ hticket ▸ h.gone t ht, fun t ht ↦ h.under_way t (hticket ▸ ht)⟩

private theorem Linked.moved_still (h : w.Linked) {move : Move}
    (hstep : (w.session.step move).1 = w.session) (hturn : w.session.turn? move = none)
    (hasks : w.session.asks? move = none) (htakes : w.session.takes? move = none) :
    Moved w none none none (w.step move) :=
  h.moved_pollState _ hstep hturn hasks htakes (.stays _) rfl rfl rfl

private theorem Linked.moved_asks (h : w.Linked) {loop : PollLoop}
    (hpoll : w.session.poll = some loop) (hphase : loop.phase = .ready) :
    Moved w none none (some w.session.nextTicket) (w.step .advance) := by
  have hready : w.session.phase? = some .ready := by simp [Session.phase?, hpoll, hphase]
  have hnone : w.session.pollTicket? = none := by
    simp [Session.pollTicket?, hpoll, PollLoop.ticket?, hphase]
  have hsession : (w.step .advance).session =
      { w.session with
        connection := (w.session.connection.enter w.session.nextTicket (.request .pollChanges)).1
        nextTicket := w.session.nextTicket + 1
        poll := some { loop with phase := .asking w.session.nextTicket } } := by
    simp [step, Session.step, Session.advance?, hpoll, hphase, Session.setPhase]
  have husage : (w.step .advance).usage = w.usage.step (.call (.request .pollChanges)) := by
    simp [step, Session.turn?, hready]
  have hpolls : (w.step .advance).polls = w.polls ++ [w.session.nextTicket] := by
    simp [step, Session.asks?, hready]
  have hticket : (w.step .advance).session.pollTicket? = some w.session.nextTicket := by
    rw [hsession]
    rfl
  refine ⟨?_, ?_, ?_, hpolls, ?_⟩
  · refine h.enter _ husage (by rw [hsession]) (by rw [hsession]) ?_ ?_ ?_
    · intro t ht
      rw [hpolls, h.nextTicket_eq] at ht
      exact (List.mem_append.mp ht).imp_right fun ht ↦ ⟨List.mem_singleton.mp ht, rfl⟩
    · intro t ht
      rw [hpolls] at ht
      rw [hticket]
      rcases List.mem_append.mp ht with ht | ht
      · exact .inr ((h.gone t ht).resolve_left (by simp [hnone]))
      · exact .inl (by rw [List.mem_singleton.mp ht])
    · intro t ht
      rw [hticket] at ht
      cases ht
      simp [hpolls]
  · have hpollState : w.session.pollState =
        ⟨w.session.switches, w.session.channel, some .ready⟩ := by
      rw [Session.pollState, hready]
    rw [hpollState, hsession]
    exact .asks w.session.nextTicket
  · -- no call has ended that has not been made before
    have hfilter : ∀ p ∈ w.usage.events.settled,
        decide (p.1 ∈ w.polls ++ [w.session.nextTicket]) = decide (p.1 ∈ w.polls) := by
      intro p hp
      have hlt := (h.sound.settled_gone p.1 p.2 (Trace.mem_settled.mp hp)).1
      rw [← h.nextTicket_eq] at hlt
      simp [Nat.ne_of_lt hlt]
    have hcall : (Call.request .pollChanges).refusal = none := rfl
    rw [answers, husage, hpolls, Usage.step_call_of_not_refusal hcall, List.filter_congr hfilter,
      answers, Option.toList_none, List.append_nil]
  · simp [step, Session.takes?]

private theorem advance_of_not_ready (h : w.session.phase? ≠ some .ready) :
    w.session.turn? .advance = none ∧ w.session.asks? .advance = none :=
  ⟨if_neg h, if_neg h⟩

private theorem Linked.moved_stuck (h : w.Linked) (hready : w.session.phase? ≠ some .ready)
    (hnone : w.session.advance? = none) : Moved w none none none (w.step .advance) := by
  obtain ⟨hturn, hasks⟩ := advance_of_not_ready hready
  refine h.moved_still ?_ hturn hasks rfl
  rw [Session.step, hnone, Option.getD_none]

/-- The poll loop gets from a phase to the next, and the connection is not touched. -/
private theorem Linked.moved_phase (h : w.Linked) {loop : PollLoop}
    (hpoll : w.session.poll = some loop) (hready : loop.phase ≠ .ready)
    (hbefore : loop.ticket? = none) (channel : Channel) (phase : PollPhase)
    (hafter : PollLoop.ticket? { loop with phase } = none)
    (hsome : w.session.advance? =
      some ({ w.session with channel, poll := some { loop with phase } }, []))
    (hshift : PollState.Shift ⟨w.session.switches, w.session.channel, some loop.phase⟩
      none none none ⟨w.session.switches, channel, some phase⟩) :
    Moved w none none none (w.step .advance) := by
  have hphase : w.session.phase? = some loop.phase := by simp [Session.phase?, hpoll]
  obtain ⟨hturn, hasks⟩ := advance_of_not_ready (w := w) (by simp [hphase, hready])
  refine h.moved_pollState { w.session with channel, poll := some { loop with phase } } ?_ hturn
    hasks rfl ?_ rfl rfl ?_
  · rw [Session.step, hsome, Option.getD_some]
  · rw [Session.pollState, hphase]
    exact hshift
  · simp [Session.pollTicket?, hpoll, hbefore, hafter]

/-- The poll loop has an event to hand over. -/
private theorem Linked.moved_offer (h : w.Linked) {loop : PollLoop}
    (hpoll : w.session.poll = some loop) (hready : loop.phase ≠ .ready)
    (hbefore : loop.ticket? = none) (event : PlatformEvent) (phase : PollPhase)
    (hafter : PollLoop.ticket? { loop with phase } = none)
    (hadvance : w.session.advance? = match w.session.channel.offer event with
      | .enqueued channel => some ({ w.session with channel }.setPhase phase, [])
      | .abandoned => some (w.session.setPhase phase, [])
      | .full => none)
    (hposts : w.session.channel.abandoned = false →
      w.session.channel.queue.length < w.session.channel.capacity →
        PollState.Shift ⟨w.session.switches, w.session.channel, some loop.phase⟩ none none none
          ⟨w.session.switches,
            { w.session.channel with queue := w.session.channel.queue ++ [event] }, some phase⟩)
    (hskips : w.session.channel.abandoned = true →
      PollState.Shift ⟨w.session.switches, w.session.channel, some loop.phase⟩ none none none
        ⟨w.session.switches, w.session.channel, some phase⟩) :
    Moved w none none none (w.step .advance) := by
  have hphase : w.session.phase? ≠ some .ready := by simp [Session.phase?, hpoll, hready]
  by_cases hgone : w.session.channel.abandoned = true
  · refine h.moved_phase hpoll hready hbefore w.session.channel phase hafter ?_ (hskips hgone)
    simp [hadvance, Channel.offer, hgone, Session.setPhase, hpoll]
  by_cases hroom : w.session.channel.queue.length < w.session.channel.capacity
  · refine h.moved_phase hpoll hready hbefore
      { w.session.channel with queue := w.session.channel.queue ++ [event] } phase hafter ?_
      (hposts (Bool.eq_false_iff.mpr hgone) hroom)
    simp [hadvance, Channel.offer, hgone, hroom, Session.setPhase, hpoll]
  · exact h.moved_stuck hphase (by simp [hadvance, Channel.offer, hgone, hroom])

private theorem Linked.moved_advance (h : w.Linked) :
    ∃ asked, Moved w none none asked (w.step .advance) := by
  cases hpoll : w.session.poll with
  | none =>
    have hphase : w.session.phase? = none := by simp [Session.phase?, hpoll]
    exact ⟨none, h.moved_stuck (by simp [hphase]) (by simp [Session.advance?, hpoll])⟩
  | some loop =>
    by_cases hready : loop.phase = .ready
    · exact ⟨_, h.moved_asks hpoll hready⟩
    have hphase : w.session.phase? ≠ some .ready := by simp [Session.phase?, hpoll, hready]
    refine ⟨none, ?_⟩
    cases hloop : loop.phase with
    | ready => exact absurd hloop hready
    | asking | ended =>
      exact h.moved_stuck hphase (by simp [Session.advance?, hpoll, hloop])
    | resting deadline =>
      by_cases hdeadline : deadline ≤ w.session.clock
      · refine h.moved_phase hpoll hready (by simp [PollLoop.ticket?, hloop]) w.session.channel
          .ready rfl ?_ ?_
        · simp [Session.advance?, hpoll, hloop, hdeadline, Session.setPhase]
        · rw [hloop]
          exact .wakes
      · exact h.moved_stuck hphase (by simp [Session.advance?, hpoll, hloop, hdeadline])
    | delivering switch active =>
      refine h.moved_offer hpoll hready (by simp [PollLoop.ticket?, hloop])
        (.switchChanged switch active) .ready rfl ?_ ?_ ?_
      · cases hoffer : w.session.channel.offer (.switchChanged switch active) <;>
          simp [Session.advance?, hpoll, hloop, hoffer]
      · rw [hloop]
        exact .posts
      · rw [hloop]
        exact .skips
    | reporting e =>
      refine h.moved_offer hpoll hready (by simp [PollLoop.ticket?, hloop])
        (.pollFailed e) (.ended (some e)) rfl ?_ ?_ ?_
      · cases hoffer : w.session.channel.offer (.pollFailed e) <;>
          simp [Session.advance?, hpoll, hloop, hoffer]
      · rw [hloop]
        exact .reports
      · rw [hloop]
        exact .ends

private theorem cancel_eq (c : Connection) (t : Ticket) :
    Trace.settled (c.step (.cancel t)).2 = [] ∧
      ∀ k ∈ (c.step (.cancel t)).1.line, k.ticket ≠ t := by
  have hdropped : ∀ n, Trace.settled (List.replicate n Event.dropped) = [] := by
    intro n
    induction n with
    | zero => rfl
    | succ n ih => simpa [List.replicate_succ] using ih
  have hlink : Trace.settled c.dropLink.2 = [] := by
    unfold Connection.dropLink
    split <;> rfl
  constructor
  · simp only [Connection.step, Connection.cancel]
    split <;> simp [hdropped, hlink]
  · intro k hk
    simp only [Connection.step, Connection.cancel] at hk
    simpa using (List.mem_filter.mp hk).2

private theorem Linked.moved_cancel_asking (h : w.Linked) {loop : PollLoop} {t : Ticket}
    (hpoll : w.session.poll = some loop) (hloop : loop.phase = .asking t) :
    Moved w none none none (w.step .cancelPolling) := by
  have hpollState : w.session.pollState =
      ⟨w.session.switches, w.session.channel, some (.asking t)⟩ := by
    simp [Session.pollState, Session.phase?, hpoll, hloop]
  have hunder : w.session.pollTicket? = some t := by
    simp [Session.pollTicket?, PollLoop.ticket?, hpoll, hloop]
  have ha : ∀ t' call, Action.cancel t ≠ .enter t' call := by simp
  obtain ⟨hsettled, hline⟩ := cancel_eq w.session.connection t
  have husage : (w.step .cancelPolling).usage = w.usage.act (.cancel t) := by
    simp [step, Session.turn?, hunder, Usage.step_act ha]
  have hsession : (w.step .cancelPolling).session =
      { w.session with
        connection := (w.session.connection.step (.cancel t)).1
        poll := some { loop with phase := .ended none } } := by
    simp [step, Session.step, Session.cancelPolling, hpoll, hloop, Session.setPhase,
      Connection.step]
  have hpolls : (w.step .cancelPolling).polls = w.polls := List.append_nil _
  refine ⟨?_, ?_, ?_, by rw [hpolls, Option.toList_none, List.append_nil], rfl⟩
  · refine h.act ha husage (by rw [hsession]) (by rw [hsession]) hpolls ?_ ?_
    · intro t' ht'
      rw [hsession] at ht'
      cases ht'
    · intro t' ht'
      obtain rfl : t = t' := Option.some.inj (hunder.symm.trans ht')
      refine .inr ⟨h.poll_lt (h.under_way t hunder), ?_⟩
      rw [Usage.act, ← h.connection_eq]
      exact hline
  · rw [hpollState, hsession]
    exact .stops (by simp)
  · rw [answers, husage, hpolls, answers_act, ← h.connection_eq, hsettled]
    simp [answers]

theorem Linked.moved_cancel (h : w.Linked) :
    Moved w none none none (w.step .cancelPolling) := by
  cases hpoll : w.session.poll with
  | none =>
    refine h.moved_still ?_ ?_ rfl rfl
    · simp [Session.step, Session.cancelPolling, hpoll]
    · simp [Session.turn?, Session.pollTicket?, hpoll]
  | some loop =>
    have hpollState : w.session.pollState =
        ⟨w.session.switches, w.session.channel, some loop.phase⟩ := by
      simp [Session.pollState, Session.phase?, hpoll]
    have hticket : w.session.pollTicket? = loop.ticket? := by simp [Session.pollTicket?, hpoll]
    have hstops : (∀ failure, loop.phase ≠ .ended failure) → loop.ticket? = none →
        w.session.cancelPolling.1 =
          { w.session with poll := some { loop with phase := .ended none } } →
        Moved w none none none (w.step .cancelPolling) := by
      intro hrunning hnone hsession
      refine h.moved_pollState _ hsession ?_ rfl rfl ?_ rfl rfl ?_
      · simp [Session.turn?, hticket, hnone]
      · rw [hpollState]
        exact .stops hrunning
      · rw [hticket, hnone]
        rfl
    cases hloop : loop.phase with
    | ended failure =>
      refine h.moved_still ?_ ?_ rfl rfl
      · simp [Session.step, Session.cancelPolling, hpoll, hloop]
      · simp [Session.turn?, hticket, PollLoop.ticket?, hloop]
    | ready | resting | delivering | reporting =>
      refine hstops ?_ ?_ ?_
      · simp [hloop]
      · simp [PollLoop.ticket?, hloop]
      · simp [Session.cancelPolling, hpoll, hloop, Session.setPhase]
    | asking t => exact h.moved_cancel_asking hpoll hloop

/-- **What one move can do.** -/
theorem Linked.moved_step (h : w.Linked) (move : Move) :
    ∃ heard took asked, Moved w heard took asked (w.step move) := by
  -- what gets through to the connection is no call here
  have hlink : ∀ {move : Move} (a : Action) (clock : Nat), (∀ t call, a ≠ .enter t call) →
      (w.session.step move).1 = ({ w.session with clock }.stepLink a).1 →
      w.session.turn? move = some (.act a) → w.session.asks? move = none →
      w.session.takes? move = none →
        ∃ heard took asked, Moved w heard took asked (w.step move) := by
    intro move a clock ha hstep hturn hasks htakes
    obtain ⟨heard, hmoved⟩ := h.moved_link ha hstep hturn hasks htakes
    exact ⟨heard, none, none, hmoved⟩
  cases move with
  | call call => exact ⟨none, none, none, h.moved_call call⟩
  | giveUp t =>
    by_cases hown : w.session.pollTicket? = some t
    · -- the host does not know the tickets of the poll loop
      have hstep : w.session.step (.giveUp t) = (w.session, []) := if_pos hown
      exact ⟨none, none, none, h.moved_still (by rw [hstep]) (if_pos hown) rfl rfl⟩
    · have hstep : w.session.step (.giveUp t) = w.session.stepLink (.cancel t) := if_neg hown
      exact hlink (.cancel t) w.session.clock (by simp) (by rw [hstep]) (if_neg hown) rfl rfl
  | abort => exact hlink .abort w.session.clock (by simp) rfl rfl rfl rfl
  | link a =>
    by_cases hprogress : a.isProgress = true
    · have ha : ∀ t call, a ≠ .enter t call := by
        rintro t call rfl
        cases hprogress
      have hstep : w.session.step (.link a) = w.session.stepLink a := if_pos hprogress
      exact hlink a w.session.clock ha (by rw [hstep]) (if_pos hprogress) rfl rfl
    · have hstep : w.session.step (.link a) = (w.session, []) := if_neg hprogress
      exact ⟨none, none, none, h.moved_still (by rw [hstep]) (if_neg hprogress) rfl rfl⟩
  | advance =>
    obtain ⟨asked, hmoved⟩ := h.moved_advance
    exact ⟨none, none, asked, hmoved⟩
  | cancelPolling => exact ⟨none, none, none, h.moved_cancel⟩
  | take =>
    cases hqueue : w.session.channel.queue with
    | nil =>
      refine ⟨none, none, none, h.moved_still ?_ rfl rfl ?_⟩
      · simp [Session.step, Channel.take?, hqueue]
      · simp [Session.takes?, hqueue]
    | cons event queue =>
      refine ⟨none, some event, none, h.moved_pollState
        { w.session with channel := { w.session.channel with queue } }
        ?_ rfl rfl ?_ (.takes hqueue) rfl rfl rfl⟩
      · simp [Session.step, Channel.take?, hqueue]
      · simp [Session.takes?, hqueue]
  | abandon => exact ⟨none, none, none, h.moved_pollState _ rfl rfl rfl rfl .leaves rfl rfl rfl⟩
  | elapse ms =>
    exact hlink (.elapse ms) (w.session.clock + ms) (by simp) rfl rfl rfl rfl

/-! ## What polls write -/

/-- What the polls have written becomes more, and only while the poll loop is asking. -/
theorem Linked.pollBytes_append (h : w.Linked) (move : Move) :
    ∃ more, (w.step move).pollBytes = w.pollBytes ++ more ∧
      (w.session.pollTicket? = none → more = []) := by
  -- a call that is made now has not written anything
  have hpolls : ∀ x ∈ w.usage.events.sent,
      decide (x.1 ∈ (w.step move).polls) = decide (x.1 ∈ w.polls) := by
    intro x hx
    have hlt := h.sound.sent_lt hx
    rw [← h.nextTicket_eq] at hlt
    have hne : x.1 ∉ (w.session.asks? move).toList := by
      unfold Session.asks?
      split
      · split <;> simp [Nat.ne_of_lt hlt]
      · simp
    simp [step, hne]
  have hgrows : ∀ turn, w.session.turn? move = some turn → ∀ more,
      (w.usage.step turn).events.sent = w.usage.events.sent ++ more →
      (w.session.pollTicket? = none → ∀ x ∈ more, x.1 ∉ (w.step move).polls) →
        ∃ more, (w.step move).pollBytes = w.pollBytes ++ more ∧
          (w.session.pollTicket? = none → more = []) := by
    intro turn hturn more hsent hmore
    have husage : (w.step move).usage = w.usage.step turn := by
      rw [step, hturn, Option.map_some, Option.getD_some]
    refine ⟨(more.filter fun x ↦ decide (x.1 ∈ (w.step move).polls)).map Prod.snd, ?_,
      fun hidle ↦ ?_⟩
    · rw [pollBytes, husage, hsent, List.filter_append, List.map_append, List.filter_congr hpolls,
        pollBytes]
    · rw [List.map_eq_nil_iff, List.filter_eq_nil_iff]
      exact fun x hx ↦ by simpa using hmore hidle x hx
  cases hturn : w.session.turn? move with
  | none =>
    have husage : (w.step move).usage = w.usage := by
      rw [step, hturn, Option.map_none, Option.getD_none]
    refine ⟨[], ?_, fun _ ↦ rfl⟩
    rw [pollBytes, husage, List.filter_congr hpolls, pollBytes, List.append_nil]
  | some turn =>
    cases turn with
    | call call =>
      refine hgrows _ hturn [] ?_ fun _ x hx ↦ absurd hx List.not_mem_nil
      rw [Usage.sent_call, List.append_nil]
    | act a =>
      -- the poll loop makes no call here, and its earlier ones have gone
      have hasks : w.session.asks? move = none := by
        unfold Session.asks?
        split
        · split
          · rename_i hready
            simp [Session.turn?, hready] at hturn
          · rfl
        · rfl
      have hsame : (w.step move).polls = w.polls := by
        rw [step, hasks, Option.toList_none, List.append_nil]
      by_cases ha : ∃ t call, a = .enter t call
      · obtain ⟨t, call, rfl⟩ := ha
        exact hgrows _ hturn [] (List.append_nil _).symm fun _ x hx ↦ absurd hx List.not_mem_nil
      · obtain ⟨more, hsent, hmore⟩ := Usage.sent_act h.billed h.framed a
        rw [← Usage.step_act fun t call heq ↦ ha ⟨t, call, heq⟩] at hsent
        refine hgrows _ hturn more hsent fun hidle x hx hmem ↦ ?_
        rw [hsame] at hmem
        exact hmore x hx _ (h.polled _ hmem) ((h.gone _ hmem).resolve_left (by simp [hidle]))

theorem Linked.pollBytes_step (h : w.Linked) (hidle : w.session.pollTicket? = none) (move : Move) :
    (w.step move).pollBytes = w.pollBytes := by
  obtain ⟨more, hbytes, hnone⟩ := h.pollBytes_append move
  rw [hbytes, hnone hidle, List.append_nil]

/-! ## Runs -/

theorem Linked.run (h : w.Linked) (moves : List Move) : (w.run moves).Linked := by
  induction moves using List.reverseRecOn with
  | nil => exact h
  | append_singleton moves move ih =>
    obtain ⟨heard, took, asked, hmoved⟩ := ih.moved_step move
    rw [Watch.run, List.foldl_append]
    exact hmoved.linked

theorem Linked.answers_run (h : w.Linked) (moves : List Move) :
    w.answers <+: (w.run moves).answers := by
  induction moves using List.reverseRecOn with
  | nil => exact List.prefix_rfl
  | append_singleton moves move ih =>
    obtain ⟨heard, took, asked, hmoved⟩ := (h.run moves).moved_step move
    rw [run_append]
    exact ih.trans ⟨_, hmoved.answers_eq.symm⟩

theorem polls_run (w : Watch) (moves : List Move) : w.polls <+: (w.run moves).polls := by
  induction moves generalizing w with
  | nil => exact List.prefix_rfl
  | cons m moves ih => exact (List.prefix_append _ _).trans (ih (w.step m))

/-- As long as there is no poll loop, nothing is polled, and nothing gets on the channel. -/
structure Unpolled (w : Watch) : Prop where
  phase_eq : w.session.phase? = none
  polls_eq : w.polls = []
  taken_eq : w.taken = []
  queue_eq : w.session.channel.queue = []

private theorem Unpolled.moved (h : w.Unpolled) {heard : Option Outcome}
    {took : Option PlatformEvent} {asked : Option Ticket} {w' : Watch}
    (hmoved : Moved w heard took asked w') : w'.Unpolled := by
  have hpollState : w.session.pollState = ⟨w.session.switches, w.session.channel, none⟩ := by
    rw [Session.pollState, h.phase_eq]
  have hshift := hmoved.shift
  have hpolls := hmoved.polls_eq
  have htaken := hmoved.taken_eq
  have hqueue := h.queue_eq
  rw [h.polls_eq] at hpolls
  rw [h.taken_eq] at htaken
  rw [hpollState] at hshift
  generalize hpollState' : w'.session.pollState = pollState' at hshift
  cases hshift with
  | stays =>
    obtain ⟨-, hchannel, hphase⟩ := PollState.mk.inj hpollState'
    exact ⟨hphase, hpolls, htaken, by rw [hchannel, hqueue]⟩
  | takes hevent =>
    rw [hqueue] at hevent
    cases hevent
  | leaves =>
    obtain ⟨-, hchannel, hphase⟩ := PollState.mk.inj hpollState'
    exact ⟨hphase, hpolls, htaken, by rw [hchannel, Channel.abandon]⟩

theorem unpolled_run (peer : String) (moves : List Move) : ((fresh peer).run moves).Unpolled := by
  induction moves using List.reverseRecOn with
  | nil => exact ⟨rfl, rfl, rfl, rfl⟩
  | append_singleton moves move ih =>
    obtain ⟨heard, took, asked, hmoved⟩ := ((linked_fresh peer).run moves).moved_step move
    rw [Watch.run, List.foldl_append]
    exact ih.moved hmoved

/-- A watch of a session that polls: on a connection that may have been used before. -/
def polling (peer : String) (earlier : List Move) (switches : SwitchTable)
    (capacity interval : Nat) : Watch :=
  ((fresh peer).run earlier).beginPolling switches capacity interval

variable (peer : String) (earlier : List Move) (switches : SwitchTable) (capacity interval : Nat)

theorem linked_polling : (polling peer earlier switches capacity interval).Linked := by
  have h := (linked_fresh peer).run earlier
  have hpolls := (unpolled_run peer earlier).polls_eq
  refine ⟨h.usage_eq, h.connection_eq, h.nextTicket_eq, h.polled, fun t ht ↦ ?_, fun t ht ↦ ?_⟩
  · rw [polling, beginPolling, hpolls] at ht
    exact absurd ht List.not_mem_nil
  · cases ht

theorem nothing_polled :
    (polling peer earlier switches capacity interval).polls = [] ∧
      (polling peer earlier switches capacity interval).answers = [] ∧
      (polling peer earlier switches capacity interval).pollBytes = [] := by
  have hpolls : (polling peer earlier switches capacity interval).polls = [] :=
    (unpolled_run peer earlier).polls_eq
  simp [answers, pollBytes, hpolls]

/-- An invariant of polling is proved move by move. -/
theorem polling_induction {P : Watch → Prop}
    (hstart : P (polling peer earlier switches capacity interval))
    (hmoved : ∀ w heard took asked w', w.Linked → Moved w heard took asked w' → P w → P w')
    (moves : List Move) : P ((polling peer earlier switches capacity interval).run moves) := by
  have hlinked := linked_polling peer earlier switches capacity interval
  induction moves using List.reverseRecOn with
  | nil => exact hstart
  | append_singleton moves move ih =>
    obtain ⟨heard, took, asked, hmove⟩ := (hlinked.run moves).moved_step move
    rw [run, List.foldl_append]
    exact hmoved _ heard took asked _ (hlinked.run moves) hmove ih

end Watch

end PinballBoard
