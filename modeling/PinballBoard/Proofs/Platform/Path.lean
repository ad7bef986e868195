import PinballBoard.Proofs.Platform.Inquiry
import PinballBoard.Proofs.Platform.Punctual

/-!
# A board that answers at once

How long a poll takes depends on the stream. This file is about streams that have the reply to a
poll as soon as it has been written (`AnswersPolls`), and about connections that nobody uses but the
poll loop. There a poll takes four moves and no time (`Bench.Stands.goes_link`).

## Paths

A path is what can come of a bench while the host does nothing but take events off the channel, or
go away from it (`Bench.Path`). The order of the moves is free, and what a bench does by itself is
one of them (`Bench.path_settleWithin`). But time passes as it does at a bench: when nothing else
can happen, and not beyond the next timer.

The invariant of a path is how far the poll has got that is under way, if there is one
(`Bench.Stands`). It is counted down to the reply, so that there is always a move that gets the poll
on. Time cannot pass before the count is at zero, and then it passes for the rest of the poll loop
(`Bench.Stands.dozes`).
-/

namespace PinballBoard

/-- A stream that answers each poll at once: `quiet` while nothing has been asked, and `asked` when
it has a reply to bring. -/
structure AnswersPolls {σ : Type} [ByteStream σ] (quiet asked : σ → Prop) : Prop where
  write : ∀ s, quiet s → ∃ s',
    ByteStream.write s [Code.pollChanges] = (.accepted 1, s') ∧ asked s'
  flush : ∀ s, asked s → ∃ s', ByteStream.flush s = (.finished, s') ∧ asked s'
  read : ∀ s limit, asked s → 0 < limit → ∃ reply s',
    ByteStream.read s limit = (.chunk [reply], s') ∧ quiet s'

namespace Session

variable {s : Session}

theorem mem_of_mem_settle {events : List Event} {e : Event} (h : e ∈ (s.settle events).2) :
    e ∈ events := by
  induction events generalizing s with
  | nil => exact h
  | cons event events ih =>
    have hrest : ∀ {s : Session}, e ∈ event :: (s.settle events).2 → e ∈ event :: events := by
      intro s hmem
      exact (List.mem_cons.mp hmem).elim (fun heq ↦ heq ▸ List.mem_cons_self)
        fun hmem ↦ List.mem_cons_of_mem _ (ih hmem)
    cases event with
    | settled t outcome =>
      rw [settle] at h
      split at h
      · split at h
        · exact List.mem_cons_of_mem _ (ih h)
        · exact hrest h
      · exact hrest h
    | _ => exact hrest h

theorem hearEnd_own {t : Ticket} (h : s.pollTicket? = some t) (outcome : Outcome) :
    (s.hearEnd (t, outcome)).pollTicket? = none ∧
      (s.hearEnd (t, outcome)).connection = s.connection := by
  obtain ⟨loop, hpoll, hticket⟩ := Option.bind_eq_some_iff.mp h
  have hhear : s.hearEnd (t, outcome) = s.hear loop outcome := by
    rw [hearEnd, hpoll]
    exact if_pos hticket
  rw [hhear, hear]
  split <;> simp [setPhase, pollTicket?, PollLoop.ticket?, hpoll]

theorem step_advance_of_ready (h : s.phase? = some .ready) :
    s.step .advance =
      (setPhase { s with
          connection := (s.connection.enter s.nextTicket (.request .pollChanges)).1
          nextTicket := s.nextTicket + 1 } (.asking s.nextTicket),
        (s.connection.enter s.nextTicket (.request .pollChanges)).2) := by
  obtain ⟨loop, hpoll, hphase⟩ := Option.map_eq_some_iff.mp h
  simp [step, advance?, hpoll, hphase]

theorem step_advance_of_not_ready (h : s.phase? ≠ some .ready) :
    (s.step .advance).1.connection = s.connection ∧
      (s.step .advance).1.pollTicket? = s.pollTicket? ∧ (s.step .advance).2 = [] := by
  cases hadvance : s.advance? with
  | none => simp [step, hadvance]
  | some later =>
    rw [step, hadvance, Option.getD_some]
    obtain ⟨loop, hpoll, hphase⟩ := Option.bind_eq_some_iff.mp hadvance
    have hready : loop.phase ≠ .ready := by simpa [phase?, hpoll] using h
    split at hphase
    · exact absurd ‹_› hready
    · split at hphase <;> cases hphase
      simp [pollTicket?, PollLoop.ticket?, setPhase, *]
    · split at hphase <;> cases hphase <;> simp [pollTicket?, PollLoop.ticket?, setPhase, *]
    · split at hphase <;> cases hphase <;> simp [pollTicket?, PollLoop.ticket?, setPhase, *]
    · cases hphase
    · cases hphase

end Session

namespace Bench

variable {σ : Type} [ByteStream σ] {b b' b'' : Bench σ} {moves more : List Move}

theorem stream_foldl_note {events : List Event} (h : Event.dropped ∉ events) (b : Bench σ) :
    (events.foldl note b).stream = b.stream := by
  induction events generalizing b with
  | nil => rfl
  | cons e events ih =>
    obtain ⟨hne, hrest⟩ := not_or.mp (mt List.mem_cons.mpr h)
    rw [List.foldl_cons, ih hrest]
    cases e with
    | dropped => exact absurd rfl hne
    | _ => rfl

theorem session_move (b : Bench σ) (m : Move) : (b.move m).session = (b.session.step m).1 := by
  rw [move, resume, session_foldl_note]

/-- What can happen at a bench while the host takes part only by taking events off the channel, or
by going away from it. Time passes when nothing else can happen and no event waits for room, and not
beyond the next timer. -/
inductive Goes (b : Bench σ) : Move → Bench σ → Prop where
  /-- The stream does what the connection waits for. -/
  | link {a : Action} {stream : σ}
      (hnext : b.session.connection.next? b.stream = some (a, stream)) :
      Goes b (.link a) ({ b with stream }.move (.link a))
  /-- The poll loop gets on. -/
  | advance : Goes b .advance (b.move .advance)
  /-- The host takes an event. -/
  | take : Goes b .take (b.move .take)
  /-- The host goes away. -/
  | abandon : Goes b .abandon (b.move .abandon)
  /-- Time passes. -/
  | elapse {ms : ℕ} (hnext : b.next? = none) (hroom : b.session.pollState.waiting = [])
      (htimer : ∀ rest, b.session.untilTimer? = some rest → ms ≤ rest) :
      Goes b (.elapse ms) (b.move (.elapse ms))

theorem Goes.session_eq {m : Move} (h : b.Goes m b') :
    b'.session = (b.session.step m).1 := by
  cases h <;> exact session_move _ _

/-- What comes of a bench in some moves. -/
inductive Path (b : Bench σ) : List Move → Bench σ → Prop where
  | nil : Path b [] b
  | snoc {b' b'' : Bench σ} {moves : List Move} {m : Move} (h : Path b moves b')
      (hgoes : b'.Goes m b'') : Path b (moves ++ [m]) b''

theorem Path.single {m : Move} (h : b.Goes m b') : Path b [m] b' := .snoc .nil h

theorem Path.trans (h : Path b moves b') (h' : Path b' more b'') :
    Path b (moves ++ more) b'' := by
  induction h' with
  | nil => rwa [List.append_nil]
  | snoc _ hgoes ih => exact List.append_assoc .. ▸ ih.snoc hgoes

theorem goes_of_next? (h : b.next? = some b') : ∃ m, b.Goes m b' := by
  rw [next?] at h
  split at h
  · rename_i a stream hnext
    cases h
    exact ⟨_, .link hnext⟩
  · obtain ⟨later, hadvance, rfl⟩ := Option.map_eq_some_iff.mp h
    have hmove : b.move .advance = b.resume later := by
      rw [move, Session.step, hadvance, Option.getD_some]
    exact ⟨.advance, hmove ▸ .advance⟩

/-- As long as a bench makes moves by itself, it takes a path. -/
theorem path_settleWithin (enough : Bench σ → Bool) (fuel : ℕ) (b : Bench σ) :
    ∃ moves, Path b moves (settleWithin enough fuel b) := by
  induction fuel generalizing b with
  | zero => exact ⟨[], .nil⟩
  | succ fuel ih =>
    rw [settleWithin]
    split
    · exact ⟨[], .nil⟩
    · split
      · rename_i b' hnext
        obtain ⟨m, hgoes⟩ := goes_of_next? hnext
        obtain ⟨moves, hpath⟩ := ih b'
        exact ⟨_, (Path.single hgoes).trans hpath⟩
      · exact ⟨[], .nil⟩

theorem Path.session_eq {w : Watch} (h : Path b moves b') (hsession : b.session = w.session) :
    b'.session = (w.run moves).session := by
  induction h with
  | nil => exact hsession
  | snoc _ hgoes ih =>
    rw [hgoes.session_eq, ih, Watch.run_append]
    rfl

/-! ## One poll -/

/-- The link while a poll is under way, with what is still to be written of it. -/
def underWay (outgoing : Bytes) (spent : ℕ) : Link := ⟨⟨some .byte⟩, outgoing, [], spent⟩

/-- A bench on which only the poll loop makes calls, and the number of moves up to the end of the
call that is under way. -/
inductive Stands (quiet asked : σ → Prop) (peer : String) : ℕ → Bench σ → Prop where
  /-- No call is under way. -/
  | free {b : Bench σ} {spent : ℕ} (hticket : b.session.pollTicket? = none)
      (hconnection : b.session.connection = .resting peer ⟨.idle, [], [], spent⟩)
      (hstream : quiet b.stream) : Stands quiet asked peer 0 b
  /-- A poll has been passed on. -/
  | reads {b : Bench σ} {t : Ticket} {spent : ℕ} (hticket : b.session.pollTicket? = some t)
      (hconnection : b.session.connection =
        .serving peer (underWay [] spent) ⟨t, .request .pollChanges, .reading⟩)
      (hstream : asked b.stream) : Stands quiet asked peer 1 b
  /-- A poll has been written. -/
  | flushes {b : Bench σ} {t : Ticket} {spent : ℕ} (hticket : b.session.pollTicket? = some t)
      (hconnection : b.session.connection =
        .serving peer (underWay [] spent) ⟨t, .request .pollChanges, .writing⟩)
      (hstream : asked b.stream) : Stands quiet asked peer 2 b
  /-- A poll is to be written. -/
  | writes {b : Bench σ} {t : Ticket} {spent : ℕ} (hticket : b.session.pollTicket? = some t)
      (hconnection : b.session.connection =
        .serving peer (underWay [Code.pollChanges] spent) ⟨t, .request .pollChanges, .writing⟩)
      (hstream : quiet b.stream) : Stands quiet asked peer 3 b
  /-- A poll stands in line. -/
  | waits {b : Bench σ} {t : Ticket} {spent : ℕ} (hticket : b.session.pollTicket? = some t)
      (hconnection : b.session.connection =
        .serving peer ⟨.idle, [], [], spent⟩ ⟨t, .request .pollChanges, .waiting⟩)
      (hstream : quiet b.stream) : Stands quiet asked peer 4 b

private theorem move_link {a : Action} {c : Connection} {events : Trace}
    (ha : a.isProgress = true) (hstep : b.session.connection.step a = (c, events))
    (hkept : Event.dropped ∉ events) :
    (b.move (.link a)).session =
        events.settled.foldl Session.hearEnd { b.session with connection := c } ∧
      (b.move (.link a)).stream = b.stream := by
  have hlink : b.session.step (.link a) = b.session.stepLink a := if_pos ha
  have hevents : (b.session.connection.step a).2 = events := congrArg Prod.snd hstep
  constructor
  · rw [session_move, hlink, Session.stepLink_fst, hstep]
  · rw [move, hlink, resume, stream_foldl_note]
    intro hmem
    exact hkept (hevents ▸ Session.mem_of_mem_settle hmem)

private theorem move_link_quiet {a : Action} {c : Connection} {events : Trace}
    (ha : a.isProgress = true) (hstep : b.session.connection.step a = (c, events))
    (hkept : Event.dropped ∉ events) (hquiet : events.settled = []) :
    (b.move (.link a)).session = { b.session with connection := c } ∧
      (b.move (.link a)).stream = b.stream := by
  obtain ⟨hsession, hstream⟩ := move_link ha hstep hkept
  rw [hquiet] at hsession
  exact ⟨hsession, hstream⟩

variable {quiet asked : σ → Prop} {peer : String} {n : ℕ}

private theorem goes_of_quiet {a : Action} {stream : σ} {c c' : Connection} {events : Trace}
    (hconnection : b.session.connection = c) (ha : a.isProgress = true)
    (hnext : c.next? b.stream = some (a, stream)) (hstep : c.step a = (c', events))
    (hkept : Event.dropped ∉ events) (hquiet : events.settled = [])
    (hstands : ∀ b' : Bench σ, b'.session.pollTicket? = b.session.pollTicket? →
      b'.session.connection = c' → b'.stream = stream → Stands quiet asked peer n b') :
    ∃ a stream, b.session.connection.next? b.stream = some (a, stream) ∧
      Stands quiet asked peer n ({ b with stream }.move (.link a)) := by
  subst hconnection
  obtain ⟨hsession, hstream⟩ := move_link_quiet (b := { b with stream }) ha hstep hkept hquiet
  have hticket := congrArg Session.pollTicket? hsession
  exact ⟨a, stream, hnext, hstands _ hticket (congrArg Session.connection hsession) hstream⟩

/-- **A poll gets on**, move by move. -/
theorem Stands.goes_link (h : Stands quiet asked peer (n + 1) b)
    (hprompt : AnswersPolls quiet asked) :
    ∃ a stream, b.session.connection.next? b.stream = some (a, stream) ∧
      Stands quiet asked peer n ({ b with stream }.move (.link a)) := by
  cases h with
  | @waits _ t spent hticket hconnection hstream =>
    have hsubmit : Link.submit ⟨.idle, [], [], spent⟩ .pollChanges =
      .ok (underWay [Code.pollChanges] spent) := rfl
    refine goes_of_quiet hconnection rfl (Connection.next?_of_waiting peer rfl)
      (Connection.step_proceed peer rfl hsubmit) (by simp) rfl fun b' hsame hnow hstays ↦ ?_
    exact .writes (hsame.trans hticket) hnow (hstays ▸ hstream)
  | @writes _ t spent hticket hconnection hstream =>
    obtain ⟨stream, hwrite, hasked⟩ := hprompt.write b.stream hstream
    have hout : (underWay [Code.pollChanges] spent).outgoing ≠ [] := by simp [underWay]
    refine goes_of_quiet hconnection rfl (Connection.next?_of_write peer rfl hout hwrite)
      (Connection.step_accept peer rfl hout (by simp)) (by simp) rfl fun b' hsame hnow hstays ↦ ?_
    exact .flushes (hsame.trans hticket) hnow (hstays ▸ hasked)
  | @flushes _ t spent hticket hconnection hstream =>
    obtain ⟨stream, hflush, hasked⟩ := hprompt.flush b.stream hstream
    refine goes_of_quiet hconnection rfl (Connection.next?_of_flush peer rfl rfl hflush)
      (Connection.step_flush peer rfl) (by simp) rfl fun b' hsame hnow hstays ↦ ?_
    exact .reads (hsame.trans hticket) hnow (hstays ▸ hasked)
  | @reads _ t spent hticket hconnection hstream =>
    have hroom := (underWay [] spent).readLimit_pos (by simp [underWay, Link.storeSize])
    obtain ⟨reply, stream, hread, hquiet⟩ := hprompt.read b.stream _ hstream hroom
    obtain ⟨spent', hstep⟩ : ∃ spent', b.session.connection.step (.receive [reply]) =
        (.resting peer ⟨.idle, [], [], spent'⟩, [.settled t (.reply (.byte reply))]) := by
      refine ⟨(((underWay [] spent).received [reply]).answered []).spent, ?_⟩
      have hdecode : ((underWay [] spent).received [reply]).codec.decode
          ((underWay [] spent).received [reply]).incoming = .reply (.byte reply) [] := by
        rw [Link.received_codec, Link.received_incoming]
        rfl
      rw [hconnection, Connection.step_receive peer (by simp), hdecode, Connection.delivered,
        Link.answered, Link.received_outgoing]
      rfl
    obtain ⟨hsession, hstays⟩ := move_link (b := { b with stream }) rfl hstep (by simp)
    -- the poll loop hears of the reply
    obtain ⟨hnone, hsame⟩ := Session.hearEnd_own
      (s := { b.session with connection := .resting peer ⟨.idle, [], [], spent'⟩ }) hticket
      (.reply (.byte reply))
    refine ⟨.receive [reply], stream, ?_, .free
      ((congrArg Session.pollTicket? hsession).trans hnone)
      ((congrArg Session.connection hsession).trans hsame) (hstays.symm ▸ hquiet)⟩
    rw [hconnection, Connection.next?_of_read peer rfl hread]
    rfl

omit [ByteStream σ] in
private theorem Stands.of_same (h : Stands quiet asked peer n b)
    (hconnection : b'.session.connection = b.session.connection)
    (hticket : b'.session.pollTicket? = b.session.pollTicket?) (hstream : b'.stream = b.stream) :
    Stands quiet asked peer n b' := by
  cases h with
  | free hnone hrests hquiet =>
    exact .free (hticket.trans hnone) (hconnection.trans hrests) (hstream ▸ hquiet)
  | reads hsome hserves hasked =>
    exact .reads (hticket.trans hsome) (hconnection.trans hserves) (hstream ▸ hasked)
  | flushes hsome hserves hasked =>
    exact .flushes (hticket.trans hsome) (hconnection.trans hserves) (hstream ▸ hasked)
  | writes hsome hserves hquiet =>
    exact .writes (hticket.trans hsome) (hconnection.trans hserves) (hstream ▸ hquiet)
  | waits hsome hserves hquiet =>
    exact .waits (hticket.trans hsome) (hconnection.trans hserves) (hstream ▸ hquiet)

/-- The connection waits for nothing while no call is under way. -/
theorem Stands.next?_eq_none (h : Stands quiet asked peer 0 b) :
    b.session.connection.next? b.stream = none := by
  cases h with
  | free hnone hrests hquiet =>
    rw [hrests]
    rfl

/-- A bench with a poll under way always has a move to make. -/
private theorem Stands.eq_zero_of_next?_eq_none (h : Stands quiet asked peer n b)
    (hprompt : AnswersPolls quiet asked) (hnext : b.next? = none) : n = 0 := by
  by_contra hbusy
  obtain ⟨n, rfl⟩ := Nat.exists_eq_succ_of_ne_zero hbusy
  obtain ⟨a, stream, hlink, -⟩ := h.goes_link hprompt
  rw [next?, hlink] at hnext
  cases hnext

omit [ByteStream σ] in
theorem Stands.pollTicket?_eq_none_iff (h : Stands quiet asked peer n b) :
    b.session.pollTicket? = none ↔ n = 0 := by
  cases h <;> simp [*]

theorem Stands.asks (h : Stands quiet asked peer 0 b) (hready : b.session.phase? = some .ready) :
    Stands quiet asked peer 4 (b.move .advance) := by
  cases h with
  | @free _ spent hnone hrests hquiet =>
    have henter : b.session.connection.enter b.session.nextTicket (.request .pollChanges) =
        (.serving peer ⟨.idle, [], [], spent⟩
          ⟨b.session.nextTicket, .request .pollChanges, .waiting⟩, []) := by
      rw [hrests]
      rfl
    have hstep := Session.step_advance_of_ready hready
    rw [henter] at hstep
    have hstays : (b.move .advance).stream = b.stream := by
      rw [move, hstep, resume, stream_foldl_note (by simp)]
    have hticket : (b.move .advance).session.pollTicket? = some b.session.nextTicket := by
      obtain ⟨loop, hpoll, -⟩ := Option.map_eq_some_iff.mp hready
      rw [session_move, hstep]
      simp [Session.pollTicket?, Session.setPhase, PollLoop.ticket?, hpoll]
    have hconnection : (b.move .advance).session.connection = .serving peer ⟨.idle, [], [], spent⟩
        ⟨b.session.nextTicket, .request .pollChanges, .waiting⟩ := by
      rw [session_move, hstep]
      rfl
    exact .waits hticket hconnection (hstays ▸ hquiet)

omit [ByteStream σ] in
theorem Stands.step_elapse (h : Stands quiet asked peer 0 b) (ms : ℕ) :
    b.session.step (.elapse ms) = ({ b.session with clock := b.session.clock + ms }, []) := by
  cases h with
  | free hnone hrests hquiet =>
    have helapse : b.session.connection.step (.elapse ms) = (b.session.connection, []) := by
      rw [hrests]
      rfl
    simp [Session.step, Session.stepLink, helapse, Session.settle]

/-- **Only the poll loop uses the connection**, whatever the host does besides. -/
theorem Stands.goes {m : Move} (h : Stands quiet asked peer n b)
    (hprompt : AnswersPolls quiet asked) (hgoes : b.Goes m b') :
    ∃ n', Stands quiet asked peer n' b' := by
  cases hgoes with
  | link hnext =>
    cases n with
    | zero =>
      rw [h.next?_eq_none] at hnext
      cases hnext
    | succ n =>
      obtain ⟨a, stream, hnext', hstands⟩ := h.goes_link hprompt
      obtain ⟨rfl, rfl⟩ := Prod.mk.inj (Option.some.inj (hnext'.symm.trans hnext))
      exact ⟨n, hstands⟩
  | advance =>
    by_cases hready : b.session.phase? = some .ready
    · have hnone : b.session.pollTicket? = none := by
        refine Option.eq_none_iff_forall_ne_some.mpr fun t ht ↦ ?_
        rw [Session.pollTicket?_eq_some, hready] at ht
        cases ht
      obtain rfl := h.pollTicket?_eq_none_iff.mp hnone
      exact ⟨4, h.asks hready⟩
    · obtain ⟨hconnection, hticket, hevents⟩ := Session.step_advance_of_not_ready hready
      rw [← session_move] at hconnection hticket
      refine ⟨n, h.of_same hconnection hticket ?_⟩
      rw [move, resume, hevents]
      rfl
  | take =>
    have hstep : ∃ channel, b.session.step .take = ({ b.session with channel }, []) := by
      rw [Session.step]
      split
      · exact ⟨_, rfl⟩
      · exact ⟨b.session.channel, rfl⟩
    obtain ⟨channel, hstep⟩ := hstep
    exact ⟨n, h.of_same (by rw [session_move, hstep]) (by rw [session_move, hstep]; rfl)
      (by rw [move, hstep]; rfl)⟩
  | abandon =>
    exact ⟨n, h.of_same (by rw [session_move]; rfl) (by rw [session_move]; rfl) rfl⟩
  | @elapse ms hnext =>
    obtain rfl := h.eq_zero_of_next?_eq_none hprompt hnext
    have hstep := h.step_elapse ms
    exact ⟨0, h.of_same (by rw [session_move, hstep]) (by rw [session_move, hstep]; rfl)
      (by rw [move, hstep]; rfl)⟩

omit [ByteStream σ] in
theorem untilTimer?_of_resting (h : Stands quiet asked peer 0 b) {deadline : ℕ}
    (hphase : b.session.phase? = some (.resting deadline)) :
    b.session.untilTimer? = some (deadline - b.session.clock) := by
  obtain ⟨⟨interval, phase⟩, hpoll, hresting⟩ := Option.map_eq_some_iff.mp hphase
  obtain rfl : phase = .resting deadline := hresting
  cases h with
  | free hnone hrests hquiet =>
    simp [Session.untilTimer?, Session.restsUntil?, hpoll, hrests, Connection.resting]

/-- **Time passes only while the poll loop rests**, if the board answers at once. -/
theorem Stands.dozes {m : Move} (h : Stands quiet asked peer n b)
    (hprompt : AnswersPolls quiet asked) (hgoes : b.Goes m b') : b.session.Dozes m := by
  intro htakes phase hphase hrunning
  cases hgoes with
  | link | advance | take | abandon => exact absurd htakes (Nat.lt_irrefl 0)
  | @elapse ms hnext hroom htimer =>
    obtain rfl := h.eq_zero_of_next?_eq_none hprompt hnext
    have hstuck : b.session.advance? = none := by
      rw [next?, h.next?_eq_none] at hnext
      exact Option.map_eq_none_iff.mp hnext
    have hpollState : b.session.pollState.waiting = phase.waiting := by
      rw [Session.pollState, hphase]
      rfl
    rw [hpollState] at hroom
    obtain ⟨loop, hpoll, rfl⟩ := Option.map_eq_some_iff.mp hphase
    cases hloop : loop.phase with
    | ready => simp [Session.advance?, hpoll, hloop] at hstuck
    | asking t =>
      have hnone := h.pollTicket?_eq_none_iff.mpr rfl
      simp [Session.pollTicket?, hpoll, PollLoop.ticket?, hloop] at hnone
    | resting deadline =>
      rw [hloop] at hphase
      have hends := htimer _ (untilTimer?_of_resting h hphase)
      have hearly : ¬deadline ≤ b.session.clock := by
        intro hover
        simp [Session.advance?, hpoll, hloop, hover] at hstuck
      refine ⟨deadline, rfl, ?_⟩
      simp only [Move.duration]
      omega
    | delivering switch active | reporting e => simp [hloop, PollPhase.waiting] at hroom
    | ended failure => exact absurd hloop (hrunning failure)

theorem Path.stands {w : Watch} (hpath : Path b moves b') (h : Stands quiet asked peer n b)
    (hprompt : AnswersPolls quiet asked) (hsession : b.session = w.session) :
    (∃ n', Stands quiet asked peer n' b') ∧ w.Undisturbed moves := by
  induction hpath with
  | nil => exact ⟨⟨n, h⟩, trivial⟩
  | snoc hbefore hgoes ih =>
    obtain ⟨⟨n', hstands⟩, hmoves⟩ := ih
    refine ⟨hstands.goes hprompt hgoes, Watch.undisturbed_append.mpr ⟨hmoves, ?_, trivial⟩⟩
    rw [← hbefore.session_eq hsession]
    exact hstands.dozes hprompt hgoes

end Bench

end PinballBoard
