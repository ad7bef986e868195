import PinballBoard.Proofs.Link.Share
import PinballBoard.Proofs.Platform.Suspension

/-!
# The pace of polls

A board hangs on a serial line that others use too, so it must not be asked all the time. Only a
poll that found nothing is followed by a rest, and a change is followed by the next poll as soon as
the host has been told. So the number of polls is bounded by the time that has passed and by the
changes that were reported, and by nothing else: neither a slow board nor a host that takes its time
makes the poll loop catch up afterwards (`Watch.InPace`).

## Time

What a move can do to the clock and to a rest is said once (`Session.Timed`). From there on two
facts carry everything.

* There is a moment before which nothing is polled: the end of the rest, or now
  (`Session.earliest`). It never moves back as long as the loop runs, and a poll that found nothing
  moves it at least a whole rest ahead of all polls before it.
* A poll loop that runs has made a poll for each rest and for each change, and one more if it is
  waiting for the answer. It has made that one at a time at which all its rests were over.
-/

namespace PinballBoard

/-- The milliseconds that a move takes. -/
def Move.duration : Move → ℕ
  | elapse ms => ms
  | _ => 0

/-- Whether the end of a poll says that nothing has changed. -/
def PollLoop.isUnchanged (outcome : Outcome) : Bool :=
  match judge outcome with
  | .ok .unchanged => true
  | _ => false

namespace Session

variable {s s' : Session} {ms : ℕ}

/-! ## What a move does with time -/

/-- The length of the rests of the poll loop. -/
def interval? (s : Session) : Option ℕ := s.poll.map (·.interval)

/-- What a move that takes some milliseconds does with time. -/
structure Timed (s : Session) (ms : ℕ) (s' : Session) : Prop where
  clock_eq : s'.clock = s.clock + ms
  interval_eq : s'.interval? = s.interval?
  /-- A rest begins now and is as long as any other. -/
  rests : ∀ deadline, s'.phase? = some (.resting deadline) →
    s.phase? = some (.resting deadline) ∨
      ∃ interval, s.interval? = some interval ∧ deadline = s'.clock + interval
  /-- A rest is not cut short. -/
  wakes : ∀ deadline, s.phase? = some (.resting deadline) → s'.phase? = some .ready →
    deadline ≤ s'.clock

namespace Timed

theorem of_phase (hclock : s'.clock = s.clock + ms) (hpoll : s'.poll = s.poll) :
    s.Timed ms s' where
  clock_eq := hclock
  interval_eq := by rw [interval?, hpoll, interval?]
  rests deadline h := by
    rw [phase?, hpoll] at h
    exact .inl h
  wakes deadline h hready := by
    rw [phase?, hpoll, ← phase?, h] at hready
    cases hready

theorem of_setPhase {loop : PollLoop} (phase : PollPhase) (hclock : s'.clock = s.clock + ms)
    (hpoll : s.poll = some loop) (hpoll' : s'.poll = some { loop with phase })
    (hrests : ∀ deadline, phase = .resting deadline → deadline = s'.clock + loop.interval)
    (hwakes : ∀ deadline, loop.phase = .resting deadline → phase = .ready → deadline ≤ s'.clock) :
    s.Timed ms s' where
  clock_eq := hclock
  interval_eq := by simp [interval?, hpoll, hpoll']
  rests deadline h := by
    have hphase : phase = .resting deadline := by simpa [phase?, hpoll'] using h
    exact .inr ⟨loop.interval, by simp [interval?, hpoll], hrests deadline hphase⟩
  wakes deadline h hready :=
    hwakes deadline (by simpa [phase?, hpoll] using h) (by simpa [phase?, hpoll'] using hready)

end Timed

private theorem timed_hear {loop : PollLoop} {t : Ticket} (hpoll : s.poll = some loop)
    (hphase : loop.phase = .asking t) (outcome : Outcome) :
    s.Timed 0 (s.hear loop outcome) ∧ (s.hear loop outcome).pollTicket? = none := by
  have hwakes : ∀ phase deadline, loop.phase = .resting deadline → phase = PollPhase.ready →
      deadline ≤ s.clock := by
    intro phase deadline hresting
    rw [hphase] at hresting
    cases hresting
  unfold hear
  split
  · refine ⟨.of_setPhase (.resting (s.clock + loop.interval)) rfl hpoll ?_ ?_ (hwakes _), ?_⟩
    · simp [setPhase, hpoll]
    · rintro deadline ⟨⟩
      rfl
    · simp [setPhase, pollTicket?, PollLoop.ticket?, hpoll]
  · rename_i switch active _
    refine ⟨.of_setPhase (.delivering switch active) rfl hpoll ?_ (by simp) (hwakes _), ?_⟩
    · simp [setPhase, hpoll]
    · simp [setPhase, pollTicket?, PollLoop.ticket?, hpoll]
  · rename_i e _
    refine ⟨.of_setPhase (.reporting e) rfl hpoll ?_ (by simp) (hwakes _), ?_⟩
    · simp [setPhase, hpoll]
    · simp [setPhase, pollTicket?, PollLoop.ticket?, hpoll]

private theorem timed_foldl (ends : List (Ticket × Outcome)) (s : Session) :
    s.Timed 0 (ends.foldl hearEnd s) := by
  induction ends generalizing s with
  | nil => exact .of_phase rfl rfl
  | cons p ends ih =>
    rw [List.foldl_cons]
    by_cases hown : s.pollTicket? = some p.1
    · -- whoever has heard of the end of his call hears nothing more
      obtain ⟨loop, hpoll, hticket⟩ := Option.bind_eq_some_iff.mp hown
      have hphase : loop.phase = .asking p.1 := by
        have hasks := s.pollTicket?_eq_some.mp hown
        simpa [phase?, hpoll] using hasks
      obtain ⟨htimed, hidle⟩ := timed_hear hpoll hphase p.2
      have hhear : s.hearEnd p = s.hear loop p.2 := by
        rw [hearEnd, hpoll]
        exact if_pos hticket
      rwa [hhear, foldl_hearEnd_of_idle hidle]
    · rw [s.hearEnd_of_ne hown]
      exact ih s

private theorem timed_stepLink (s : Session) (a : Action) : s.Timed 0 (s.stepLink a).1 := by
  rw [stepLink_fst]
  obtain ⟨hclock, hinterval, hrests, hwakes⟩ :=
    timed_foldl (Trace.settled (s.connection.step a).2)
      { s with connection := (s.connection.step a).1 }
  exact ⟨hclock, hinterval, hrests, hwakes⟩

private theorem timed_advance {next : Session × List Event} (h : s.advance? = some next) :
    s.Timed 0 next.1 := by
  obtain ⟨loop, hpoll, hnext⟩ := Option.bind_eq_some_iff.mp h
  have hset : ∀ {s' : Session} (phase : PollPhase), s'.clock = s.clock → s'.poll = s.poll →
      (∀ deadline, phase ≠ .resting deadline) →
      (∀ deadline, loop.phase = .resting deadline → deadline ≤ s.clock) →
      s.Timed 0 (s'.setPhase phase) := by
    intro s' phase hclock hsame hrests hwakes
    refine .of_setPhase phase hclock hpoll (by simp [setPhase, hsame, hpoll])
      (fun deadline hphase ↦ absurd hphase (hrests deadline)) fun deadline hresting _ ↦ ?_
    exact (hwakes deadline hresting).trans_eq hclock.symm
  split at hnext
  · cases hnext
    exact hset _ rfl rfl (by simp) (by simp [*])
  · rename_i deadline hphase
    split at hnext
    · rename_i hover
      cases hnext
      refine hset _ rfl rfl (by simp) fun deadline' hresting ↦ ?_
      rw [hphase] at hresting
      cases hresting
      exact hover
    · cases hnext
  · split at hnext
    · cases hnext
      exact hset _ rfl rfl (by simp) (by simp [*])
    · cases hnext
      exact hset _ rfl rfl (by simp) (by simp [*])
    · cases hnext
  · split at hnext
    · cases hnext
      exact hset _ rfl rfl (by simp) (by simp [*])
    · cases hnext
      exact hset _ rfl rfl (by simp) (by simp [*])
    · cases hnext
  · cases hnext
  · cases hnext

private theorem timed_cancelPolling (s : Session) : s.Timed 0 s.cancelPolling.1 := by
  by_cases hpolling : s.isPolling = true
  · obtain ⟨loop, hpoll, hrunning⟩ := (Option.any_eq_true _ _).mp hpolling
    rw [cancelPolling_of_running hpoll hrunning]
    exact .of_setPhase (.ended none) rfl hpoll rfl (by simp) (by simp)
  · rw [cancelPolling_of_not_polling (by simpa using hpolling)]
    exact .of_phase rfl rfl

/-- **Time passes when it is told to, and a rest takes its time.** -/
theorem timed_step (s : Session) (m : Move) : s.Timed m.duration (s.step m).1 := by
  have hlink : ∀ {s₁ : Session} {ms : ℕ} (a : Action), s₁.clock = s.clock + ms →
      s₁.poll = s.poll → s.Timed ms (s₁.stepLink a).1 := by
    intro s₁ ms a hclock hpoll
    have hphase : s₁.phase? = s.phase? := by rw [phase?, hpoll, phase?]
    have hinterval : s₁.interval? = s.interval? := by rw [interval?, hpoll, interval?]
    obtain ⟨hclock', hinterval', hrests, hwakes⟩ := timed_stepLink s₁ a
    rw [hphase, hinterval] at hrests
    rw [hphase] at hwakes
    exact ⟨hclock'.trans hclock, hinterval'.trans hinterval, hrests, hwakes⟩
  cases m with
  | call call => exact hlink (.enter s.nextTicket call) rfl rfl
  | giveUp t =>
    by_cases hown : (s.poll.bind PollLoop.ticket?) = some t
    · rw [step, if_pos hown]
      exact .of_phase rfl rfl
    · rw [step, if_neg hown]
      exact hlink (.cancel t) rfl rfl
  | abort => exact hlink .abort rfl rfl
  | link a =>
    by_cases hprogress : a.isProgress = true
    · rw [step, if_pos hprogress]
      exact hlink a rfl rfl
    · rw [step, if_neg hprogress]
      exact .of_phase rfl rfl
  | advance =>
    rw [step]
    cases hadvance : s.advance? with
    | none => exact .of_phase rfl rfl
    | some next => exact timed_advance hadvance
  | cancelPolling => exact timed_cancelPolling s
  | take =>
    rw [step]
    split <;> exact .of_phase rfl rfl
  | abandon => exact .of_phase rfl rfl
  | elapse ms => exact hlink (.elapse ms) rfl rfl

/-! ## The next poll -/

/-- The moment before which nothing is polled. -/
def earliest (s : Session) : ℕ := s.restsUntil?.getD s.clock

theorem earliest_of_resting {deadline : ℕ} (h : s.phase? = some (.resting deadline)) :
    s.earliest = deadline := by
  obtain ⟨loop, hpoll, hphase⟩ := Option.map_eq_some_iff.mp h
  obtain ⟨interval, phase⟩ := loop
  obtain rfl : phase = .resting deadline := hphase
  rw [earliest, restsUntil?, hpoll]
  rfl

theorem earliest_of_not_resting (h : ∀ deadline, s.phase? ≠ some (.resting deadline)) :
    s.earliest = s.clock := by
  have hnone : s.restsUntil? = none := by
    unfold restsUntil?
    split
    · rename_i deadline hpoll
      exact absurd (by rw [phase?, hpoll]; rfl) (h deadline)
    · rfl
  rw [earliest, hnone]
  rfl

theorem earliest_of_asking {t : Ticket} (h : s.pollTicket? = some t) : s.earliest = s.clock := by
  refine earliest_of_not_resting fun deadline hphase ↦ ?_
  rw [pollTicket?_eq_some, hphase] at h
  cases h

end Session

/-- A rest goes on, or it is over, or the poll loop is. -/
theorem PollState.Shift.of_resting {d d' : PollState} {heard : Option Outcome}
    {took : Option PlatformEvent} {asked : Option Ticket} {deadline : ℕ}
    (h : Shift d heard took asked d') (hphase : d.phase = some (.resting deadline)) :
    d'.phase = some (.resting deadline) ∨ d'.phase = some .ready ∨
      d'.phase = some (.ended none) := by
  cases h with
  | stays | takes | leaves => exact .inl hphase
  | wakes => exact .inr (.inl rfl)
  | stops => exact .inr (.inr rfl)
  | _ => cases hphase

namespace Watch

variable {w w' : Watch} {heard : Option Outcome} {took : Option PlatformEvent}
  {asked : Option Ticket} {ms : ℕ}

/-- The moment before which nothing is polled does not move back, as long as the loop runs. -/
theorem Moved.earliest_le (h : Moved w heard took asked w')
    (htimed : w.session.Timed ms w'.session)
    (hgoes : ∀ failure, w'.session.phase? ≠ some (.ended failure)) :
    w.session.earliest ≤ w'.session.earliest := by
  have hclock : w.session.clock ≤ w'.session.clock := htimed.clock_eq ▸ Nat.le_add_right _ ms
  by_cases hresting : ∃ deadline, w.session.phase? = some (.resting deadline)
  · obtain ⟨deadline, hphase⟩ := hresting
    rw [Session.earliest_of_resting hphase]
    obtain hphase' | hphase' | hended := h.shift.of_resting hphase
    · have hphase' : w'.session.phase? = some (.resting deadline) := hphase'
      rw [Session.earliest_of_resting hphase']
    · have hphase' : w'.session.phase? = some .ready := hphase'
      rw [Session.earliest_of_not_resting (by simp [hphase'])]
      exact htimed.wakes deadline hphase hphase'
    · exact absurd hended (hgoes none)
  · rw [Session.earliest_of_not_resting fun deadline hphase ↦ hresting ⟨deadline, hphase⟩]
    refine hclock.trans ?_
    by_cases hresting' : ∃ deadline, w'.session.phase? = some (.resting deadline)
    · obtain ⟨deadline, hphase'⟩ := hresting'
      rw [Session.earliest_of_resting hphase']
      obtain hphase | ⟨interval, -, rfl⟩ := htimed.rests deadline hphase'
      · exact absurd ⟨deadline, hphase⟩ hresting
      · exact Nat.le_add_right _ _
    · rw [Session.earliest_of_not_resting fun deadline hphase ↦ hresting' ⟨deadline, hphase⟩]

/-! ## When polls are written -/

/-- The times at which polls are written in some moves. -/
def pollTimes (w : Watch) : List Move → List ℕ
  | [] => []
  | m :: moves =>
    List.replicate ((w.step m).pollBytes.length - w.pollBytes.length) (w.step m).session.clock ++
      (w.step m).pollTimes moves

theorem pollTimes_append (w : Watch) (moves more : List Move) :
    w.pollTimes (moves ++ more) = w.pollTimes moves ++ (w.run moves).pollTimes more := by
  induction moves generalizing w with
  | nil => rfl
  | cons m moves ih => rw [List.cons_append, pollTimes, ih, pollTimes, List.append_assoc]; rfl

theorem Linked.length_pollTimes (h : w.Linked) (moves : List Move) :
    w.pollBytes.length + (w.pollTimes moves).length = (w.run moves).pollBytes.length := by
  induction moves generalizing w with
  | nil => rfl
  | cons m moves ih =>
    obtain ⟨heard, took, asked, hmoved⟩ := h.moved_step m
    obtain ⟨more, hbytes, -⟩ := h.pollBytes_append m
    have hrest := ih hmoved.linked
    rw [hbytes, List.length_append] at hrest
    rw [pollTimes, List.length_append, List.length_replicate, hbytes, List.length_append]
    have hrun : w.run (m :: moves) = (w.step m).run moves := rfl
    rw [hrun]
    omega

theorem clock_le_run (w : Watch) (moves : List Move) :
    w.session.clock ≤ (w.run moves).session.clock := by
  induction moves generalizing w with
  | nil => exact le_rfl
  | cons m moves ih =>
    have hclock := (w.session.timed_step m).clock_eq
    exact (hclock ▸ Nat.le_add_right _ _).trans (ih (w.step m))

theorem le_clock_of_mem_pollTimes {moves : List Move} {t : ℕ} (ht : t ∈ w.pollTimes moves) :
    t ≤ (w.run moves).session.clock := by
  induction moves generalizing w with
  | nil => cases ht
  | cons m moves ih =>
    rcases List.mem_append.mp ht with ht | ht
    · rw [List.eq_of_mem_replicate ht]
      exact clock_le_run (w.step m) moves
    · exact ih ht

/-- **Nothing is polled before its time.** -/
theorem Linked.earliest_le_of_mem_pollTimes (h : w.Linked) {moves : List Move} {t : ℕ}
    (ht : t ∈ w.pollTimes moves) : w.session.earliest ≤ t := by
  induction moves generalizing w with
  | nil => cases ht
  | cons m moves ih =>
    obtain ⟨heard, took, asked, hmoved⟩ := h.moved_step m
    have htimed := w.session.timed_step m
    rcases List.mem_append.mp ht with ht | ht
    · -- only who is asking writes
      obtain ⟨more, hbytes, hnone⟩ := h.pollBytes_append m
      rw [List.eq_of_mem_replicate ht]
      cases hticket : w.session.pollTicket? with
      | none =>
        rw [hbytes, hnone hticket] at ht
        simp at ht
      | some ticket =>
        rw [Session.earliest_of_asking hticket]
        exact htimed.clock_eq ▸ Nat.le_add_right _ _
    · refine (hmoved.earliest_le htimed fun failure hended ↦ ?_).trans (ih hmoved.linked ht)
      -- a loop that is over does not write any more
      have hlength := hmoved.linked.length_pollTimes moves
      rw [(ended_run hmoved.linked hended moves).2.2.2.2] at hlength
      have hpos := List.length_pos_of_mem ht
      omega

/-! ## How many polls there are -/

private theorem length_tagged {encoded : List (Ticket × Command)}
    (h : ∀ p ∈ encoded, p.2.frame.length = 1) : (tagged encoded).length = encoded.length := by
  induction encoded with
  | nil => rfl
  | cons p encoded ih =>
    obtain ⟨hp, hencoded⟩ := List.forall_mem_cons.mp h
    have hcons : tagged (p :: encoded) = p.2.frame.map (p.1, ·) ++ tagged encoded := rfl
    rw [hcons, List.length_append, List.length_map, hp, ih hencoded, List.length_cons, Nat.add_comm]

theorem Linked.length_pollBytes_le (h : w.Linked) : w.pollBytes.length ≤ w.polls.length := by
  have hown : ∀ p ∈ w.usage.encoded.filter (fun p ↦ decide (p.1 ∈ w.polls)),
      p.1 ∈ w.polls ∧ p.2.frame.length = 1 := by
    intro p hp
    obtain ⟨hencoded, hpoll⟩ := List.mem_filter.mp hp
    obtain ⟨call, hcall, hcommand⟩ := h.sound.orderly.encoded_call p hencoded
    rw [h.polled p.1 (of_decide_eq_true hpoll)] at hcall
    obtain rfl := Option.some.inj hcall
    rw [← Option.some.inj hcommand]
    exact ⟨of_decide_eq_true hpoll, rfl⟩
  have hsent : w.usage.events.sent.filter (fun x ↦ decide (x.1 ∈ w.polls)) <+:
      tagged (w.usage.encoded.filter fun p ↦ decide (p.1 ∈ w.polls)) := by
    rw [← filter_tagged]
    exact (List.take_prefix _ _).filter _
  have hlt : ((w.usage.encoded.filter fun p ↦ decide (p.1 ∈ w.polls)).map Prod.fst).Pairwise
      (· < ·) := h.sound.orderly.encoded_lt.sublist (List.filter_sublist.map _)
  generalize w.usage.encoded.filter (fun p ↦ decide (p.1 ∈ w.polls)) = own at hown hsent hlt
  have hsubset : own.map Prod.fst ⊆ w.polls := by
    intro t ht
    obtain ⟨p, hp, rfl⟩ := List.mem_map.mp ht
    exact (hown p hp).1
  calc w.pollBytes.length ≤ (tagged own).length := by
        rw [pollBytes, List.length_map]
        exact hsent.length_le
    _ = (own.map Prod.fst).length := by
        rw [length_tagged fun p hp ↦ (hown p hp).2, List.length_map]
    _ ≤ w.polls.length :=
        (List.subperm_of_subset (hlt.imp Nat.ne_of_lt) hsubset).length_le

theorem Linked.length_answers_le (h : w.Linked)
    (hok : ∀ outcome ∈ w.answers, ∀ e, outcome ≠ .failed e) :
    w.answers.length ≤ w.pollBytes.length := by
  obtain ⟨peer, turns, husage⟩ := h.usage_eq
  have honce := Usage.settledOnce_run peer turns
  have hended := Usage.settled_run peer turns
  rw [← husage] at honce hended
  have hnodup : ((w.usage.events.settled.filter (·.1 ∈ w.polls)).map Prod.fst).Nodup :=
    honce.nodup.sublist (List.filter_sublist.map _)
  have hsubset : (w.usage.events.settled.filter (·.1 ∈ w.polls)).map Prod.fst ⊆
      (w.usage.events.sent.filter (·.1 ∈ w.polls)).map Prod.fst := by
    intro t ht
    obtain ⟨p, hp, rfl⟩ := List.mem_map.mp ht
    obtain ⟨hsettled, hpoll⟩ := List.mem_filter.mp hp
    have hcall := h.polled _ (of_decide_eq_true hpoll)
    have hcommand : w.usage.calls[p.1]?.bind Call.command? = some .pollChanges := by
      rw [hcall]; rfl
    obtain ⟨hencoded, hdue⟩ := Usage.not_due_of_ended h.sound hended hcommand
      (Trace.mem_settled.mp hsettled) (hok p.2 (List.mem_map_of_mem hp))
    -- the frame is marked, so it is sent or due
    have hmarked : (p.1, Code.pollChanges) ∈ w.usage.events.sent ++ w.usage.events.due := by
      rw [Trace.sent, Trace.due, List.take_append_drop]
      exact List.mem_flatMap.mpr ⟨_, hencoded, List.mem_singleton_self _⟩
    have hsent := (List.mem_append.mp hmarked).resolve_right fun hmem ↦ hdue _ hmem rfl
    exact List.mem_map.mpr ⟨_, List.mem_filter.mpr ⟨hsent, hpoll⟩, rfl⟩
  calc w.answers.length
      = ((w.usage.events.settled.filter (·.1 ∈ w.polls)).map Prod.fst).length := by
        rw [answers, List.length_map, List.length_map]
    _ ≤ ((w.usage.events.sent.filter (·.1 ∈ w.polls)).map Prod.fst).length :=
        (List.subperm_of_subset hnodup hsubset).length_le
    _ = w.pollBytes.length := by rw [pollBytes, List.length_map, List.length_map]

/-- The polls that have found nothing. -/
def rested (w : Watch) : ℕ := w.answers.countP PollLoop.isUnchanged

/-- The polls that have found a change. -/
def changed (w : Watch) : ℕ := w.answers.countP fun outcome ↦ (PollLoop.change? outcome).isSome

theorem Moved.rested_eq (h : Moved w heard took asked w') :
    w'.rested = w.rested + heard.toList.countP PollLoop.isUnchanged := by
  rw [rested, h.answers_eq, List.countP_append, rested]

theorem Moved.changed_eq (h : Moved w heard took asked w') :
    w'.changed =
      w.changed + heard.toList.countP fun outcome ↦ (PollLoop.change? outcome).isSome := by
  rw [changed, h.answers_eq, List.countP_append, changed]

end Watch

/-- The poll that a poll loop waits for, or that it has failed with. -/
def PollPhase.pending : PollPhase → ℕ
  | asking _ | reporting _ => 1
  | _ => 0

theorem PollLoop.isUnchanged_of_judge {outcome : Outcome} (h : judge outcome = .ok .unchanged) :
    isUnchanged outcome = true ∧ change? outcome = none := by
  refine ⟨by rw [isUnchanged, h], change?_eq_none fun switch active hchanged ↦ ?_⟩
  rw [h] at hchanged
  cases hchanged

/-- A poll loop that runs has made a poll for each rest and each change, and one that is pending. It
lies down to rest when it has been told that nothing has changed, and at no other time. -/
theorem PollState.Shift.balance {d d' : PollState} {heard : Option Outcome}
    {took : Option PlatformEvent} {asked : Option Ticket} {phase' : PollPhase}
    (h : Shift d heard took asked d') (hphase' : d'.phase = some phase')
    (hgoes : ∀ failure, phase' ≠ .ended failure) :
    ∃ phase, d.phase = some phase ∧ (∀ failure, phase ≠ .ended failure) ∧
      asked.toList.length + phase.pending =
        heard.toList.countP PollLoop.isUnchanged +
          heard.toList.countP (fun outcome ↦ (PollLoop.change? outcome).isSome) + phase'.pending ∧
      (heard.toList.countP PollLoop.isUnchanged = 0 ∧
          (∀ deadline, phase' = .resting deadline → phase = .resting deadline) ∨
        heard.toList.countP PollLoop.isUnchanged = 1 ∧ (∃ t, phase = .asking t) ∧
          ∃ deadline, phase' = .resting deadline) := by
  cases h with
  | stays | takes | leaves => exact ⟨phase', hphase', hgoes, by simp, .inl ⟨rfl, fun _ ↦ id⟩⟩
  | asks =>
    obtain rfl := Option.some.inj hphase'
    exact ⟨.ready, rfl, by simp, rfl, .inl ⟨rfl, nofun⟩⟩
  | @unchanged _ _ t outcome deadline hjudge =>
    obtain rfl := Option.some.inj hphase'
    obtain ⟨hunchanged, hnone⟩ := PollLoop.isUnchanged_of_judge hjudge
    exact ⟨.asking t, rfl, by simp, by simp [hunchanged, hnone, PollPhase.pending],
      .inr ⟨by simp [hunchanged], ⟨t, rfl⟩, deadline, rfl⟩⟩
  | @changed _ _ t outcome switch active hjudge =>
    obtain rfl := Option.some.inj hphase'
    have hchange := PollLoop.change?_eq_some.mpr hjudge
    have hunchanged : PollLoop.isUnchanged outcome = false := by rw [PollLoop.isUnchanged, hjudge]
    exact ⟨.asking t, rfl, by simp, by simp [hunchanged, hchange, PollPhase.pending],
      .inl ⟨by simp [hunchanged], nofun⟩⟩
  | @fails _ _ t outcome e hjudge =>
    obtain rfl := Option.some.inj hphase'
    have hnone : PollLoop.change? outcome = none :=
      PollLoop.change?_eq_none fun switch active hchanged ↦ by
        rw [hjudge] at hchanged
        cases hchanged
    have hunchanged : PollLoop.isUnchanged outcome = false := by rw [PollLoop.isUnchanged, hjudge]
    exact ⟨.asking t, rfl, by simp, by simp [hunchanged, hnone, PollPhase.pending],
      .inl ⟨by simp [hunchanged], nofun⟩⟩
  | @wakes _ _ deadline =>
    obtain rfl := Option.some.inj hphase'
    exact ⟨.resting deadline, rfl, by simp, rfl, .inl ⟨rfl, nofun⟩⟩
  | @posts _ _ switch active | @skips _ _ switch active =>
    obtain rfl := Option.some.inj hphase'
    exact ⟨.delivering switch active, rfl, by simp, rfl, .inl ⟨rfl, nofun⟩⟩
  | reports | ends | stops =>
    obtain rfl := Option.some.inj hphase'
    exact absurd rfl (hgoes _)

/-- A poll that has found nothing is followed by a rest. -/
theorem PollState.Shift.of_unchanged {d d' : PollState} {outcome : Outcome}
    {took : Option PlatformEvent} {asked : Option Ticket} (h : Shift d (some outcome) took asked d')
    (hjudge : PollLoop.judge outcome = .ok .unchanged) :
    ∃ t deadline, d.phase = some (.asking t) ∧ d'.phase = some (.resting deadline) := by
  cases h with
  | @unchanged _ _ t _ deadline => exact ⟨t, deadline, rfl, rfl⟩
  | changed hchanged =>
    rw [hjudge] at hchanged
    cases hchanged
  | fails hfails =>
    rw [hjudge] at hfails
    cases hfails

theorem PollState.Shift.of_asked {d d' : PollState} {heard : Option Outcome}
    {took : Option PlatformEvent} {t : Ticket} (h : Shift d heard took (some t) d') :
    d.phase = some .ready ∧ heard = none := by
  cases h
  exact ⟨rfl, rfl⟩

namespace Watch

/-- A poll loop keeps its pace, seen from the time at which it was started. -/
structure InPace (start interval : ℕ) (w : Watch) : Prop where
  interval_eq : w.session.interval? = some interval
  bound : start + w.polls.length * interval ≤ w.session.clock + (w.changed + 1) * interval
  /-- Each poll has been followed by a rest or has found a change, but for the one that is pending.
  All rests are over before the next poll. -/
  going : ∀ phase, w.session.phase? = some phase → (∀ failure, phase ≠ .ended failure) →
    w.polls.length = w.rested + w.changed + phase.pending ∧
      start + w.rested * interval ≤ w.session.earliest

/-- **A move keeps the pace.** -/
theorem InPace.moved {start interval : ℕ} (h : InPace start interval w)
    (hmoved : Moved w heard took asked w') (htimed : w.session.Timed ms w'.session) :
    InPace start interval w' := by
  have hclock : w.session.clock ≤ w'.session.clock := htimed.clock_eq ▸ Nat.le_add_right _ ms
  have hpolls : w'.polls.length = w.polls.length + asked.toList.length := by
    rw [hmoved.polls_eq, List.length_append]
  have hrested := hmoved.rested_eq
  have hchanged := hmoved.changed_eq
  refine ⟨htimed.interval_eq.trans h.interval_eq, ?_, fun phase' hphase' hgoes ↦ ?_⟩
  · cases asked with
    | none =>
      have hmore : (w.changed + 1) * interval ≤ (w'.changed + 1) * interval :=
        Nat.mul_le_mul_right _ (by omega)
      have hbound := h.bound
      rw [hpolls, Option.toList_none, List.length_nil, Nat.add_zero]
      omega
    | some t =>
      -- a new poll is made when all rests are over
      obtain ⟨hready, rfl⟩ := hmoved.shift.of_asked
      have hready : w.session.phase? = some .ready := hready
      obtain ⟨hlength, hrests⟩ := h.going .ready hready (by simp)
      rw [Session.earliest_of_not_resting (by simp [hready])] at hrests
      rw [hpolls, hlength, hchanged]
      simp only [PollPhase.pending, Option.toList_none, List.countP_nil, Option.toList_some,
        List.length_singleton, Nat.add_zero, Nat.add_mul, Nat.one_mul]
      omega
  · obtain ⟨phase, hphase, hrunning, hbalance, hheard⟩ := hmoved.shift.balance hphase' hgoes
    have hphase : w.session.phase? = some phase := hphase
    obtain ⟨hlength, hrests⟩ := h.going phase hphase hrunning
    refine ⟨by omega, ?_⟩
    obtain ⟨hnone, -⟩ | ⟨hone, ⟨t, rfl⟩, deadline, rfl⟩ := hheard
    · rw [hrested, hnone, Nat.add_zero]
      refine hrests.trans (hmoved.earliest_le htimed fun failure hended ↦ ?_)
      exact hgoes failure (Option.some.inj (hphase'.symm.trans hended))
    · have hphase' : w'.session.phase? = some (.resting deadline) := hphase'
      rw [Session.earliest_of_not_resting (by simp [hphase])] at hrests
      rw [Session.earliest_of_resting hphase', hrested, hone, Nat.add_mul, Nat.one_mul]
      obtain hsame | ⟨rest, hrest, rfl⟩ := htimed.rests deadline hphase'
      · rw [hphase] at hsame
        cases hsame
      · rw [h.interval_eq] at hrest
        obtain rfl := Option.some.inj hrest
        omega

variable (peer : String) (earlier : List Move) (switches : SwitchTable) (capacity interval : ℕ)

/-- **A poll loop keeps its pace**, whatever the board and the host do. -/
theorem inPace_run (moves : List Move) :
    InPace (polling peer earlier switches capacity interval).session.clock interval
      ((polling peer earlier switches capacity interval).run moves) := by
  obtain ⟨hpolls, hanswers, -⟩ := nothing_polled peer earlier switches capacity interval
  induction moves using List.reverseRecOn with
  | nil =>
    refine ⟨rfl, ?_, fun phase hphase _ ↦ ?_⟩
    · simp [run, hpolls]
    · obtain rfl : PollPhase.ready = phase := Option.some.inj hphase
      have hearliest : (polling peer earlier switches capacity interval).session.earliest =
        (polling peer earlier switches capacity interval).session.clock := rfl
      constructor
      · simp [run, hpolls, rested, changed, hanswers, PollPhase.pending]
      · simp [run, rested, hanswers, hearliest]
  | append_singleton moves m ih =>
    have hlinked := (linked_polling peer earlier switches capacity interval).run moves
    obtain ⟨heard, took, asked, hmoved⟩ := hlinked.moved_step m
    rw [run_append]
    exact ih.moved hmoved (Session.timed_step _ m)

/-! ## What that comes to -/

variable {peer earlier switches capacity interval} {moves : List Move}

theorem length_pollTimes_polling :
    ((polling peer earlier switches capacity interval).pollTimes moves).length =
      ((polling peer earlier switches capacity interval).run moves).pollBytes.length := by
  obtain ⟨-, -, hnone⟩ := nothing_polled peer earlier switches capacity interval
  rw [← (linked_polling peer earlier switches capacity interval).length_pollTimes moves, hnone,
    List.length_nil, Nat.zero_add]

/-- **The number of polls is bounded by the time and by the changes.** -/
theorem length_pollTimes_le (hinterval : 0 < interval) {span : ℕ}
    (hspan : ((polling peer earlier switches capacity interval).run moves).session.clock ≤
      (polling peer earlier switches capacity interval).session.clock + span) :
    ((polling peer earlier switches capacity interval).pollTimes moves).length ≤
      span / interval + 1 +
        ((polling peer earlier switches capacity interval).run moves).changed := by
  have hlinked := (linked_polling peer earlier switches capacity interval).run moves
  have hbound := (inPace_run peer earlier switches capacity interval moves).bound
  have hbytes := hlinked.length_pollBytes_le
  rw [length_pollTimes_polling]
  generalize (polling peer earlier switches capacity interval).run moves = w at *
  have hspare : (w.polls.length - (w.changed + 1)) * interval ≤ span := by
    rw [Nat.sub_mul]
    omega
  have hquotient := (Nat.le_div_iff_mul_le hinterval).mpr hspare
  omega

/-- **Between two polls lies a whole rest if one of the answers between them was that nothing has
changed.** -/
theorem add_interval_le_of_unchanged {m : Move} {after : List Move} {outcome : Outcome} {t t' : ℕ}
    (hanswer : (((polling peer earlier switches capacity interval).run moves).step m).answers =
      ((polling peer earlier switches capacity interval).run moves).answers ++ [outcome])
    (hjudge : PollLoop.judge outcome = .ok .unchanged)
    (ht : t ∈ (polling peer earlier switches capacity interval).pollTimes moves)
    (ht' : t' ∈ (((polling peer earlier switches capacity interval).run moves).step m).pollTimes
      after) : t + interval ≤ t' := by
  have hlinked := (linked_polling peer earlier switches capacity interval).run moves
  have hpace := inPace_run peer earlier switches capacity interval moves
  have hbefore := le_clock_of_mem_pollTimes ht
  generalize (polling peer earlier switches capacity interval).run moves = w at *
  obtain ⟨heard, took, asked, hmoved⟩ := hlinked.moved_step m
  have hheard : heard = some outcome := by
    have htoList := List.append_cancel_left (hmoved.answers_eq.symm.trans hanswer)
    cases heard with
    | none => simp at htoList
    | some o => simpa using htoList
  subst hheard
  obtain ⟨ticket, deadline, hasking, hresting⟩ := hmoved.shift.of_unchanged hjudge
  have hasking : w.session.phase? = some (.asking ticket) := hasking
  have hresting : (w.step m).session.phase? = some (.resting deadline) := hresting
  have hafter := hmoved.linked.earliest_le_of_mem_pollTimes ht'
  rw [Session.earliest_of_resting hresting] at hafter
  have htimed := w.session.timed_step m
  have hclock := htimed.clock_eq
  obtain hsame | ⟨rest, hrest, rfl⟩ := htimed.rests deadline hresting
  · rw [hasking] at hsame
    cases hsame
  · rw [hpace.interval_eq] at hrest
    obtain rfl := Option.some.inj hrest
    omega

end Watch

end PinballBoard
