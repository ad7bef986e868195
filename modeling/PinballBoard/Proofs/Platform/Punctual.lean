import PinballBoard.Proofs.Platform.Pace

/-!
# Polls on time

If nothing takes time but the rests of the poll loop (`Watch.Undisturbed`), it is known when each
poll is written. At every moment the next poll is due when all rests have been taken
(`Watch.OnTime`), and the number of rests is told by the answers.

So the first `k` answers tell the time of the poll after them
(`Watch.pollTimes_of_undisturbed`). That this poll is the next one to be written takes a count from
both sides: whatever has been written has been asked for, and whatever has been answered has been
written. The other way round, time does not go past a poll that is due
(`Watch.lt_length_pollTimes_of_undisturbed`).
-/

namespace PinballBoard

/-! ## When nothing takes time but a rest -/

/-- Time passes only while the poll loop rests, and not beyond the end of its rest, or when the loop
is over. -/
def Session.Dozes (s : Session) (m : Move) : Prop :=
  0 < m.duration → ∀ phase, s.phase? = some phase → (∀ failure, phase ≠ .ended failure) →
    ∃ deadline, phase = .resting deadline ∧ s.clock + m.duration ≤ deadline

namespace Watch

variable {w w' : Watch} {heard : Option Outcome} {took : Option PlatformEvent}
  {asked : Option Ticket}

/-- The next poll is due when all rests have been taken, and that is not over. -/
def OnTime (start interval : ℕ) (w : Watch) : Prop :=
  ∀ phase, w.session.phase? = some phase → (∀ failure, phase ≠ .ended failure) →
    w.session.earliest = start + w.rested * interval ∧ w.session.clock ≤ w.session.earliest

/-- **A move that leaves a rest in peace keeps the time.** -/
theorem OnTime.moved {start interval : ℕ} {m : Move} (h : OnTime start interval w)
    (hinterval : w.session.interval? = some interval) (hmoved : Moved w heard took asked w')
    (htimed : w.session.Timed m.duration w'.session) (hdozes : w.session.Dozes m) :
    OnTime start interval w' := by
  intro phase' hphase' hgoes
  obtain ⟨phase, hphase, hrunning, -, hheard⟩ := hmoved.shift.balance hphase' hgoes
  have hphase : w.session.phase? = some phase := hphase
  obtain ⟨hearliest, hclock⟩ := h phase hphase hrunning
  have hafter := htimed.clock_eq
  have hdozes := fun htakes ↦ hdozes htakes phase hphase hrunning
  rw [hmoved.rested_eq]
  by_cases hresting : ∃ deadline, phase = .resting deadline
  · obtain ⟨deadline, rfl⟩ := hresting
    rw [Session.earliest_of_resting hphase] at hearliest hclock
    have hwithin : w'.session.clock ≤ deadline := by
      by_cases htakes : 0 < m.duration
      · obtain ⟨_, ⟨⟩, hwithin⟩ := hdozes htakes
        omega
      · omega
    obtain ⟨hnone, -⟩ | ⟨-, ⟨t, hasking⟩, -⟩ := hheard
    · rw [hnone, Nat.add_zero]
      obtain hsame | hready | hended := hmoved.shift.of_resting hphase
      · have hsame : w'.session.phase? = some (.resting deadline) := hsame
        rw [Session.earliest_of_resting hsame]
        omega
      · have hready : w'.session.phase? = some .ready := hready
        have hwakes := htimed.wakes deadline hphase hready
        rw [Session.earliest_of_not_resting (by simp [hready])]
        omega
      · exact absurd (Option.some.inj (hphase'.symm.trans hended)) (hgoes none)
    · cases hasking
  · -- whoever is not at rest does not let time pass
    have hstill : m.duration = 0 := by
      refine Nat.eq_zero_of_not_pos fun htakes ↦ hresting ?_
      obtain ⟨deadline, hdeadline, -⟩ := hdozes htakes
      exact ⟨deadline, hdeadline⟩
    rw [Session.earliest_of_not_resting (by
      rw [hphase]
      exact fun deadline heq ↦ hresting ⟨deadline, Option.some.inj heq⟩)] at hearliest
    obtain ⟨hnone, hrests⟩ | ⟨hone, -, deadline, rfl⟩ := hheard
    · rw [hnone, Nat.add_zero, Session.earliest_of_not_resting (by
        rw [hphase']
        exact fun deadline heq ↦ hresting ⟨deadline, hrests deadline (Option.some.inj heq)⟩)]
      omega
    · have hphase' : w'.session.phase? = some (.resting deadline) := hphase'
      rw [hone, Session.earliest_of_resting hphase', Nat.add_mul, Nat.one_mul]
      obtain hsame | ⟨rest, hrest, rfl⟩ := htimed.rests deadline hphase'
      · exact absurd ⟨deadline, Option.some.inj (hphase.symm.trans hsame)⟩ hresting
      · obtain rfl := Option.some.inj (hinterval.symm.trans hrest)
        omega

/-- Nothing takes time in some moves but the rests of the poll loop. -/
def Undisturbed (w : Watch) : List Move → Prop
  | [] => True
  | m :: moves => w.session.Dozes m ∧ (w.step m).Undisturbed moves

theorem undisturbed_append {moves more : List Move} :
    w.Undisturbed (moves ++ more) ↔ w.Undisturbed moves ∧ (w.run moves).Undisturbed more := by
  induction moves generalizing w with
  | nil => exact ⟨fun h ↦ ⟨trivial, h⟩, And.right⟩
  | cons m moves ih => exact (and_congr_right fun _ ↦ ih).trans and_assoc.symm

variable {peer : String} {earlier : List Move} {switches : SwitchTable} {capacity interval : ℕ}
  {moves : List Move}

theorem onTime_run (h : (polling peer earlier switches capacity interval).Undisturbed moves) :
    OnTime (polling peer earlier switches capacity interval).session.clock interval
      ((polling peer earlier switches capacity interval).run moves) := by
  induction moves using List.reverseRecOn with
  | nil =>
    intro phase hphase _
    have hearliest : (polling peer earlier switches capacity interval).session.earliest =
      (polling peer earlier switches capacity interval).session.clock := rfl
    obtain ⟨-, hanswers, -⟩ := nothing_polled peer earlier switches capacity interval
    simp [run, rested, hanswers, hearliest]
  | append_singleton moves m ih =>
    have hlinked := (linked_polling peer earlier switches capacity interval).run moves
    obtain ⟨heard, took, asked, hmoved⟩ := hlinked.moved_step m
    obtain ⟨hbefore, hdozes, -⟩ := undisturbed_append.mp h
    rw [run_append]
    exact (ih hbefore).moved (inPace_run _ _ _ _ _ moves).interval_eq hmoved
      (Session.timed_step _ m) hdozes

theorem rested_add_changed_le (w : Watch) : w.rested + w.changed ≤ w.answers.length := by
  rw [List.length_eq_countP_add_countP PollLoop.isUnchanged, rested, changed]
  refine Nat.add_le_add_left (List.countP_mono_left fun outcome _ hchanged ↦ ?_) _
  obtain ⟨change, hchange⟩ := Option.isSome_iff_exists.mp hchanged
  have hjudge := PollLoop.change?_eq_some.mp hchange
  simp [PollLoop.isUnchanged, hjudge]

/-- No poll has failed, and no answer was invalid. -/
def AllValid (w : Watch) : Prop := ∀ outcome ∈ w.answers, ∀ e, PollLoop.judge outcome ≠ .error e

private theorem allValid_of_asking {t : Ticket}
    (hphase : ((polling peer earlier switches capacity interval).run moves).session.phase? =
      some (.asking t)) :
    ((polling peer earlier switches capacity interval).run moves).AllValid := by
  intro outcome hmem e hjudge
  obtain ⟨before, after, hanswers⟩ := List.append_of_mem hmem
  obtain ⟨-, hhalted⟩ := (kept_run peer earlier switches capacity interval moves).failing
    before outcome after e hanswers hjudge
  have hpollState : (Session.pollState _).phase = some (.asking t) := hphase
  simp [hpollState] at hhalted

/-- As long as nothing has failed, the poll loop goes on, unless it is cancelled. -/
theorem AllValid.goes
    (h : ((polling peer earlier switches capacity interval).run moves).AllValid)
    (hgoes : ((polling peer earlier switches capacity interval).run moves).session.phase? ≠
      some (.ended none)) :
    ∃ phase, ((polling peer earlier switches capacity interval).run moves).session.phase? =
      some phase ∧ (∀ failure, phase ≠ .ended failure) ∧ ∀ e, phase ≠ .reporting e := by
  have hkept := kept_run peer earlier switches capacity interval moves
  obtain ⟨phase, hphase⟩ := Option.ne_none_iff_exists'.mp
    (phase_ne_none_run peer earlier switches capacity interval moves)
  have hnot : ∀ e, ¬(phase = .reporting e ∨ phase = .ended (some e)) := by
    intro e hfailing
    obtain ⟨before, outcome, hanswers, hjudge⟩ := hkept.failed e <| by
      rcases hfailing with rfl | rfl
      · exact .inl hphase
      · exact .inr hphase
    exact h outcome (by simp [hanswers]) e hjudge
  refine ⟨phase, hphase, ?_, fun e heq ↦ hnot e (.inl heq)⟩
  rintro (_ | e) rfl
  · exact hgoes hphase
  · exact hnot e (.inr rfl)

theorem AllValid.length_answers_le (hvalid : w.AllValid) (h : w.Linked) :
    w.answers.length ≤ w.pollBytes.length := by
  refine h.length_answers_le fun outcome hmem e heq ↦ hvalid outcome hmem (.ofLink e) ?_
  rw [heq]
  rfl

private theorem Linked.asking_of_mem_pollTimes (h : w.Linked) {m : Move} {t : ℕ}
    (ht : t ∈ w.pollTimes [m]) :
    t = (w.step m).session.clock ∧ ∃ ticket, w.session.phase? = some (.asking ticket) := by
  rw [pollTimes, pollTimes, List.append_nil] at ht
  refine ⟨List.eq_of_mem_replicate ht, ?_⟩
  cases hticket : w.session.pollTicket? with
  | none =>
    rw [h.pollBytes_step hticket, Nat.sub_self] at ht
    cases ht
  | some ticket => exact ⟨ticket, w.session.pollTicket?_eq_some.mp hticket⟩

/-- The poll that is under way is the one after all answers: whatever has been written has been
asked for, and whatever has been answered has been written. -/
private theorem eq_length_answers_of_asking {m : Move} {k : ℕ} {ticket : Ticket}
    (hphase : ((polling peer earlier switches capacity interval).run moves).session.phase? =
      some (.asking ticket))
    (hafter : ((polling peer earlier switches capacity interval).pollTimes moves).length ≤ k)
    (hbefore :
      k < ((polling peer earlier switches capacity interval).pollTimes (moves ++ [m])).length) :
    k = ((polling peer earlier switches capacity interval).run moves).answers.length := by
  have hlinked := (linked_polling peer earlier switches capacity interval).run moves
  obtain ⟨heard, took, asked, hmoved⟩ := hlinked.moved_step m
  have hpolls := ((inPace_run _ _ _ _ _ moves).going _ hphase (by simp)).1
  have hfound := rested_add_changed_le ((polling peer earlier switches capacity interval).run moves)
  have hanswered := (allValid_of_asking hphase).length_answers_le hlinked
  have hbytes := hmoved.linked.length_pollBytes_le
  -- a poll loop that is asking does not ask again
  obtain rfl : asked = none := by
    cases asked with
    | none => rfl
    | some t' =>
      have hready : (Session.pollState _).phase = some .ready := hmoved.shift.of_asked.1
      rw [Session.pollState, hphase] at hready
      cases hready
  rw [hmoved.polls_eq, Option.toList_none, List.append_nil] at hbytes
  rw [length_pollTimes_polling] at hafter
  rw [length_pollTimes_polling, run_append] at hbefore
  have hnow : k < (((polling peer earlier switches capacity interval).run moves).step
    m).pollBytes.length := hbefore
  simp only [PollPhase.pending] at hpolls
  omega

private theorem clock_step_of_asking {m : Move} {ticket : Ticket}
    (h : (polling peer earlier switches capacity interval).Undisturbed (moves ++ [m]))
    (hphase : ((polling peer earlier switches capacity interval).run moves).session.phase? =
      some (.asking ticket)) :
    (((polling peer earlier switches capacity interval).run moves).step m).session.clock =
      (polling peer earlier switches capacity interval).session.clock +
        ((polling peer earlier switches capacity interval).run moves).rested * interval := by
  obtain ⟨hbefore, hdozes, -⟩ := undisturbed_append.mp h
  have hstill : m.duration = 0 := by
    refine Nat.eq_zero_of_not_pos fun htakes ↦ ?_
    obtain ⟨deadline, hresting, -⟩ := hdozes htakes _ hphase (by simp)
    cases hresting
  obtain ⟨hearliest, -⟩ := onTime_run hbefore _ hphase (by simp)
  rw [Session.earliest_of_not_resting (by simp [hphase])] at hearliest
  have hclock := (Session.timed_step
    ((polling peer earlier switches capacity interval).run moves).session m).clock_eq
  rw [hstill, Nat.add_zero] at hclock
  exact hclock.trans hearliest

/-- A poll is written when all polls before it have been answered, and neither before its time nor
after it. -/
theorem pollTimes_of_undisturbed
    (h : (polling peer earlier switches capacity interval).Undisturbed moves) {k t : ℕ}
    (ht : ((polling peer earlier switches capacity interval).pollTimes moves)[k]? = some t) :
    k ≤ ((polling peer earlier switches capacity interval).run moves).answers.length ∧
      t = (polling peer earlier switches capacity interval).session.clock +
        (((polling peer earlier switches capacity interval).run moves).answers.take k).countP
          PollLoop.isUnchanged * interval := by
  induction moves using List.reverseRecOn with
  | nil => simp [pollTimes] at ht
  | append_singleton moves m ih =>
    have hlinked := (linked_polling peer earlier switches capacity interval).run moves
    obtain ⟨heard, took, asked, hmoved⟩ := hlinked.moved_step m
    obtain ⟨hbefore, -⟩ := undisturbed_append.mp h
    obtain ⟨hbound, -⟩ := List.getElem?_eq_some_iff.mp ht
    rw [pollTimes_append] at ht
    have hanswers :
        ((polling peer earlier switches capacity interval).run (moves ++ [m])).answers = _ :=
      (congrArg answers (run_append _ _ _)).trans hmoved.answers_eq
    rw [hanswers, List.length_append]
    by_cases hold : k < ((polling peer earlier switches capacity interval).pollTimes moves).length
    · rw [List.getElem?_append_left hold] at ht
      obtain ⟨hk, htime⟩ := ih hbefore ht
      exact ⟨by omega, by rwa [List.take_append_of_le_length hk]⟩
    · -- the poll is written in the last move
      have hnew := Nat.le_of_not_lt hold
      rw [List.getElem?_append_right hnew] at ht
      obtain ⟨rfl, ticket, hphase⟩ := hlinked.asking_of_mem_pollTimes (List.mem_of_getElem? ht)
      obtain rfl := eq_length_answers_of_asking hphase hnew hbound
      rw [List.take_append_of_le_length le_rfl, List.take_length]
      exact ⟨Nat.le_add_right _ _, clock_step_of_asking h hphase⟩

/-- Time does not go past a poll that is due. -/
theorem lt_length_pollTimes_of_undisturbed
    (h : (polling peer earlier switches capacity interval).Undisturbed moves)
    (hvalid : ((polling peer earlier switches capacity interval).run moves).AllValid)
    (hgoes : ((polling peer earlier switches capacity interval).run moves).session.phase? ≠
      some (.ended none)) {k : ℕ}
    (hk : k ≤ ((polling peer earlier switches capacity interval).run moves).answers.length)
    (hdue : (polling peer earlier switches capacity interval).session.clock +
        (((polling peer earlier switches capacity interval).run moves).answers.take k).countP
          PollLoop.isUnchanged * interval <
      ((polling peer earlier switches capacity interval).run moves).session.clock) :
    k < ((polling peer earlier switches capacity interval).pollTimes moves).length := by
  have hanswered := hvalid.length_answers_le
    ((linked_polling peer earlier switches capacity interval).run moves)
  rw [length_pollTimes_polling]
  by_contra hlate
  -- the poll that is missing is the next one
  obtain rfl : k =
      ((polling peer earlier switches capacity interval).run moves).answers.length := by
    omega
  obtain ⟨phase, hphase, hrunning, -⟩ := hvalid.goes hgoes
  obtain ⟨hearliest, hclock⟩ := onTime_run h phase hphase hrunning
  rw [List.take_length] at hdue
  rw [rested] at hearliest
  omega

end Watch

end PinballBoard
