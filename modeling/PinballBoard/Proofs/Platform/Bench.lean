import Mathlib.Data.List.Basic
import PinballBoard.Platform.Bench
import PinballBoard.Proofs.Link.Usage

/-!
# Waiting at a bench

A bench makes moves as long as it can, then lets time pass, and does so again until the host has
what it waits for. This file says what that comes to for a host that waits for the end of one call
on a session without a poll loop. Either finitely many moves lead to the end of the call (`Moves`),
and the host gets it whatever its deadline is; or they lead to a bench at which nothing moves any
more (`Stuck`), and then the host waits in vain, however long.

The number of moves is bounded at a bench, so the paths have to be counted. `Moves` carries the
count.
-/

namespace PinballBoard.Bench

variable {σ : Type} {b b' b'' : Bench σ} {t : Ticket}

theorem written_eq (b : Bench σ) : b.written = Trace.written b.trace.reverse := rfl

/-- Whether a call has ended. -/
private def hasEnded (t : Ticket) (b : Bench σ) : Bool := (b.outcome? t).isSome

private theorem hasEnded_of_quiet (h : b.outcomes = []) : hasEnded t b = false := by
  simp [hasEnded, outcome?, h]

variable [ByteStream σ]

/-! ## Steps without a poll loop -/

/-- Without a poll loop all that is noted is for the host. -/
theorem settle_of_no_poll {s : Session} (h : s.poll = none) (events : List Event) :
    s.settle events = (s, events) := by
  induction events with
  | nil => rfl
  | cons event events ih => cases event <;> simp only [Session.settle, h, ih]

theorem stepLink_of_no_poll {s : Session} (h : s.poll = none) (a : Action) :
    s.stepLink a = ({ s with connection := (s.connection.step a).1 }, (s.connection.step a).2) :=
  settle_of_no_poll (s := { s with connection := (s.connection.step a).1 }) h _

theorem next?_of_action {a : Action} {stream : σ} (hpoll : b.session.poll = none)
    (hnext : b.session.connection.next? b.stream = some (a, stream)) (ha : a.isProgress = true) :
    b.next? = some ({ b with stream }.resume
      ({ b.session with connection := (b.session.connection.step a).1 },
        (b.session.connection.step a).2)) := by
  rw [Bench.next?, hnext]
  simp only [move, Session.step, ha, if_true, stepLink_of_no_poll hpoll]

theorem next?_of_no_action (hpoll : b.session.poll = none)
    (hnext : b.session.connection.next? b.stream = none) : b.next? = none := by
  rw [Bench.next?, hnext]
  simp [Session.advance?, hpoll]

theorem trace_foldl_note (events : List Event) (b : Bench σ) :
    (events.foldl note b).trace = events.reverse ++ b.trace := by
  induction events generalizing b with
  | nil => rfl
  | cons e events ih =>
    rw [List.foldl_cons, ih, List.reverse_cons, List.append_assoc]
    cases e <;> rfl

theorem written_resume (b : Bench σ) (s : Session) (events : Trace) :
    (b.resume (s, events)).written = b.written ++ events.written := by
  rw [written_eq, written_eq, resume, trace_foldl_note, List.reverse_append, List.reverse_reverse,
    Trace.written_append]

/-! ## Paths -/

/-- A number of moves during which no call ends but with the last. -/
inductive Moves : Bench σ → Nat → Bench σ → Prop where
  | refl (b : Bench σ) : Moves b 0 b
  | head {b b' b'' : Bench σ} {n : Nat} (hquiet : b.outcomes = []) (hnext : b.next? = some b')
      (h : Moves b' n b'') : Moves b (n + 1) b''

theorem Moves.single (hquiet : b.outcomes = []) (hnext : b.next? = some b') : Moves b 1 b' :=
  .head hquiet hnext (.refl b')

theorem Moves.trans {n m : Nat} (h : Moves b n b') (h' : Moves b' m b'') :
    Moves b (n + m) b'' := by
  induction h with
  | refl => rwa [Nat.zero_add]
  | @head b b' _ n hquiet hnext _ ih =>
    rw [Nat.add_right_comm]
    exact .head hquiet hnext (ih h')

theorem session_foldl_note (events : List Event) (b : Bench σ) :
    (events.foldl note b).session = b.session := by
  induction events generalizing b with
  | nil => rfl
  | cons e events ih =>
    rw [List.foldl_cons, ih]
    cases e <;> rfl

private theorem clock_settle (s : Session) (events : List Event) :
    (s.settle events).1.clock = s.clock := by
  induction events generalizing s with
  | nil => rfl
  | cons event events ih =>
    cases event with
    | settled t outcome =>
      rw [Session.settle]
      split
      · split
        · rw [ih, Session.hear]
          split <;> rfl
        · exact ih s
      · exact ih s
    | _ => exact ih s

private theorem clock_advance? {s : Session} {later : Session × List Event}
    (h : s.advance? = some later) : later.1.clock = s.clock := by
  obtain ⟨loop, -, hphase⟩ := Option.bind_eq_some_iff.mp h
  split at hphase
  · cases hphase
    rfl
  · split at hphase <;> cases hphase
    rfl
  · split at hphase <;> cases hphase <;> rfl
  · split at hphase <;> cases hphase <;> rfl
  · cases hphase
  · cases hphase

theorem clock_next? (h : b.next? = some b') : b'.session.clock = b.session.clock := by
  rw [next?] at h
  split at h
  · rename_i a stream _
    cases h
    rw [move, resume, session_foldl_note, Session.step]
    split
    · exact clock_settle { b.session with connection := (b.session.connection.step a).1 } _
    · rfl
  · obtain ⟨later, hadvance, rfl⟩ := Option.map_eq_some_iff.mp h
    rw [resume, session_foldl_note]
    exact clock_advance? hadvance

theorem Moves.clock_eq {n : Nat} (h : Moves b n b') : b'.session.clock = b.session.clock := by
  induction h with
  | refl => rfl
  | head _ hnext _ ih => exact ih.trans (clock_next? hnext)

/-- Nothing moves any more, and no call has ended. -/
structure Stuck (b : Bench σ) : Prop where
  poll_none : b.session.poll = none
  closer_none : b.session.connection.closer = none
  no_action : b.session.connection.next? b.stream = none
  quiet : b.outcomes = []

private theorem settleWithin_of_moves {n : Nat} (h : Moves b n b') (m : Nat) :
    settleWithin (hasEnded t) (n + m) b = settleWithin (hasEnded t) m b' := by
  induction h with
  | refl => rw [Nat.zero_add]
  | @head b b' _ n hquiet hnext _ ih =>
    rw [Nat.add_right_comm, settleWithin, hasEnded_of_quiet hquiet, hnext]
    exact ih

private theorem settleWithin_of_rest (h : hasEnded t b = true ∨ b.next? = none) (m : Nat) :
    settleWithin (hasEnded t) m b = b := by
  cases m with
  | zero => rfl
  | succ m =>
    rw [settleWithin]
    rcases h with h | h
    · rw [if_pos h]
    · simp [h]

private theorem settleUntil_of_moves {n : Nat} (h : Moves b n b') (hn : n ≤ restLimit)
    (hrest : hasEnded t b' = true ∨ b'.next? = none) : b.settleUntil (hasEnded t) = b' := by
  obtain ⟨m, hm⟩ := Nat.exists_eq_add_of_le hn
  rw [settleUntil, hm, settleWithin_of_moves h, settleWithin_of_rest hrest]

/-! ## Waiting for the end of a call -/

private theorem await_eq (b : Bench σ) (deadline : Nat) (t : Ticket) :
    b.await deadline t =
      match (b.waitUntil deadline (hasEnded t)).outcome? t with
      | some outcome => (some outcome, { b.waitUntil deadline (hasEnded t) with
          outcomes := (b.waitUntil deadline (hasEnded t)).outcomes.filter (·.1 != t) })
      | none => (none, (b.waitUntil deadline (hasEnded t)).move (.giveUp t)) := rfl

/-- A host hears of the end of its call if moves lead there, whatever its deadline is. -/
theorem await_of_moves {n : Nat} {outcome : Outcome} (h : Moves b n b') (hn : n ≤ restLimit)
    (houtcome : b'.outcomes = [(t, outcome)]) (deadline : Nat) :
    b.await deadline t = (some outcome, { b' with outcomes := [] }) := by
  have hended : b'.outcome? t = some outcome := by simp [outcome?, houtcome]
  have hsettle : b.settleUntil (hasEnded t) = b' :=
    settleUntil_of_moves h hn (.inl (by simp [hasEnded, hended]))
  have hwait : b.waitUntil deadline (hasEnded t) = b' := by
    unfold waitUntil
    cases deadline - b.session.clock with
    | zero => exact hsettle
    | succ fuel =>
      simp only [waitWithin, hsettle]
      rw [if_pos (by simp [hasEnded, hended])]
  rw [await_eq, hwait, hended]
  simp [houtcome]

private theorem waitWithin_of_ended (h : hasEnded t b = true) (deadline fuel : Nat) :
    waitWithin deadline (hasEnded t) fuel b = b := by
  have hsettle : b.settleUntil (hasEnded t) = b :=
    settleUntil_of_moves (.refl b) (Nat.zero_le _) (.inl h)
  cases fuel with
  | zero => exact hsettle
  | succ fuel =>
    rw [waitWithin, hsettle]
    exact if_pos (by rw [h, Bool.true_or])

theorem await_of_leap {n : Nat} {outcome : Outcome} (h : Moves b n b') (hn : n ≤ restLimit)
    (hquiet : b'.outcomes = []) (hnext : b'.next? = none) {deadline : Nat}
    (hdeadline : b.session.clock < deadline)
    (houtcome : (b'.leap deadline).outcomes = [(t, outcome)]) :
    b.await deadline t = (some outcome, { b'.leap deadline with outcomes := [] }) := by
  have hended : (b'.leap deadline).outcome? t = some outcome := by simp [outcome?, houtcome]
  have hsettle : b.settleUntil (hasEnded t) = b' := settleUntil_of_moves h hn (.inr hnext)
  have hwait : b.waitUntil deadline (hasEnded t) = b'.leap deadline := by
    obtain ⟨fuel, hfuel⟩ : ∃ fuel, deadline - b.session.clock = fuel + 1 :=
      Nat.exists_eq_succ_of_ne_zero (Nat.sub_ne_zero_of_lt hdeadline)
    have hearly : (hasEnded t b' || decide (deadline ≤ b'.session.clock)) = false := by
      rw [hasEnded_of_quiet hquiet, h.clock_eq, Bool.false_or, decide_eq_false_iff_not]
      exact Nat.not_le_of_lt hdeadline
    unfold waitUntil
    rw [hfuel, waitWithin, hsettle]
    simp only [hearly, Bool.false_eq_true, if_false]
    exact waitWithin_of_ended (by simp [hasEnded, hended]) deadline fuel
  rw [await_eq, hwait, hended]
  simp [houtcome]

private theorem move_elapse_of_stuck (h : b.Stuck) (ms : Nat) :
    b.move (.elapse ms) =
      { b with session := { b.session with clock := b.session.clock + ms } } := by
  have helapse : b.session.connection.step (.elapse ms) = (b.session.connection, []) := by
    simp [Connection.step, Connection.elapse, h.closer_none]
  have hpoll : Session.poll { b.session with clock := b.session.clock + ms } = none := h.poll_none
  simp only [move, Session.step, stepLink_of_no_poll hpoll, helapse, resume, List.foldl_nil]

private theorem leap_of_stuck (h : b.Stuck) (deadline : Nat) :
    ∃ clock, b.leap deadline = { b with session := { b.session with clock } } :=
  ⟨_, move_elapse_of_stuck h _⟩

private theorem Stuck.at_clock (h : b.Stuck) (clock : Nat) :
    Stuck { b with session := { b.session with clock } } :=
  ⟨h.poll_none, h.closer_none, h.no_action, h.quiet⟩

private theorem Stuck.next?_eq_none (h : b.Stuck) : b.next? = none :=
  next?_of_no_action h.poll_none h.no_action

private theorem waitWithin_of_stuck (h : b.Stuck) (deadline fuel : Nat) :
    ∃ clock, waitWithin deadline (hasEnded t) fuel b =
      { b with session := { b.session with clock } } := by
  induction fuel generalizing b with
  | zero =>
    exact ⟨b.session.clock, settleUntil_of_moves (.refl b) (Nat.zero_le _) (.inr h.next?_eq_none)⟩
  | succ fuel ih =>
    have hsettle : b.settleUntil (hasEnded t) = b :=
      settleUntil_of_moves (.refl b) (Nat.zero_le _) (.inr h.next?_eq_none)
    simp only [waitWithin, hsettle]
    split
    · exact ⟨b.session.clock, rfl⟩
    · obtain ⟨clock, hleap⟩ := leap_of_stuck h deadline
      obtain ⟨clock', hwait⟩ := ih (h.at_clock clock)
      exact ⟨clock', by rw [hleap, hwait]⟩

private theorem written_giveUp (hpoll : b.session.poll = none) (t : Ticket) :
    (b.move (.giveUp t)).written = b.written := by
  have hstep : b.session.step (.giveUp t) =
      ({ b.session with connection := (b.session.connection.step (.cancel t)).1 },
        (b.session.connection.step (.cancel t)).2) := by
    simp only [Session.step, hpoll, Option.bind_none, reduceCtorEq, if_false,
      stepLink_of_no_poll hpoll]
  have hnothing : Trace.written (b.session.connection.step (.cancel t)).2 = [] :=
    Usage.written_of_change (b.session.connection.change_step (.cancel t)) (by simp) (by simp)
  rw [move, hstep, written_resume, hnothing, List.append_nil]

/-- A host waits in vain where nothing moves, and writes nothing. -/
theorem await_of_stuck {n : Nat} (h : Moves b n b') (hn : n ≤ restLimit) (hstuck : b'.Stuck)
    (deadline : Nat) :
    (b.await deadline t).1 = none ∧ (b.await deadline t).2.written = b'.written := by
  have hsettle : b.settleUntil (hasEnded t) = b' :=
    settleUntil_of_moves h hn (.inr hstuck.next?_eq_none)
  obtain ⟨clock, hwait⟩ : ∃ clock, b.waitUntil deadline (hasEnded t) =
      { b' with session := { b'.session with clock } } := by
    unfold waitUntil
    cases deadline - b.session.clock with
    | zero => exact ⟨b'.session.clock, hsettle⟩
    | succ fuel =>
      simp only [waitWithin, hsettle]
      split
      · exact ⟨b'.session.clock, rfl⟩
      · obtain ⟨clock, hleap⟩ := leap_of_stuck hstuck deadline
        rw [hleap]
        exact waitWithin_of_stuck (hstuck.at_clock clock) deadline fuel
  -- nothing but the clock has changed when the host looks
  have hnone : outcome? { b' with session := { b'.session with clock } } t = none := by
    simp [outcome?, hstuck.quiet]
  rw [await_eq, hwait, hnone]
  exact ⟨rfl, written_giveUp (hstuck.at_clock clock).poll_none t⟩

end PinballBoard.Bench
