import Mathlib.Data.Prod.Lex
import PinballBoard.Proofs.Link.Smooth

/-!
# The end of a stream

A host ends the stream when nobody else uses it any more. Then there is nothing in its way: its
call is the only one in line, the task takes the stream, if there still is one, and ends it. Even a
stream that never gets on delays the end by no more than twice the patience of closing.

`Usage.Parting` are the stages of this end. Nothing smooth leaves them before the stream is gone and
the task has been told so. Nothing keeps the end away either: whatever happens it comes nearer, or
neither has the task run nor has time passed (`Usage.Parting.nearsEnd`).
-/

namespace PinballBoard

namespace Usage

open Connection

variable {u : Usage} {t : Ticket} {a : Action}

/-- How far the end of the stream has got, for which a task waits after all others have left. -/
inductive Parting (u : Usage) (t : Ticket) : Prop where
  /-- The task has not run. -/
  | queued (hline : u.connection.line = [⟨t, .close, .waiting⟩])
      (hcloser : u.connection.closer = none)
  /-- The task has taken the stream. -/
  | under_way {k : Closer} (hline : u.connection.line = []) (hlink : u.connection.link = none)
      (hcloser : u.connection.closer = some k) (hticket : k.ticket = t)
      (hunsettled : ∀ outcome, Event.settled t outcome ∉ u.events)
  /-- The stream is gone, and the task has been told so. -/
  | parted (hline : u.connection.line = []) (hlink : u.connection.link = none)
      (hcloser : u.connection.closer = none)
      (hsettled : ∃ outcome, Event.settled t outcome ∈ u.events)

theorem parting_call (hline : u.connection.line = []) (hcloser : u.connection.closer = none) :
    (u.step (.call .close)).Parting u.calls.length := by
  rw [step_call_of_not_refusal rfl]
  exact .queued (by rw [hline]; rfl) hcloser

/-- Nothing smooth happens to a connection that nobody uses. -/
theorem connection_act_of_unused (hline : u.connection.line = [])
    (hcloser : u.connection.closer = none) (ha : a.isSmooth) :
    (u.act a).connection = u.connection := by
  have hchange := u.connection.change_step a
  change (u.connection.step a).1 = u.connection
  generalize (u.connection.step a).1 = c, (u.connection.step a).2 = events at hchange
  cases hchange with
  | idle => rfl
  | refused | queued | deserts | retires | abortsFree | abortsBusy => cases ha
  | foundClosed h | foundOpen h | takesStream h | drains h | encodes h | rejects h | accepts h
  | sent h | replied h | waits h | misreads h | breaks h =>
    rw [hline] at h
    cases h
  | closerAccepts h | closerShuts h | closerWaits h | closerEnds h =>
    rw [hcloser] at h
    cases h

private theorem Parting.act_queued (hsound : u.Sound) (ha : a.isSmooth)
    (hline : u.connection.line = [⟨t, .close, .waiting⟩]) (hcloser : u.connection.closer = none) :
    (u.act a).Parting t := by
  have hchange := u.connection.change_step a
  unfold Usage.act
  generalize (u.connection.step a).1 = c, (u.connection.step a).2 = events at hchange
  cases hchange with
  | idle => exact .queued hline hcloser
  | refused | queued | deserts | retires | abortsFree | abortsBusy => cases ha
  | foundClosed h =>
    rw [hline] at h
    cases h
    refine .parted rfl rfl hcloser ⟨Call.close.closedOutcome, List.mem_append_right _ ?_⟩
    exact List.mem_append_right _ (List.mem_singleton_self _)
  | takesStream h =>
    rw [hline] at h
    cases h
    refine .under_way rfl rfl rfl rfl fun outcome hmem ↦ ?_
    rcases List.mem_append.mp hmem with hold | hnew
    · exact (hsound.settled_gone t outcome hold).2 _ (hline ▸ List.mem_cons_self) rfl
    · simp at hnew
  | foundOpen h _ _ _ hcall | drains h _ _ _ hcall | encodes h _ hcall | rejects h _ hcall
  | sent h _ hcall =>
    rw [hline] at h
    cases h
    cases hcall
  | accepts h _ hstage =>
    rw [hline] at h
    cases h
    simp at hstage
  | breaks h _ hstage =>
    rw [hline] at h
    cases h
    exact absurd rfl hstage
  | replied h _ hfrom | waits h _ hfrom | misreads h _ hfrom =>
    rw [hline] at h
    cases h
    exact absurd rfl hfrom.isBusy.stage_ne
  | closerAccepts h | closerShuts h | closerWaits h | closerEnds h =>
    rw [hcloser] at h
    cases h

private theorem Parting.act_under_way {k : Closer} (ha : a.isSmooth)
    (hline : u.connection.line = []) (hlink : u.connection.link = none)
    (hcloser : u.connection.closer = some k) (hticket : k.ticket = t)
    (hunsettled : ∀ outcome, Event.settled t outcome ∉ u.events) : (u.act a).Parting t := by
  have hchange := u.connection.change_step a
  unfold Usage.act
  generalize (u.connection.step a).1 = c, (u.connection.step a).2 = events at hchange
  have hstays : ∀ k' events', k'.ticket = t → (∀ outcome, Event.settled t outcome ∉ events') →
      Parting { u with
        connection := { u.connection with closer := some k' }
        events := u.events ++ events' } t := by
    intro k' events' hk' hsilent
    refine .under_way hline hlink rfl hk' fun outcome hmem ↦ ?_
    exact (List.mem_append.mp hmem).elim (hunsettled outcome) (hsilent outcome)
  cases hchange with
  | idle =>
    refine .under_way hline hlink hcloser hticket ?_
    rwa [List.append_nil]
  | refused | queued | deserts | retires | abortsFree | abortsBusy => cases ha
  | foundClosed h | foundOpen h | takesStream h | drains h | encodes h | rejects h | accepts h
  | sent h | replied h | waits h | misreads h | breaks h =>
    rw [hline] at h
    cases h
  | closerAccepts h | closerShuts h | closerWaits h =>
    obtain rfl := Option.some.inj (hcloser.symm.trans h)
    exact hstays _ _ hticket (by simp)
  | closerEnds h =>
    obtain rfl := Option.some.inj (hcloser.symm.trans h)
    exact .parted hline hlink rfl ⟨.done, List.mem_append_right _ (by simp [hticket])⟩

/-- Nothing smooth gets in the way of the end. -/
theorem Parting.act (h : u.Parting t) (hsound : u.Sound) (ha : a.isSmooth) :
    (u.act a).Parting t := by
  cases h with
  | queued hline hcloser => exact act_queued hsound ha hline hcloser
  | under_way hline hlink hcloser hticket hunsettled =>
    exact act_under_way ha hline hlink hcloser hticket hunsettled
  | parted hline hlink hcloser hsettled =>
    have hsame := connection_act_of_unused hline hcloser ha
    obtain ⟨outcome, hmem⟩ := hsettled
    refine .parted ?_ ?_ ?_ ⟨outcome, List.mem_append_left _ hmem⟩ <;> rw [hsame]
    exacts [hline, hlink, hcloser]

theorem Parting.of_settled (h : u.Parting t) (hsound : u.Sound) {outcome : Outcome}
    (hsettled : Event.settled t outcome ∈ u.events) :
    u.connection.line = [] ∧ u.connection.link = none ∧ u.connection.closer = none := by
  cases h with
  | queued hline =>
    have hgone := hsound.settled_gone t outcome hsettled
    exact absurd rfl (hgone.2 _ (hline ▸ List.mem_cons_self))
  | under_way _ _ _ _ hunsettled => exact absurd hsettled (hunsettled outcome)
  | parted hline hlink hcloser => exact ⟨hline, hlink, hcloser⟩

end Usage

/-! ## How soon it comes -/

namespace Connection

variable {c : Connection} {k : Closer} {t : Ticket} {a : Action}

/-- How much longer the end of the stream can take: its task has to run, and then each stage of the
end takes no longer than its patience. -/
def delay (c : Connection) : ℕ ×ₗ ℕ :=
  match c.line, c.closer with
  | _ :: _, _ => toLex (3, 0)
  | [], some k =>
    match k.stage with
    | .flushing => toLex (2, k.patience)
    | .shuttingDown => toLex (1, k.patience)
  | [], none => toLex (0, 0)

/-- What brings the end of the stream nearer: its task runs, or time passes. -/
def Hastens (c : Connection) (a : Action) : Prop :=
  match c.line with
  | _ :: _ => a = .proceed
  | [] => ∃ ms, ms ≠ 0 ∧ a = .elapse ms

/-- Who has run has all but one stage of waiting behind him. -/
private theorem delay_lt_of_line (hline : c.line = []) : c.delay < toLex (3, 0) := by
  rw [delay, hline]
  cases c.closer with
  | none => simp [Prod.Lex.toLex_lt_toLex]
  | some k => cases hstage : k.stage <;> simp [hstage, Prod.Lex.toLex_lt_toLex]

/-- The task that ends the stream leaves the line as soon as it runs. -/
theorem line_proceed_close (hline : c.line = [⟨t, .close, .waiting⟩]) :
    (c.step .proceed).1.line = [] := by
  cases hlink : c.link <;> cases haborted : c.aborted <;>
    simp [step, proceed, hline, heedAbort, haborted, dropLink, hlink, serve, leave, beginClose]

private theorem step_of_queued (hline : c.line = [⟨t, .close, .waiting⟩])
    (hcloser : c.closer = none) (ha : a.isSmooth) (hproceed : a ≠ .proceed) :
    (c.step a).1 = c := by
  have hwriter : c.writer? = none := by cases hlink : c.link <;> simp [writer?, hline, hlink]
  have hreader : c.reader? = none := by cases hlink : c.link <;> simp [reader?, hline, hlink]
  cases a with
  | proceed => exact absurd rfl hproceed
  | accept | flush => simp [step, accept, flush, hwriter]
  | receive => simp [step, receive, hreader]
  | closerAccept | closerFlush | shutdownEnds =>
    simp [step, closerAccept, closerFlush, shutdownEnds, updateCloser, hcloser]
  | elapse => simp [step, elapse, hcloser]
  | enter | writeFails | ends | readFails | cancel | abort | closerWriteFails => cases ha

private theorem step_elapse_of_closer (hcloser : c.closer = some k) (ms : Nat) :
    c.step (.elapse ms) =
      if ms < k.patience then
        ({ c with closer := some { k with patience := k.patience - ms } }, [])
      else
        match k.stage with
        | .flushing =>
          ({ c with closer := some { k with stage := .shuttingDown, patience := closingPatience } },
            [.shutdown])
        | .shuttingDown => ({ c with closer := none }, [.dropped, .settled k.ticket .done]) := by
  by_cases hpatience : ms < k.patience <;> cases hstage : k.stage <;>
    simp [step, elapse, hcloser, updateCloser, Closer.elapse, hpatience, hstage, Closer.shutDown]

end Connection

namespace Usage

open Connection

variable {u : Usage} {t : Ticket} {a : Action}

/-- With an action the end comes, or it comes nearer, or it stays as near as it was and nothing has
been done about it. -/
def NearsEnd (u : Usage) (t : Ticket) (a : Action) : Prop :=
  (∃ outcome, Event.settled t outcome ∈ (u.act a).events) ∨
    (u.act a).connection.delay < u.connection.delay ∨
      (u.act a).connection.delay = u.connection.delay ∧
        (u.act a).connection.line = u.connection.line ∧ ¬u.connection.Hastens a

private theorem nearsEnd_queued (hline : u.connection.line = [⟨t, .close, .waiting⟩])
    (hcloser : u.connection.closer = none) (ha : a.isSmooth) : u.NearsEnd t a := by
  by_cases hproceed : a = .proceed
  · subst hproceed
    have hdelay : u.connection.delay = toLex (3, 0) := by rw [delay, hline]
    refine .inr (.inl ?_)
    rw [hdelay]
    exact delay_lt_of_line (line_proceed_close hline)
  · have hsame : (u.act a).connection = u.connection := step_of_queued hline hcloser ha hproceed
    refine .inr (.inr ⟨by rw [hsame], by rw [hsame], ?_⟩)
    rwa [Hastens, hline]

private theorem delay_under_way {k : Closer} (hline : u.connection.line = [])
    (hcloser : u.connection.closer = some k) : u.connection.delay = match k.stage with
      | .flushing => toLex (2, k.patience)
      | .shuttingDown => toLex (1, k.patience) := by
  rw [delay, hline, hcloser]

private theorem nearsEnd_elapse {k : Closer} (hline : u.connection.line = [])
    (hcloser : u.connection.closer = some k) (ms : Nat) : u.NearsEnd k.ticket (.elapse ms) := by
  have hdelay := delay_under_way hline hcloser
  have hstep := step_elapse_of_closer hcloser ms
  unfold NearsEnd Usage.act
  by_cases hpatience : ms < k.patience
  · rw [if_pos hpatience] at hstep
    have hlater : (u.connection.step (.elapse ms)).1.delay = match k.stage with
        | .flushing => toLex (2, k.patience - ms)
        | .shuttingDown => toLex (1, k.patience - ms) := by rw [hstep, delay, hline]
    rw [hlater, hdelay, hstep]
    by_cases hms : ms = 0
    · refine .inr (.inr ⟨by rw [hms, Nat.sub_zero], rfl, ?_⟩)
      rw [Hastens, hline]
      rintro ⟨_, hne, heq⟩
      cases heq
      exact hne hms
    · have hless : k.patience - ms < k.patience := by omega
      refine .inr (.inl ?_)
      cases k.stage <;> exact Prod.Lex.toLex_lt_toLex.mpr (.inr ⟨rfl, hless⟩)
  · rw [if_neg hpatience] at hstep
    cases hstage : k.stage with
    | flushing =>
      rw [hstage] at hstep hdelay
      refine .inr (.inl ?_)
      rw [hstep, hdelay, delay, hline]
      simp [Prod.Lex.toLex_lt_toLex]
    | shuttingDown =>
      rw [hstage] at hstep
      rw [hstep]
      exact .inl ⟨.done, List.mem_append_right _ (by simp)⟩

private theorem nearsEnd_under_way {k : Closer} (hline : u.connection.line = [])
    (hcloser : u.connection.closer = some k) (ha : a.isSmooth) : u.NearsEnd k.ticket a := by
  by_cases htime : ∃ ms, a = .elapse ms
  · obtain ⟨ms, rfl⟩ := htime
    exact nearsEnd_elapse hline hcloser ms
  have hdelay := delay_under_way hline hcloser
  have hidle : ¬u.connection.Hastens a := by
    rw [Hastens, hline]
    rintro ⟨ms, -, rfl⟩
    exact htime ⟨ms, rfl⟩
  have hchange := u.connection.change_step a
  unfold NearsEnd Usage.act
  generalize (u.connection.step a).1 = c, (u.connection.step a).2 = events at hchange ⊢
  cases hchange with
  | idle => exact .inr (.inr ⟨rfl, rfl, hidle⟩)
  | refused | queued | deserts | retires | abortsFree | abortsBusy => cases ha
  | foundClosed h | foundOpen h | takesStream h | drains h | encodes h | rejects h | accepts h
  | sent h | replied h | waits h | misreads h | breaks h =>
    rw [hline] at h
    cases h
  | closerAccepts h =>
    obtain rfl := Option.some.inj (hcloser.symm.trans h)
    refine .inr (.inr ⟨?_, rfl, hidle⟩)
    rw [hdelay, delay, hline]
  | closerShuts h hstage =>
    obtain rfl := Option.some.inj (hcloser.symm.trans h)
    refine .inr (.inl ?_)
    rw [hdelay, hstage, delay, hline]
    simp [Prod.Lex.toLex_lt_toLex]
  | closerWaits => exact absurd ⟨_, rfl⟩ htime
  | closerEnds h =>
    obtain rfl := Option.some.inj (hcloser.symm.trans h)
    exact .inl ⟨.done, List.mem_append_right _ (by simp)⟩

/-- **Nothing keeps a stream from its end for good.** -/
theorem Parting.nearsEnd (h : u.Parting t) (ha : a.isSmooth) : u.NearsEnd t a := by
  cases h with
  | queued hline hcloser => exact nearsEnd_queued hline hcloser ha
  | under_way hline _ hcloser hticket =>
    subst hticket
    exact nearsEnd_under_way hline hcloser ha
  | parted _ _ _ hsettled =>
    obtain ⟨outcome, hmem⟩ := hsettled
    exact .inl ⟨outcome, List.mem_append_left _ hmem⟩

end Usage

end PinballBoard
