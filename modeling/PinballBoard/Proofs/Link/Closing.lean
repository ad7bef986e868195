import PinballBoard.Proofs.Link.Idle
import PinballBoard.Proofs.Link.Origin

/-!
# Closed is for ever

A stream can go in three ways: a task ends it under the lock, it fails, or somebody gives the whole
connection up without asking for the lock at all. The last way is the dangerous one. Whoever holds
the lock goes on writing, and others stand in line behind him.

What the three ways have in common is `Connection.IsSealed`: there is no stream, or the mark is set
that makes the next task drop it. No step takes this back (`Change.isSealed`), and whoever gets the
lock of a sealed connection is told in the same step that it is closed (`Change.locked_of_sealed`).

## Before and since

`Usage.Shut u w` compares a usage `w` with an earlier moment `u` at which the connection was sealed.
The calls that had got the lock by then may go on; of all others not a byte is ever written, and if
they get the lock they end as on a connection without a stream.

## One stream

A connection has one stream in its life, and `Usage.one_stream` keeps account of it: it is in use,
or somebody is ending it, or it has been dropped, once.
-/

namespace PinballBoard

theorem Trace.encoded_of_marked {t : Trace} {x : Ticket × UInt8} (hx : x ∈ t.marked) :
    ∃ p ∈ t.encoded, p.1 = x.1 := by
  obtain ⟨p, hp, hmem⟩ := List.mem_flatMap.mp hx
  obtain ⟨byte, -, rfl⟩ := List.mem_map.mp hmem
  exact ⟨p, hp, rfl⟩

/-! ## What a turn notes -/

namespace Usage

variable {u : Usage}

/-- What is noted in a turn. -/
def noted (u : Usage) : Turn → Trace
  | .call call => (u.connection.step (.enter u.calls.length call)).2
  | .act (.enter _ _) => []
  | .act action => (u.connection.step action).2

theorem run_append (u : Usage) (turns more : List Turn) :
    u.run (turns ++ more) = (u.run turns).run more := List.foldl_append

theorem events_step (u : Usage) (turn : Turn) :
    (u.step turn).events = u.events ++ u.noted turn := by
  cases turn with
  | call call => rfl
  | act a =>
    cases a with
    | enter => exact (List.append_nil _).symm
    | _ => rfl

/-- Whatever a turn is, it is a change of the connection. Who makes a call gets the next ticket. -/
theorem change_turn (u : Usage) (turn : Turn) :
    ∃ a, (∀ t call, a = .enter t call → turn = .call call ∧ t = u.calls.length) ∧
      u.connection.Change a (u.step turn).connection (u.noted turn) := by
  cases turn with
  | call call =>
    exact ⟨_, by rintro _ _ ⟨⟩; exact ⟨rfl, rfl⟩,
      u.connection.change_step (.enter u.calls.length call)⟩
  | act a =>
    cases a with
    | enter => exact ⟨.proceed, by simp, .idle (by simp)⟩
    | _ => exact ⟨_, by simp, u.connection.change_step _⟩

theorem calls_prefix_step (u : Usage) (turn : Turn) : u.calls <+: (u.step turn).calls := by
  cases turn with
  | call call => exact List.prefix_append _ _
  | act a =>
    cases a with
    | enter => exact List.prefix_rfl
    | _ => exact List.prefix_rfl

theorem calls_prefix_run (u : Usage) (turns : List Turn) : u.calls <+: (u.run turns).calls := by
  induction turns generalizing u with
  | nil => exact List.prefix_rfl
  | cons turn turns ih => exact (u.calls_prefix_step turn).trans (ih (u.step turn))

theorem Sound.step (h : u.Sound) (turn : Turn) : (u.step turn).Sound := by
  cases turn with
  | call call => exact h.call call
  | act a =>
    cases a with
    | enter => exact h
    | _ => exact h.change (by simp) (u.connection.change_step _)

/-- Who has gone is not told an end in any turn, unless he ends the stream. -/
theorem Sound.not_noted_of_gone (h : u.Sound) {t : Ticket} {call : Call} (hgone : u.Gone t)
    (hcalls : u.calls[t]? = some call) (hcall : call ≠ .close) (turn : Turn) (outcome : Outcome) :
    Event.settled t outcome ∉ u.noted turn := by
  cases turn with
  | call call' =>
    simp only [noted, Connection.step, Connection.enter]
    cases call'.refusal with
    | none => exact List.not_mem_nil
    | some e => simpa using fun ht ↦ absurd ht (Nat.ne_of_lt hgone.1)
  | act a =>
    cases a with
    | enter => exact List.not_mem_nil
    | _ =>
      rw [← Trace.mem_settled]
      exact h.not_settled_of_gone hgone hcalls hcall (by simp) outcome

end Usage

/-! ## No stream comes back -/

namespace Connection

variable {c c' : Connection} {a : Action} {events : Trace}

/-- Nobody who gets the lock will find a stream. -/
def IsSealed (c : Connection) : Prop := c.link = none ∨ c.aborted = true

theorem Change.aborted (h : Change c a c' events) (haborted : c.aborted = true) :
    c'.aborted = true := by
  cases h with
  | abortsFree | abortsBusy => rfl
  | _ => exact haborted

theorem Change.isSealed (h : Change c a c' events) (hsealed : c.IsSealed) : c'.IsSealed :=
  hsealed.imp h.link_none h.aborted

/-- Whose command is encoded stands in line, before a stream that was not given up when he got the
lock. -/
theorem Change.encoded_cases (h : Change c a c' events) {p : Ticket × Command}
    (hp : p ∈ events.encoded) :
    ∃ k ∈ c.line, k.ticket = p.1 ∧
      (k.stage = .draining ∨ c.link ≠ none ∧ c.aborted = false) := by
  cases h with
  | @encodes a pre k rest l l' command hline hlink hcall hfrom hsubmit =>
    obtain rfl : p = (k.ticket, command) := by
      simpa [(Usage.events_of_admits hfrom).1] using hp
    refine ⟨k, hline ▸ List.mem_cons_self, rfl, ?_⟩
    cases hfrom with
    | atOnce hstage hopen hroom => exact .inr ⟨by simp [hlink], hopen⟩
    | drained hstage hempty => exact .inl hstage
  | rejects hline hlink hcall hfrom => simp [(Usage.events_of_admits hfrom).1] at hp
  | _ => simp at hp

/-- **Who gets the lock of a sealed connection is told that it is closed.** -/
theorem Change.locked_of_sealed (h : Change c a c' events) (hsealed : c.IsSealed) {t : Ticket}
    (ht : t ∈ events.locked) :
    ∃ k ∈ c.line, k.ticket = t ∧ events.settled = [(t, k.call.closedOutcome)] := by
  have hopen : ∀ {l}, c.link = some l → c.aborted = false → False := by
    intro l hlink hfalse
    rcases hsealed with hnone | haborted
    · rw [hlink] at hnone
      cases hnone
    · rw [hfalse] at haborted
      cases haborted
  cases h with
  | @foundClosed k rest hline hstage hclosed =>
    obtain rfl : t = k.ticket := by simpa using ht
    exact ⟨k, hline ▸ List.mem_cons_self, rfl, by simp⟩
  | foundOpen _ _ hlink hfalse | takesStream _ _ hlink hfalse | drains _ _ hlink hfalse =>
    exact (hopen hlink hfalse).elim
  | encodes hline hlink hcall hfrom | rejects hline hlink hcall hfrom =>
    cases hfrom with
    | atOnce _ hfalse => exact (hopen hlink hfalse).elim
    | drained => simp at ht
  | _ => simp at ht

/-- Who is told of the end of his call has just made it, has got the lock or ends the stream. -/
theorem Change.settled_cases (h : Change c a c' events) {t : Ticket} {outcome : Outcome}
    (hmem : (t, outcome) ∈ events.settled) :
    (∃ call, a = .enter t call) ∨
      (∃ k ∈ c.line, k.ticket = t ∧ (k.stage = .waiting → t ∈ events.locked)) ∨
        ∃ k, c.closer = some k ∧ k.ticket = t ∧ outcome = .done := by
  cases h with
  | @refused t' call e hrefusal =>
    obtain ⟨rfl, -⟩ : t = t' ∧ outcome = .failed e := by simpa using hmem
    exact .inl ⟨call, rfl⟩
  | @closerEnds a closer hcloser hstage =>
    obtain ⟨rfl, rfl⟩ : t = closer.ticket ∧ outcome = .done := by simpa using hmem
    exact .inr (.inr ⟨closer, hcloser, rfl, rfl⟩)
  | @foundClosed k rest hline | @foundOpen k rest _ hline =>
    obtain ⟨rfl, -⟩ : t = k.ticket ∧ _ := by simpa using hmem
    exact .inr (.inl ⟨k, hline ▸ List.mem_cons_self, rfl, fun _ ↦ by simp⟩)
  | @sent k rest _ _ hline _ _ hstage =>
    obtain ⟨rfl, -⟩ : t = k.ticket ∧ _ := by simpa using hmem
    exact .inr (.inl ⟨k, hline ▸ List.mem_cons_self, rfl, by simp [hstage]⟩)
  | @replied _ k rest _ _ _ _ hline _ hfrom | @misreads _ k rest _ _ _ hline _ hfrom =>
    obtain ⟨rfl, -⟩ : t = k.ticket ∧ _ := by simpa using hmem
    exact .inr (.inl ⟨k, hline ▸ List.mem_cons_self, rfl,
      fun hwaiting ↦ absurd hwaiting hfrom.isBusy.stage_ne⟩)
  | @breaks _ k rest _ _ hline _ hstage =>
    obtain ⟨rfl, -⟩ : t = k.ticket ∧ _ := by simpa using hmem
    exact .inr (.inl ⟨k, hline ▸ List.mem_cons_self, rfl, fun hwaiting ↦ absurd hwaiting hstage⟩)
  | @rejects _ _ k rest _ _ _ hline hlink hcall hfrom =>
    obtain ⟨rfl, -⟩ : t = k.ticket ∧ _ := by
      simpa [Trace.mem_settled, (Usage.events_of_admits hfrom).2] using hmem
    refine .inr (.inl ⟨k, hline ▸ List.mem_cons_self, rfl, fun hwaiting ↦ ?_⟩)
    cases hfrom with
    | atOnce => simp
    | drained hstage => simp [hstage] at hwaiting
  | encodes hline hlink hcall hfrom =>
    simp [Trace.mem_settled, (Usage.events_of_admits hfrom).2] at hmem
  | _ => simp at hmem

end Connection

namespace Usage

open Connection

variable {u w : Usage}

/-- A stream that is gone does not come back. -/
theorem link_none_run (h : u.connection.link = none) (turns : List Turn) :
    (u.run turns).connection.link = none := by
  induction turns generalizing u with
  | nil => exact h
  | cons turn turns ih =>
    obtain ⟨a, -, hchange⟩ := u.change_turn turn
    exact ih (hchange.link_none h)

/-! ## Sealed connections -/

/-- What has become of a usage since the connection was sealed. -/
structure Shut (u w : Usage) : Prop where
  isSealed : w.connection.IsSealed
  /-- Whoever has got the lock since has been told that the connection is closed, and nothing
  else. -/
  told : ∀ t ∈ w.locked, t ∉ u.locked → ∃ call, w.calls[t]? = some call ∧
    ∀ outcome, Event.settled t outcome ∈ w.events ↔ outcome = call.closedOutcome
  /-- Nothing of his has been encoded. -/
  encoded_of : ∀ p ∈ w.encoded, p.1 ∈ u.locked

theorem shut_self (hsound : u.Sound) (hsealed : u.connection.IsSealed) : u.Shut u where
  isSealed := hsealed
  told _ ht hnot := absurd ht hnot
  encoded_of _ hp := hsound.orderly.encoded_locked.subset (List.mem_map_of_mem hp)

private theorem Shut.gone (h : u.Shut w) (hsound : w.Sound) {t : Ticket} (ht : t ∈ w.locked)
    (hnew : t ∉ u.locked) : w.Gone t := by
  obtain ⟨call, -, htold⟩ := h.told t ht hnew
  exact hsound.settled_gone t _ ((htold _).mpr rfl)

theorem Shut.step (h : u.Shut w) (hsound : w.Sound) (turn : Turn) : u.Shut (w.step turn) := by
  obtain ⟨a, ha, hchange⟩ := w.change_turn turn
  refine ⟨hchange.isSealed h.isSealed, fun t ht hnew ↦ ?_, fun p hp ↦ ?_⟩
  · rw [locked, events_step, Trace.locked_append] at ht
    rcases List.mem_append.mp ht with ht | ht
    · obtain ⟨call, hcall, htold⟩ := h.told t ht hnew
      have hgone := h.gone hsound ht hnew
      obtain ⟨more, hmore⟩ := w.calls_prefix_step turn
      refine ⟨call, hmore ▸ getElem?_append_of_some hcall more, fun outcome ↦ ?_⟩
      rw [events_step, List.mem_append, htold]
      refine or_iff_left_of_imp fun hmem ↦ ?_
      -- he has gone, so he could only be the one who ends the stream
      obtain ⟨call', rfl⟩ | ⟨k, hk, hticket, -⟩ | ⟨k, hk, hticket, rfl⟩ :=
        hchange.settled_cases (Trace.mem_settled.mpr hmem)
      · exact absurd (ha t call' rfl).2 (Nat.ne_of_lt hgone.1)
      · exact absurd hticket (hgone.2 k hk)
      · have hclose := (hsound.closer_gone k hk).2
        rw [hticket, hcall] at hclose
        cases hclose
        rfl
    · obtain ⟨k, hk, rfl, hsettled⟩ := hchange.locked_of_sealed h.isSealed ht
      obtain ⟨more, hmore⟩ := w.calls_prefix_step turn
      refine ⟨k.call, hmore ▸ getElem?_append_of_some (hsound.orderly.call_of k hk) more,
        fun outcome ↦ ?_⟩
      have hfirst : Event.settled k.ticket outcome ∉ w.events :=
        fun hmem ↦ (hsound.settled_gone _ _ hmem).2 k hk rfl
      rw [events_step, List.mem_append, or_iff_right hfirst, ← Trace.mem_settled, hsettled]
      simp
  · rw [encoded, events_step, Trace.encoded_append] at hp
    rcases List.mem_append.mp hp with hp | hp
    · exact h.encoded_of p hp
    · obtain ⟨k, hk, hticket, hstage | ⟨hlink, hopen⟩⟩ := hchange.encoded_cases hp
      swap
      · exact (h.isSealed.elim hlink (by simp [hopen])).elim
      -- who drains has the lock, and would have gone if he had got it since
      obtain ⟨earlier, hlocked, -⟩ := hsound.orderly.draining_last k hk hstage
      by_contra hnew
      rw [← hticket] at hnew
      exact (h.gone hsound (hlocked ▸ List.mem_append_right _ (List.mem_singleton_self _))
        hnew).2 k hk rfl

theorem Shut.run (h : u.Shut w) (hsound : w.Sound) (turns : List Turn) : u.Shut (w.run turns) := by
  induction turns generalizing w with
  | nil => exact h
  | cons turn turns ih => exact ih (h.step hsound turn) (hsound.step turn)

theorem Shut.marked_of (h : u.Shut w) {x : Ticket × UInt8} (hx : x ∈ w.events.marked) :
    x.1 ∈ u.locked := by
  obtain ⟨p, hp, hticket⟩ := Trace.encoded_of_marked hx
  exact hticket ▸ h.encoded_of p hp

theorem isSealed_abort (u : Usage) : (u.step (.act .abort)).connection.IsSealed := by
  refine .inr ?_
  change (u.connection.abort).1.aborted = true
  rw [Connection.abort]
  split
  · rw [dropLink]
    split <;> rfl
  · rfl

/-- Who has sent or asked something and hears how that has ended has got the lock, if he has been
put in line at all. -/
theorem locked_of_settled (peer : String) (turns : List Turn) :
    ∀ t outcome call, Event.settled t outcome ∈ ((fresh peer).run turns).events →
      ((fresh peer).run turns).calls[t]? = some call → call.command? ≠ none → call.refusal = none →
        t ∈ ((fresh peer).run turns).locked := by
  refine change_induction (P := fun u ↦ ∀ t outcome call, Event.settled t outcome ∈ u.events →
    u.calls[t]? = some call → call.command? ≠ none → call.refusal = none → t ∈ u.locked)
    peer ?_ ?_ ?_ turns
  · exact fun t outcome call hmem ↦ absurd hmem List.not_mem_nil
  · intro u made hsound h t outcome call hmem hcall hcommand hserved
    have hold : Event.settled t outcome ∈ u.events → t ∈ u.locked := by
      intro hmem
      rw [step, List.getElem?_append_left (hsound.settled_gone t outcome hmem).1] at hcall
      exact h t outcome call hmem hcall hcommand hserved
    cases hmade : made.refusal with
    | none =>
      rw [step_call_of_not_refusal hmade] at hmem ⊢
      exact hold hmem
    | some e =>
      rw [step_call_of_refusal hmade] at hmem hcall ⊢
      rcases List.mem_append.mp hmem with hmem | hmem
      · simpa [locked] using hold hmem
      · obtain ⟨rfl, -⟩ : t = u.calls.length ∧ outcome = .failed e := by simpa using hmem
        obtain rfl : made = call := by simpa using hcall
        simp [hmade] at hserved
  · intro u a c events ha hsound hchange h t outcome call hmem hcall hcommand hserved
    rw [locked, Trace.locked_append, List.mem_append]
    rcases List.mem_append.mp hmem with hmem | hmem
    · exact .inl (h t outcome call hmem hcall hcommand hserved)
    · obtain ⟨call', hcall'⟩ | ⟨k, hk, rfl, hwaiting⟩ | ⟨k, hk, rfl, -⟩ :=
        hchange.settled_cases (Trace.mem_settled.mpr hmem)
      · exact absurd hcall' (ha t call')
      · by_cases hstage : k.stage = .waiting
        · exact .inr (hwaiting hstage)
        · exact .inl (hsound.orderly.locked_of_stage hk hstage)
      · have hclose := (hsound.closer_gone k hk).2
        rw [Option.some.inj (hcall.symm.trans hclose)] at hcommand
        exact absurd rfl hcommand

/-! ## The end of a close -/

private theorem link_none_of_close {a : Action} {c : Connection} {events : Trace}
    (hsound : u.Sound) (hone : u.connection.OneStream) (ha : ∀ t call, a ≠ .enter t call)
    (hchange : u.connection.Change a c events) {t : Ticket} {outcome : Outcome}
    (hmem : Event.settled t outcome ∈ events) (hclose : u.calls[t]? = some .close) :
    c.link = none := by
  have hcall : ∀ {k rest}, u.connection.line = k :: rest → t = k.ticket → k.call = .close := by
    rintro k rest hline rfl
    exact Option.some.inj
      ((hsound.orderly.call_of k (hline ▸ List.mem_cons_self)).symm.trans hclose)
  -- whose frame has been written has not asked for the end of the stream
  have hbusy : ∀ {k rest}, u.connection.line = k :: rest → k.IsBusy → k.call ≠ .close := by
    intro k rest hline hbusy hcall
    obtain ⟨_, _, hcommand, -⟩ :=
      hsound.orderly.encoded_last k (hline ▸ List.mem_cons_self) hbusy
    rw [hcall] at hcommand
    cases hcommand
  cases hchange with
  | refused | queued => exact absurd rfl (ha _ _)
  | foundClosed | breaks => rfl
  | closerEnds hcloser => exact hone.link_eq_none hcloser
  | @foundOpen k rest l hline hstage hlink hopen hprobe =>
    obtain ⟨hticket, -⟩ : t = k.ticket ∧ outcome = .isOpen true := by simpa using hmem
    rw [hcall hline hticket] at hprobe
    cases hprobe
  | @sent k rest l command hline hlink hsend hstage =>
    obtain ⟨hticket, -⟩ : t = k.ticket ∧ outcome = .done := by simpa using hmem
    exact absurd (hcall hline hticket) (hbusy hline (.inl hstage))
  | @replied a k rest l l' reply left hline hlink hfrom =>
    obtain ⟨hticket, -⟩ : t = k.ticket ∧ outcome = .reply reply := by simpa using hmem
    exact absurd (hcall hline hticket) (hbusy hline hfrom.isBusy)
  | @misreads a k rest l l' e hline hlink hfrom =>
    obtain ⟨hticket, -⟩ : t = k.ticket ∧ outcome = .failed (.protocol e) := by simpa using hmem
    exact absurd (hcall hline hticket) (hbusy hline hfrom.isBusy)
  | @rejects a pre k rest l command e hline hlink hcommand hfrom =>
    obtain ⟨hticket, -⟩ : t = k.ticket ∧ outcome = .failed (.protocol e) := by
      simpa [(events_of_admits hfrom).2] using hmem
    rw [hcall hline hticket] at hcommand
    cases hcommand
  | encodes hline hlink hcall hfrom => simp [(events_of_admits hfrom).2] at hmem
  | _ => simp at hmem

theorem link_none_of_closed (peer : String) (turns : List Turn) :
    ∀ t outcome, Event.settled t outcome ∈ ((fresh peer).run turns).events →
      ((fresh peer).run turns).calls[t]? = some .close →
        ((fresh peer).run turns).connection.link = none := by
  have h : ((fresh peer).run turns).Framed ∧
      ∀ t outcome, Event.settled t outcome ∈ ((fresh peer).run turns).events →
        ((fresh peer).run turns).calls[t]? = some .close →
          ((fresh peer).run turns).connection.link = none := by
    refine change_induction (P := fun u ↦ u.Framed ∧ ∀ t outcome,
      Event.settled t outcome ∈ u.events → u.calls[t]? = some .close → u.connection.link = none)
      peer ⟨framed_fresh peer, fun t outcome hmem ↦ absurd hmem List.not_mem_nil⟩
      (fun u call hsound h ↦ ⟨h.1.call hsound call, fun t outcome hmem hclose ↦ ?_⟩)
      (fun u a c events ha hsound hchange h ↦
        ⟨h.1.change hsound hchange, fun t outcome hmem hclose ↦ ?_⟩) turns
    · have hold : Event.settled t outcome ∈ u.events → u.connection.link = none := by
        intro hmem
        rw [step, List.getElem?_append_left (hsound.settled_gone t outcome hmem).1] at hclose
        exact h.2 t outcome hmem hclose
      cases hcall : call.refusal with
      | none =>
        rw [step_call_of_not_refusal hcall] at hmem ⊢
        exact hold hmem
      | some e =>
        rw [step_call_of_refusal hcall] at hmem hclose ⊢
        rcases List.mem_append.mp hmem with hmem | hmem
        · exact hold hmem
        · -- the end of the stream is never refused
          obtain ⟨rfl, -⟩ : t = u.calls.length ∧ outcome = .failed e := by simpa using hmem
          obtain rfl : call = .close := by simpa using hclose
          cases hcall
    · rcases List.mem_append.mp hmem with hmem | hmem
      · exact hchange.link_none (h.2 t outcome hmem hclose)
      · exact link_none_of_close hsound h.1.oneStream ha hchange hmem hclose
  exact h.2

end Usage

/-! ## What becomes of the stream -/

theorem Trace.count_dropped (l : Option Link) :
    (droppedEvents l).count .dropped = l.toList.length := by
  cases l <;> rfl

theorem Trace.shutdown_not_mem_dropped (l : Option Link) : .shutdown ∉ droppedEvents l := by
  cases l <;> simp [droppedEvents]

namespace Connection

variable {c c' : Connection} {a : Action} {events : Trace}

/-- The number of streams that a connection has, be they in use or being ended. -/
def streams (c : Connection) : Nat := c.link.toList.length + c.closer.toList.length

private theorem count_given (closer? : Option Closer) (t : Ticket) :
    (droppedEvents ((closer?.filter (·.ticket == t)).map (·.link))).count .dropped +
      (closer?.filter (·.ticket != t)).toList.length = closer?.toList.length := by
  cases closer? with
  | none => rfl
  | some closer => by_cases ht : closer.ticket = t <;> simp [ht, Option.filter, droppedEvents]

/-- A stream that a connection has no more has been dropped. -/
theorem Change.streams_eq (h : Change c a c' events) (hone : c.OneStream) :
    events.count .dropped + c'.streams = c.streams := by
  cases h with
  | takesStream hline hstage hlink =>
    simp [streams, hlink, hone.closer_eq_none hlink]
  | foundClosed | abortsFree => simp [streams, Trace.count_dropped]
  | encodes _ hlink _ hfrom | rejects _ hlink _ hfrom => cases hfrom <;> simp [streams, hlink]
  | @deserts ticket =>
    have hgiven := count_given c.closer ticket
    simp only [streams, List.count_append, Trace.count_dropped, Option.toList_none,
      List.length_nil] at hgiven ⊢
    omega
  | @retires ticket =>
    have hgiven := count_given c.closer ticket
    simp only [streams]
    omega
  | breaks _ hlink => simp [streams, hlink]
  | closerEnds hcloser => simp [streams, hcloser, Nat.add_comm]
  | _ => simp_all [streams]

end Connection

namespace Usage

/-- **There is one stream.** Either it is in use, or it is being ended, or it has been dropped, and
then it has been dropped once. -/
theorem one_stream (peer : String) (turns : List Turn) :
    ((fresh peer).run turns).events.count .dropped +
      ((fresh peer).run turns).connection.streams = 1 := by
  have h : ((fresh peer).run turns).connection.OneStream ∧
      ((fresh peer).run turns).events.count .dropped +
        ((fresh peer).run turns).connection.streams = 1 := by
    refine change_induction (P := fun u ↦ u.connection.OneStream ∧
      u.events.count .dropped + u.connection.streams = 1) peer ⟨.inr rfl, rfl⟩ ?_ ?_ turns
    · intro u call _ ⟨hone, hcount⟩
      have hchange := u.connection.change_step (.enter u.calls.length call)
      have hstreams := hchange.streams_eq hone
      refine ⟨hchange.oneStream hone, ?_⟩
      change (u.events ++ (u.connection.step (.enter u.calls.length call)).2).count .dropped +
        (u.connection.step (.enter u.calls.length call)).1.streams = 1
      rw [List.count_append]
      omega
    · intro u a c events _ _ hchange ⟨hone, hcount⟩
      have hstreams := hchange.streams_eq hone
      refine ⟨hchange.oneStream hone, ?_⟩
      change (u.events ++ events).count .dropped + c.streams = 1
      rw [List.count_append]
      omega
  exact h.2

/-- A stream is told to shut down only where a task ends it. -/
theorem close_of_shutdown (peer : String) (turns : List Turn) :
    .shutdown ∈ ((fresh peer).run turns).events → .close ∈ ((fresh peer).run turns).calls := by
  refine change_induction
    (P := fun u ↦ Event.shutdown ∈ u.events → Call.close ∈ u.calls) peer nofun ?_ ?_ turns
  · intro u call _ h hshutdown
    have hevents : (u.step (.call call)).events =
        u.events ++ (u.connection.step (.enter u.calls.length call)).2 := rfl
    rw [hevents, List.mem_append] at hshutdown
    refine List.mem_append_left _ (hshutdown.elim h fun hnew ↦ ?_)
    rw [Connection.step, Connection.enter] at hnew
    split at hnew <;> simp at hnew
  · intro u a c events _ hsound hchange h hshutdown
    rcases List.mem_append.mp hshutdown with hold | hnew
    · exact h hold
    · obtain ⟨closer, hcloser⟩ : ∃ closer, u.connection.closer = some closer := by
        cases hchange with
        | closerShuts hcloser => exact ⟨_, hcloser⟩
        | encodes _ _ _ hfrom | rejects _ _ _ hfrom => cases hfrom <;> simp at hnew
        | _ => simp_all [Trace.shutdown_not_mem_dropped]
      exact List.mem_of_getElem? (hsound.closer_gone closer hcloser).2

end Usage

end PinballBoard
