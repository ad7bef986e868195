import PinballBoard.Proofs.Link.Framing
import PinballBoard.Proofs.Wire.Parse

/-!
# An idle codec expects nothing

The codec of a connection is armed by the command that it encodes and disarmed by the reply that it
decodes. In between the task at the head of the line can fail, be given up or lose the stream, and
each of these ways out is a chance to leave an armed codec to whoever comes next. He would then be
refused for a reply that is none of his business.

`Usage.Armed` says what the codec expects at every moment: the reply to the command of the task that
writes or reads, and otherwise nothing. So the decoder always knows what it is asked for, and the
encoder never finds it busy.

## The one exception

A string that runs past its limit is a fault of the codec and not of the stream, so the stream is
kept, and the codec goes on waiting for the end of the string. Nobody reads it any more. From then
on the connection is jammed (`Trace.Jammed`): whoever comes is refused before a byte is written or
read, and the stream stays as it is until it is dropped or closed.
-/

namespace PinballBoard

/-- A string has run past its limit. -/
def Trace.Jammed (t : Trace) : Prop :=
  ∃ ticket limit, Event.settled ticket (.failed (.protocol (.stringTooLong limit))) ∈ t

theorem Trace.jammed_append {t s : Trace} : Jammed (t ++ s) ↔ t.Jammed ∨ s.Jammed := by
  simp only [Jammed, List.mem_append, exists_or]

theorem Call.replyKind_of_not_refused {call : Call} (h : call.refusal = none) :
    (∀ command, call = .send command → command.replyKind = none) ∧
      ∀ command, call = .request command → ∃ kind, command.replyKind = some kind := by
  constructor
  · rintro command rfl
    simpa [Call.refusal] using h
  · rintro command rfl
    exact Option.ne_none_iff_exists'.mp (by simpa [Call.refusal] using h)

theorem Call.refusal_ne_protocol {call : Call} {e : LinkError} (h : call.refusal = some e)
    (fault : ProtocolError) : e ≠ .protocol fault := by
  rintro rfl
  cases call with
  | send | request =>
    simp only [Call.refusal] at h
    split at h <;> cases h
  | probe | close => cases h

namespace Connection

variable {c c' : Connection} {a : Action} {events : Trace} {l l' : Link} {caller : Caller}

theorem submit_error {command : Command} {e : ProtocolError} (h : l.submit command = .error e) :
    (∃ kind, l.codec.pending = some kind ∧ e = .unexpectedReply
        s!"{kind.text} reply to be read before {command}" "new command") ∨
      (∃ detail, e = .invalidDisplay detail) ∨ ∃ detail, e = .invalidDisplayText detail := by
  rw [Link.submit, Codec.encode] at h
  cases hpending : l.codec.pending with
  | some kind =>
    rw [hpending] at h
    cases h
    exact .inl ⟨kind, rfl, rfl⟩
  | none =>
    rw [hpending] at h
    cases hencode : command.encode with
    | ok frame =>
      rw [hencode] at h
      cases h
    | error e' =>
      rw [hencode] at h
      cases h
      exact .inr (Command.encode_error hencode)

theorem submit_of_pending {kind : ReplyKind} (h : l.codec.pending = some kind)
    (command : Command) :
    l.submit command = .error
      (.unexpectedReply s!"{kind.text} reply to be read before {command}" "new command") := by
  rw [Link.submit, Codec.encode, h]
  rfl

/-- On an armed codec a task that runs is refused, and nothing else happens. -/
theorem step_proceed_of_pending {rest : List Caller} {command : Command} {kind : ReplyKind}
    (hline : c.line = caller :: rest) (hstage : caller.stage = .waiting)
    (hcall : caller.call.command? = some command) (hlink : c.link = some l)
    (hopen : c.aborted = false) (hroom : l.outgoing.length < backlogLimit)
    (hpending : l.codec.pending = some kind) :
    c.step .proceed = ({ c with line := rest },
      [.locked caller.ticket, .settled caller.ticket (.failed (.protocol (.unexpectedReply
        s!"{kind.text} reply to be read before {command}" "new command")))]) := by
  have hsubmit := submit_of_pending hpending command
  have hroom : ¬backlogLimit ≤ l.outgoing.length := Nat.not_le_of_lt hroom
  cases hk : caller.call with
  | send command' | request command' =>
    obtain rfl : command' = command := by simpa [hk, Call.command?] using hcall
    simp [step, proceed, hline, hstage, heedAbort, hopen, serve, hk, hlink, hroom, submit, hsubmit,
      leave]
  | probe | close => simp [hk, Call.command?] at hcall

theorem Change.link_none (h : Change c a c' events) (hlink : c.link = none) : c'.link = none := by
  cases h with
  | idle | refused | queued | abortsBusy | retires | closerAccepts | closerShuts | closerWaits
  | closerEnds => exact hlink
  | foundClosed | takesStream | breaks | deserts | abortsFree => rfl
  | foundOpen _ _ hsome | drains _ _ hsome | encodes _ hsome | rejects _ hsome | accepts _ hsome
  | sent _ hsome | replied _ hsome | waits _ hsome | misreads _ hsome =>
    rw [hlink] at hsome
    cases hsome

/-- In a step the codec looks for a reply, at a stream that has become `l`. -/
inductive Decodes (c : Connection) : Action → Link → Prop where
  | flushed {l : Link} {command : Command} {caller : Caller}
      (hwriter : c.writer? = some (caller, l)) (hempty : l.outgoing = [])
      (hstage : caller.stage = .writing) (hcall : caller.call = .request command) :
      Decodes c .flush l
  | received {l : Link} {caller : Caller} {chunk : Bytes}
      (hreader : c.reader? = some (caller, l)) (hchunk : chunk ≠ []) :
      Decodes c (.receive chunk) (l.received chunk)
  | ended {l : Link} {caller : Caller} (hreader : c.reader? = some (caller, l)) :
      Decodes c .ends l

end Connection

namespace Usage

open Connection

variable {u : Usage}

/-- The codec expects the reply to the command of the task that writes or reads, and nothing
else. -/
structure Armed (u : Usage) : Prop where
  /-- While a task writes or reads, the codec expects what its command is answered with. -/
  busy : ∀ k ∈ u.connection.line, k.IsBusy → ∀ l, u.connection.link = some l →
    ∃ command, k.call.command? = some command ∧ l.codec.pending = command.replyKind
  /-- While no task does, the codec expects nothing. -/
  free : ¬u.events.Jammed → (∀ k ∈ u.connection.line, ¬k.IsBusy) →
    ∀ l, u.connection.link = some l → l.codec.pending = none
  /-- A jammed stream has an armed codec, nothing to write, and nobody who has got the lock. -/
  jammed : u.events.Jammed → ∀ l, u.connection.link = some l →
    l.codec.pending = some .string ∧ l.outgoing = [] ∧
      ∀ k ∈ u.connection.line, k.stage = .waiting

theorem armed_fresh (peer : String) : (fresh peer).Armed where
  busy k hk := absurd hk List.not_mem_nil
  free _ _ l hl := by
    cases hl
    rfl
  jammed := by
    rintro ⟨t, limit, hmem⟩
    exact absurd hmem List.not_mem_nil

theorem Armed.call (h : u.Armed) (call : Call) : (u.step (.call call)).Armed := by
  cases hcall : call.refusal with
  | some e =>
    rw [step_call_of_refusal hcall]
    have hjam : Trace.Jammed (u.events ++ [.settled u.calls.length (.failed e)]) ↔
        u.events.Jammed := by
      simp [Trace.Jammed, Ne.symm (Call.refusal_ne_protocol hcall _)]
    exact ⟨h.busy, fun hfree ↦ h.free (mt hjam.mpr hfree), fun hjammed ↦ h.jammed (hjam.mp hjammed)⟩
  | none =>
    rw [step_call_of_not_refusal hcall]
    refine ⟨fun k hk hbusy ↦ ?_, fun hfree hline ↦ ?_, fun hjammed l hl ↦ ?_⟩
    · rcases List.mem_append.mp hk with hk | hk
      · exact h.busy k hk hbusy
      · rw [List.mem_singleton.mp hk] at hbusy
        rcases hbusy with hstage | hstage <;> cases hstage
    · exact h.free hfree fun k hk ↦ hline k (List.mem_append_left _ hk)
    · obtain ⟨hpending, hempty, hwaiting⟩ := h.jammed hjammed l hl
      refine ⟨hpending, hempty, fun k hk ↦ ?_⟩
      rcases List.mem_append.mp hk with hk | hk
      · exact hwaiting k hk
      · rw [List.mem_singleton.mp hk]

private theorem armed_of_no_link {c : Connection} {events : Trace} (hlink : c.link = none) :
    Armed { u with connection := c, events := u.events ++ events } := by
  refine ⟨fun k hk hbusy l hl ↦ ?_, fun hfree hline l hl ↦ ?_, fun hjammed l hl ↦ ?_⟩ <;>
    rw [hlink] at hl <;> cases hl

private theorem Armed.of_leave (h : u.Armed) {c : Connection} {events : Trace}
    (hevents : ¬Trace.Jammed events) (hlink : c.link = u.connection.link)
    (hsub : ∀ k ∈ c.line, k ∈ u.connection.line)
    (hfree : ¬u.events.Jammed → (∀ k ∈ c.line, ¬k.IsBusy) → ∀ l, c.link = some l →
      l.codec.pending = none) :
    Armed { u with connection := c, events := u.events ++ events } := by
  have hjam : Trace.Jammed (u.events ++ events) ↔ u.events.Jammed :=
    Trace.jammed_append.trans (or_iff_left hevents)
  refine ⟨fun k hk hbusy l hl ↦ ?_, fun hjammed ↦ hfree (mt hjam.mpr hjammed),
    fun hjammed l hl ↦ ?_⟩
  · exact h.busy k (hsub k hk) hbusy l (hlink ▸ hl)
  · obtain ⟨hpending, hempty, hwaiting⟩ := h.jammed (hjam.mp hjammed) l (hlink ▸ hl)
    exact ⟨hpending, hempty, fun k hk ↦ hwaiting k (hsub k hk)⟩

private theorem armed_of_head {c : Connection} {events : Trace} (hfree : ¬u.events.Jammed)
    (hevents : ¬Trace.Jammed events)
    (hbusy : ∀ k ∈ c.line, k.IsBusy → ∀ l, c.link = some l →
      ∃ command, k.call.command? = some command ∧ l.codec.pending = command.replyKind)
    (hidle : (∀ k ∈ c.line, ¬k.IsBusy) → ∀ l, c.link = some l → l.codec.pending = none) :
    Armed { u with connection := c, events := u.events ++ events } :=
  ⟨hbusy, fun _ ↦ hidle,
    fun hjammed ↦ absurd (Trace.jammed_append.mp hjammed) (not_or.mpr ⟨hfree, hevents⟩)⟩

private theorem not_isBusy_behind (hsound : u.Sound) {k : Caller} {rest : List Caller}
    (hline : u.connection.line = k :: rest) : ∀ k' ∈ rest, ¬k'.IsBusy := by
  intro k' hk' hbusy
  exact hbusy.stage_ne (hsound.behind_waiting hline k' hk')

private theorem not_isBusy_of_head (hsound : u.Sound) {k : Caller} {rest : List Caller}
    (hline : u.connection.line = k :: rest) (hhead : ¬k.IsBusy) :
    ∀ k' ∈ u.connection.line, ¬k'.IsBusy := by
  intro k' hk'
  rw [hline] at hk'
  rcases List.mem_cons.mp hk' with rfl | hk'
  · exact hhead
  · exact not_isBusy_behind hsound hline k' hk'

/-- The head is in the middle of its call, so the connection is not jammed. -/
private theorem Armed.not_jammed (h : u.Armed) {k : Caller} {rest : List Caller} {l : Link}
    (hline : u.connection.line = k :: rest) (hlink : u.connection.link = some l)
    (hstage : k.stage ≠ .waiting) : ¬u.events.Jammed :=
  fun hjammed ↦ hstage ((h.jammed hjammed l hlink).2.2 k (hline ▸ List.mem_cons_self))

/-- Whoever has got as far as the codec finds it with nothing to expect, or jammed. -/
private theorem Armed.admitted (h : u.Armed) (hsound : u.Sound) {a : Action} {pre : List Event}
    {k : Caller} {rest : List Caller} {l : Link} (hline : u.connection.line = k :: rest)
    (hlink : u.connection.link = some l) (hfrom : u.connection.Admits k l a pre)
    (hfree : ¬u.events.Jammed) : l.codec.pending = none :=
  h.free hfree (not_isBusy_of_head hsound hline hfrom.not_isBusy) l hlink

private theorem Armed.asked (h : u.Armed) (hsound : u.Sound) {a : Action} {k : Caller}
    {rest : List Caller} {l l' : Link} (hline : u.connection.line = k :: rest)
    (hlink : u.connection.link = some l) (hfrom : Awaits k l a l') :
    ∃ command kind, k.call = .request command ∧ command.replyKind = some kind ∧
      l'.codec.pending = some kind := by
  have hk : k ∈ u.connection.line := hline ▸ List.mem_cons_self
  obtain ⟨command, hcall⟩ := hsound.request_of_awaits hline hfrom
  obtain ⟨kind, hkind⟩ :=
    (Call.replyKind_of_not_refused (hsound.orderly.not_refused k hk)).2 command hcall
  obtain ⟨command', hcommand, hpending⟩ := h.busy k hk hfrom.isBusy l hlink
  obtain rfl : command = command' := by simpa [hcall, Call.command?] using hcommand
  exact ⟨command, kind, hcall, hkind, by rw [hfrom.codec_eq, hpending, hkind]⟩

/-- A codec that expects a reply fails for one reason, and then it goes on expecting. -/
private theorem misread {l : Link} {kind : ReplyKind} {e : ProtocolError}
    (hpending : l.codec.pending = some kind) (hdecode : l.codec.decode l.incoming = .failed e) :
    kind = .string ∧ e = .stringTooLong Limit.stringReply := by
  obtain ⟨_, _, -, hfound⟩ | ⟨-, -, hfound⟩ | ⟨-, hover, hfound⟩ :=
    Codec.decode_of_pending l.incoming hpending <;> rw [hdecode] at hfound <;> cases hfound
  exact ⟨hover.1, rfl⟩

/-- Whoever gives his call up and owes no reply leaves nothing behind that the codec would wait
for. -/
private theorem Armed.pending_of_retired (h : u.Armed) (hsound : u.Sound) {ticket : Ticket}
    (howes : ∀ k ∈ u.connection.line, k.ticket = ticket → k.owesReply = false)
    (hfree : ¬u.events.Jammed)
    (hothers : ∀ k ∈ u.connection.line.filter (·.ticket != ticket), ¬k.IsBusy) {l : Link}
    (hl : u.connection.link = some l) : l.codec.pending = none := by
  by_cases hbusy : ∃ k ∈ u.connection.line, k.IsBusy
  · obtain ⟨k, hk, hbusy⟩ := hbusy
    obtain ⟨command, hcommand, hpending⟩ := h.busy k hk hbusy l hl
    have hticket : k.ticket = ticket := by
      by_contra hne
      exact hothers k (List.mem_filter.mpr ⟨hk, by simpa using hne⟩) hbusy
    obtain ⟨command', hcall⟩ := hsound.send_of_not_owes hk hbusy (howes k hk hticket)
    obtain rfl : command' = command := by simpa [hcall, Call.command?] using hcommand
    rw [hpending]
    exact (Call.replyKind_of_not_refused (hsound.orderly.not_refused k hk)).1 _ hcall
  · exact h.free hfree (fun k hk hk' ↦ hbusy ⟨k, hk, hk'⟩) l hl

/-- **A step keeps the codec in step with the line.** -/
theorem Armed.change (h : u.Armed) (hsound : u.Sound) (hframed : u.Framed) {a : Action}
    {c : Connection} {events : Trace} (ha : ∀ t call, a ≠ .enter t call)
    (hchange : u.connection.Change a c events) :
    Armed { u with connection := c, events := u.events ++ events } := by
  have hbehind : ∀ {k rest}, u.connection.line = k :: rest → ∀ k' ∈ rest,
      k' ∈ u.connection.line := fun hline k' hk' ↦ hline ▸ List.mem_cons_of_mem _ hk'
  cases hchange with
  | refused | queued => exact absurd rfl (ha _ _)
  | foundClosed | takesStream | breaks | deserts | abortsFree => exact armed_of_no_link rfl
  | idle | abortsBusy | closerAccepts | closerShuts | closerWaits | closerEnds =>
    exact h.of_leave (by simp [Trace.Jammed]) rfl (fun k hk ↦ hk) h.free
  | @foundOpen k rest l hline hstage hlink hopen hcall =>
    exact h.of_leave (by simp [Trace.Jammed]) rfl (hbehind hline) fun hfree _ ↦
      h.free hfree (not_isBusy_of_head hsound hline fun hbusy ↦ hbusy.stage_ne hstage)
  | @rejects a pre k rest l command e hline hlink hcall hfrom hsubmit =>
    refine h.of_leave ?_ rfl (hbehind hline) fun hfree _ l' hl' ↦ ?_
    · have hsettled := (events_of_admits hfrom).2
      rcases submit_error hsubmit with ⟨kind, -, rfl⟩ | ⟨detail, rfl⟩ | ⟨detail, rfl⟩ <;>
        simp [Trace.Jammed, hsettled]
    · obtain rfl : l = l' := Option.some.inj (hlink.symm.trans hl')
      exact h.admitted hsound hline hlink hfrom hfree
  | retires howes =>
    exact h.of_leave (by simp [Trace.Jammed]) rfl (fun k hk ↦ List.mem_of_mem_filter hk)
      fun hfree hothers l ↦ h.pending_of_retired hsound howes hfree hothers
  | @drains k rest l command hline hstage hlink hopen hcall hroom =>
    have hfree : ¬u.events.Jammed := by
      intro hjammed
      rw [(h.jammed hjammed l hlink).2.1] at hroom
      exact absurd hroom (by decide)
    refine armed_of_head hfree (by simp [Trace.Jammed]) (fun k' hk' hbusy ↦ ?_) fun _ ↦
      h.free hfree (not_isBusy_of_head hsound hline fun hbusy ↦ hbusy.stage_ne hstage)
    rcases List.mem_cons.mp hk' with rfl | hk'
    · rcases hbusy with hbusy | hbusy <;> cases hbusy
    · exact absurd hbusy (not_isBusy_behind hsound hline k' hk')
  | @encodes a pre k rest l l' command hline hlink hcall hfrom hsubmit =>
    obtain ⟨-, hnone, rfl⟩ := submit_eq_ok hsubmit
    have hfree : ¬u.events.Jammed := by
      intro hjammed
      rw [(h.jammed hjammed l hlink).1] at hnone
      cases hnone
    refine armed_of_head hfree (by simp [Trace.Jammed, (events_of_admits hfrom).2])
      (fun k' hk' hbusy l' hl' ↦ ?_) fun hidle ↦ absurd (.inl rfl) (hidle _ List.mem_cons_self)
    cases hl'
    rcases List.mem_cons.mp hk' with rfl | hk'
    · exact ⟨command, hcall, rfl⟩
    · exact absurd hbusy (not_isBusy_behind hsound hline k' hk')
  | @accepts k rest l count hline hlink hstage hcount =>
    have hfree := h.not_jammed hline hlink (by rcases hstage with hstage | hstage <;> simp [hstage])
    refine armed_of_head hfree (by simp [Trace.Jammed]) (fun k' hk' hbusy l' hl' ↦ ?_)
      fun hidle l' hl' ↦ ?_
    · cases hl'
      exact h.busy k' hk' hbusy l hlink
    · cases hl'
      exact h.free hfree hidle l hlink
  | @sent k rest l command hline hlink hcall hstage hempty =>
    have hk : k ∈ u.connection.line := hline ▸ List.mem_cons_self
    refine h.of_leave (by simp [Trace.Jammed]) rfl (hbehind hline) fun _ _ l' hl' ↦ ?_
    obtain ⟨command', hcommand, hpending⟩ := h.busy k hk (.inl hstage) l' hl'
    obtain rfl : command = command' := by simpa [hcall, Call.command?] using hcommand
    rw [hpending]
    exact (Call.replyKind_of_not_refused (hsound.orderly.not_refused k hk)).1 command hcall
  | @replied a k rest l l' reply left hline hlink hfrom hdecode =>
    have hfree := h.not_jammed hline hlink hfrom.isBusy.stage_ne
    refine armed_of_head hfree (by simp [Trace.Jammed])
      (fun k' hk' hbusy ↦ absurd hbusy (not_isBusy_behind hsound hline k' hk')) fun _ l'' hl'' ↦ ?_
    cases hl''
    rfl
  | @waits a k rest l l' hline hlink hfrom hdecode =>
    have hfree := h.not_jammed hline hlink hfrom.isBusy.stage_ne
    obtain ⟨command, kind, hcall, hkind, hpending⟩ := h.asked hsound hline hlink hfrom
    refine armed_of_head hfree (by simp [Trace.Jammed]) (fun k' hk' hbusy l'' hl'' ↦ ?_)
      fun hidle ↦ absurd (.inr rfl) (hidle _ List.mem_cons_self)
    cases hl''
    rcases List.mem_cons.mp hk' with rfl | hk'
    · exact ⟨command, by simp [hcall, Call.command?], by rw [hpending, hkind]⟩
    · exact absurd hbusy (not_isBusy_behind hsound hline k' hk')
  | @misreads a k rest l l' e hline hlink hfrom hdecode =>
    obtain ⟨command, kind, hcall, hkind, hpending⟩ := h.asked hsound hline hlink hfrom
    obtain ⟨rfl, rfl⟩ := misread hpending hdecode
    refine ⟨fun k' hk' hbusy ↦ absurd hbusy (not_isBusy_behind hsound hline k' hk'),
      fun hfree ↦ absurd (Trace.jammed_append.mpr (.inr ⟨k.ticket, _, List.mem_singleton_self _⟩))
        hfree,
      fun _ l'' hl'' ↦ ?_⟩
    cases hl''
    refine ⟨hpending, ?_, hsound.behind_waiting hline⟩
    rw [hfrom.outgoing_eq]
    exact hframed.outgoing_of_awaits hline hlink hfrom

/-! ## How calls end -/

/-- What has come of the calls, as far as the codec has a part in it. -/
structure Told (u : Usage) : Prop where
  /-- Nobody is told of bytes for which nobody has asked. -/
  never_unsolicited : ∀ t count,
    Event.settled t (.failed (.protocol (.unsolicited count))) ∉ u.events
  /-- Nobody is told of an outstanding reply before a string has run past its limit. -/
  unexpected_after : ∀ (before : Trace) t expected actual after, u.events =
    before ++ .settled t (.failed (.protocol (.unexpectedReply expected actual))) :: after →
      before.Jammed
  /-- The call that is told of such a string has asked for one. -/
  jammed_by : ∀ t limit, Event.settled t (.failed (.protocol (.stringTooLong limit))) ∈ u.events →
    ∃ command, u.calls[t]? = some (.request command) ∧ command.replyKind = some .string
  /-- A request ends with a reply of the shape that it has asked for, or it fails. -/
  answered : ∀ t command outcome, u.calls[t]? = some (.request command) →
    Event.settled t outcome ∈ u.events →
      (∃ e, outcome = .failed e) ∨
        ∃ reply, outcome = .reply reply ∧ command.replyKind = some reply.kind

private theorem told_fresh (peer : String) : (fresh peer).Told := by
  refine ⟨fun t count hmem ↦ ?_, fun before t expected actual after hevents ↦ ?_,
    fun t limit hmem ↦ ?_, fun t command outcome _ hmem ↦ ?_⟩
  · exact absurd hmem List.not_mem_nil
  · exact absurd hevents.symm (by simp [fresh])
  · exact absurd hmem List.not_mem_nil
  · exact absurd hmem List.not_mem_nil

/-- The faults of the protocol with which a call can end. -/
private theorem Armed.of_settled_fault (h : u.Armed) (hsound : u.Sound) {a : Action}
    {c : Connection} {events : Trace} {t : Ticket} {e : ProtocolError}
    (ha : ∀ t call, a ≠ .enter t call) (hchange : u.connection.Change a c events)
    (hmem : Event.settled t (.failed (.protocol e)) ∈ events) :
    (u.events.Jammed ∧ ∃ expected actual, e = .unexpectedReply expected actual) ∨
      (∃ detail, e = .invalidDisplay detail) ∨ (∃ detail, e = .invalidDisplayText detail) ∨
        (∃ limit, e = .stringTooLong limit) ∧ ∃ command, u.calls[t]? = some (.request command) ∧
          command.replyKind = some .string := by
  cases hchange with
  | refused | queued => exact absurd rfl (ha _ _)
  | @foundClosed k rest hline hstage hclosed =>
    obtain ⟨-, houtcome⟩ : t = k.ticket ∧ .failed (.protocol e) = k.call.closedOutcome := by
      simpa using hmem
    cases hcall : k.call <;> rw [hcall] at houtcome <;> cases houtcome
  | @rejects a pre k rest l command e' hline hlink hcall hfrom hsubmit =>
    obtain ⟨-, rfl⟩ : t = k.ticket ∧ e = e' := by simpa [(events_of_admits hfrom).2] using hmem
    obtain ⟨kind, hpending, rfl⟩ | hdisplay | htext := submit_error hsubmit
    · refine .inl ⟨?_, _, _, rfl⟩
      by_contra hfree
      rw [h.admitted hsound hline hlink hfrom hfree] at hpending
      cases hpending
    · exact .inr (.inl hdisplay)
    · exact .inr (.inr (.inl htext))
  | @misreads a k rest l l' e' hline hlink hfrom hdecode =>
    obtain ⟨rfl, rfl⟩ : t = k.ticket ∧ e = e' := by simpa using hmem
    obtain ⟨command, kind, hcall, hkind, hpending⟩ := h.asked hsound hline hlink hfrom
    have hcalls := hsound.orderly.call_of k (hline ▸ List.mem_cons_self)
    obtain ⟨rfl, rfl⟩ := misread hpending hdecode
    exact .inr (.inr (.inr ⟨⟨_, rfl⟩, command, hcall ▸ hcalls, hkind⟩))
  | @breaks a k rest l e' hline hlink hstage herror =>
    obtain ⟨-, rfl⟩ : t = k.ticket ∧ .protocol e = e' := by simpa using hmem
    exact absurd herror.1 (by simp [LinkError.isTransport])
  | encodes hline hlink hcall hfrom =>
    simp [(events_of_admits hfrom).2] at hmem
  | _ => simp at hmem

/-- A request that ends now ends with a reply of its own shape, or it fails. -/
private theorem Armed.of_settled_request (h : u.Armed) (hsound : u.Sound) {a : Action}
    {c : Connection} {events : Trace} {t : Ticket} {command : Command} {outcome : Outcome}
    (ha : ∀ t call, a ≠ .enter t call) (hchange : u.connection.Change a c events)
    (hcalls : u.calls[t]? = some (.request command)) (hmem : Event.settled t outcome ∈ events) :
    (∃ e, outcome = .failed e) ∨
      ∃ reply, outcome = .reply reply ∧ command.replyKind = some reply.kind := by
  by_contra hnot
  obtain ⟨hok, hno⟩ := not_or.mp hnot
  rcases hchange.of_settled_ok ha hmem (fun e he ↦ hok ⟨e, he⟩) with ⟨k, hk, rfl⟩ |
    ⟨k, rest, hline, rfl, hend⟩
  · -- whoever ends the stream has asked for nothing else
    rw [(hsound.closer_gone k hk).2] at hcalls
    cases hcalls
  · have hcall : k.call = .request command :=
      Option.some.inj ((hsound.orderly.call_of k (hline ▸ List.mem_cons_self)).symm.trans hcalls)
    rcases hend with hnone | ⟨-, l, hlink, ⟨⟨command', hsend⟩, -⟩ |
      ⟨l', reply, left, hfrom, hdecode, rfl⟩⟩
    · rw [hcall] at hnone
      cases hnone
    · rw [hcall] at hsend
      cases hsend
    · obtain ⟨command', kind, hcall', hkind, hpending⟩ := h.asked hsound hline hlink hfrom
      obtain rfl : command = command' := by simpa [hcall] using hcall'
      refine hno ⟨reply, rfl, ?_⟩
      rw [hkind, ← hpending]
      exact (Codec.of_decode_reply hdecode).1

private theorem Told.change (h : u.Told) (harmed : u.Armed) (hsound : u.Sound) {a : Action}
    {c : Connection} {events : Trace} (ha : ∀ t call, a ≠ .enter t call)
    (hchange : u.connection.Change a c events) :
    Told { u with connection := c, events := u.events ++ events } := by
  refine ⟨fun t count hmem ↦ ?_, fun before t expected actual after hevents ↦ ?_,
    fun t limit hmem ↦ ?_, fun t command outcome hcalls hmem ↦ ?_⟩
  · rcases List.mem_append.mp hmem with hmem | hmem
    · exact h.never_unsolicited t count hmem
    · simpa using harmed.of_settled_fault hsound ha hchange hmem
  · rcases split_append hevents with ⟨rest, hold⟩ | ⟨pre, rfl, rfl⟩
    · exact h.unexpected_after before t expected actual rest hold
    · have hfault := harmed.of_settled_fault hsound ha hchange (t := t)
        (e := .unexpectedReply expected actual) (by simp)
      exact Trace.jammed_append.mpr (.inl (by simpa using hfault))
  · rcases List.mem_append.mp hmem with hmem | hmem
    · exact h.jammed_by t limit hmem
    · simpa using harmed.of_settled_fault hsound ha hchange hmem
  · rcases List.mem_append.mp hmem with hmem | hmem
    · exact h.answered t command outcome hcalls hmem
    · exact harmed.of_settled_request hsound ha hchange hcalls hmem

private theorem Told.call (h : u.Told) (hsound : u.Sound) (call : Call) :
    (u.step (.call call)).Told := by
  -- the calls that have ended are known to the longer list as they were to the shorter one
  have hanswered : ∀ t command outcome, (u.calls ++ [call])[t]? = some (.request command) →
      Event.settled t outcome ∈ u.events → (∃ e, outcome = .failed e) ∨
        ∃ reply, outcome = .reply reply ∧ command.replyKind = some reply.kind := by
    intro t command outcome hcalls hmem
    rw [List.getElem?_append_left (hsound.settled_gone t outcome hmem).1] at hcalls
    exact h.answered t command outcome hcalls hmem
  have hjammed : ∀ t limit,
      Event.settled t (.failed (.protocol (.stringTooLong limit))) ∈ u.events →
        ∃ command, (u.calls ++ [call])[t]? = some (.request command) ∧
          command.replyKind = some .string := by
    intro t limit hmem
    obtain ⟨command, hcalls, hkind⟩ := h.jammed_by t limit hmem
    exact ⟨command, getElem?_append_of_some hcalls _, hkind⟩
  cases hcall : call.refusal with
  | none =>
    rw [step_call_of_not_refusal hcall]
    exact ⟨h.never_unsolicited, h.unexpected_after, hjammed, hanswered⟩
  | some e =>
    rw [step_call_of_refusal hcall]
    have hfault : ∀ {t fault}, Event.settled t (.failed (.protocol fault)) ∈
        u.events ++ [.settled u.calls.length (.failed e)] →
          Event.settled t (.failed (.protocol fault)) ∈ u.events := by
      intro t fault hmem
      rcases List.mem_append.mp hmem with hmem | hmem
      · exact hmem
      · obtain ⟨-, rfl⟩ : t = u.calls.length ∧ .protocol fault = e := by simpa using hmem
        exact absurd rfl (Call.refusal_ne_protocol hcall fault)
    refine ⟨fun t count hmem ↦ h.never_unsolicited t count (hfault hmem),
      fun before t expected actual after hevents ↦ ?_, fun t limit hmem ↦ hjammed t limit
      (hfault hmem), fun t command outcome hcalls hmem ↦ ?_⟩
    · rcases split_append hevents with ⟨rest, hold⟩ | ⟨pre, -, hnew⟩
      · exact h.unexpected_after before t expected actual rest hold
      · have hmem : Event.settled t (.failed (.protocol (.unexpectedReply expected actual))) ∈
            [.settled u.calls.length (.failed e)] := by
          rw [hnew]
          simp
        obtain ⟨-, rfl⟩ : t = u.calls.length ∧ .protocol _ = e := by simpa using hmem
        exact absurd rfl (Call.refusal_ne_protocol hcall _)
    · rcases List.mem_append.mp hmem with hmem | hmem
      · exact hanswered t command outcome hcalls hmem
      · obtain ⟨-, rfl⟩ : t = u.calls.length ∧ outcome = .failed e := by simpa using hmem
        exact .inl ⟨e, rfl⟩

theorem armed_told_run (peer : String) (turns : List Turn) :
    ((fresh peer).run turns).Armed ∧ ((fresh peer).run turns).Told := by
  have h : ((fresh peer).run turns).Framed ∧ ((fresh peer).run turns).Armed ∧
      ((fresh peer).run turns).Told :=
    change_induction (P := fun u ↦ u.Framed ∧ u.Armed ∧ u.Told) peer
      ⟨framed_fresh peer, armed_fresh peer, told_fresh peer⟩
      (fun u call hsound h ↦ ⟨h.1.call hsound call, h.2.1.call call, h.2.2.call hsound call⟩)
      (fun u a c events ha hsound hchange h ↦ ⟨h.1.change hsound hchange,
        h.2.1.change hsound h.1 ha hchange, h.2.2.change h.2.1 hsound ha hchange⟩) turns
  exact h.2

/-! ## The law -/

/-- What can be relied on about the codec of a connection. -/
structure Idle (u : Usage) : Prop extends u.Told where
  /-- When nobody uses the lock and the stream is there, the codec expects nothing, unless a string
  has run past its limit. -/
  idle : (∀ k ∈ u.connection.line, k.stage = .waiting) → ¬u.events.Jammed →
    ∀ l, u.connection.link = some l → l.codec.pending = none
  /-- The codec looks for a reply only when it expects one. -/
  decodes : ∀ a l, u.connection.Decodes a l → ∃ kind, l.codec.pending = some kind
  /-- After such a string nobody has got further than the lock, as long as there is a stream. -/
  jammed_waiting : u.events.Jammed → u.connection.link ≠ none →
    ∀ k ∈ u.connection.line, k.stage = .waiting
  /-- Then whoever has a command and runs is refused, and nothing else happens. -/
  jammed_refuses : u.events.Jammed → ∀ k rest command l, u.connection.line = k :: rest →
    k.call.command? = some command → u.connection.link = some l → u.connection.aborted = false →
      u.connection.step .proceed = ({ u.connection with line := rest },
        [.locked k.ticket, .settled k.ticket (.failed (.protocol (.unexpectedReply
          s!"String reply to be read before {command}" "new command")))])
  /-- Whatever happens then, until the stream is gone no byte is written or read. -/
  jammed_frozen : u.events.Jammed → ∀ l, u.connection.link = some l → ∀ turns,
    (u.run turns).connection.link = none ∨
      (u.run turns).connection.link = some l ∧ (u.run turns).written = u.written

private theorem Armed.decodes (h : u.Armed) (hsound : u.Sound) {a : Action} {l : Link}
    (hdecodes : u.connection.Decodes a l) : ∃ kind, l.codec.pending = some kind := by
  cases hdecodes with
  | @flushed _ command k hwriter hempty hstage hcall =>
    obtain ⟨rest, hline, hlink, -⟩ := writer?_eq_some hwriter
    obtain ⟨_, kind, -, -, hpending⟩ :=
      h.asked hsound hline hlink (.sent command hcall hstage hempty)
    exact ⟨kind, hpending⟩
  | @received l k chunk hreader hchunk =>
    obtain ⟨rest, hline, hlink, hstage⟩ := reader?_eq_some hreader
    obtain ⟨_, kind, -, -, hpending⟩ := h.asked hsound hline hlink (.fed chunk hstage hchunk)
    exact ⟨kind, hpending⟩
  | @ended _ k hreader =>
    obtain ⟨rest, hline, hlink, hstage⟩ := reader?_eq_some hreader
    have hk : k ∈ u.connection.line := hline ▸ List.mem_cons_self
    obtain ⟨command, hcall⟩ := hsound.orderly.reading_request k hk hstage
    obtain ⟨command', hcommand, hpending⟩ := h.busy k hk (.inr hstage) l hlink
    obtain rfl : command = command' := by simpa [hcall, Call.command?] using hcommand
    obtain ⟨kind, hkind⟩ :=
      (Call.replyKind_of_not_refused (hsound.orderly.not_refused k hk)).2 command hcall
    exact ⟨kind, hpending.trans hkind⟩

/-- On a jammed stream only the stream can go. -/
private theorem Armed.jammed_change (h : u.Armed) (hframed : u.Framed) (hjammed : u.events.Jammed)
    {a : Action} {c : Connection} {events : Trace} {l : Link} (hlink : u.connection.link = some l)
    (hchange : u.connection.Change a c events) :
    events.written = [] ∧ (c.link = some l ∨ c.link = none) := by
  obtain ⟨hpending, hempty, hwaiting⟩ := h.jammed hjammed l hlink
  have hcloser : u.connection.closer = none := hframed.oneStream.closer_eq_none hlink
  have hhead : ∀ {k rest}, u.connection.line = k :: rest → k.stage = .waiting :=
    fun hline ↦ hwaiting _ (hline ▸ List.mem_cons_self)
  -- nobody writes or reads here
  have hbusy : ∀ {k rest l l'}, u.connection.line = k :: rest → ¬Awaits k l a l' := by
    intro k rest l l' hline hfrom
    rcases hfrom.isBusy with hstage | hstage <;> simp [hhead hline] at hstage
  cases hchange with
  | foundClosed | takesStream | deserts | abortsFree => exact ⟨by simp, .inr rfl⟩
  | breaks => exact ⟨rfl, .inr rfl⟩
  | idle | refused | queued | foundOpen | drains | abortsBusy => exact ⟨rfl, .inl hlink⟩
  | retires => exact ⟨by simp, .inl hlink⟩
  | rejects _ _ _ hfrom => cases hfrom <;> exact ⟨rfl, .inl hlink⟩
  | @encodes a pre k rest l' l'' command hline hlink' hcall hfrom hsubmit =>
    obtain rfl : l = l' := Option.some.inj (hlink.symm.trans hlink')
    rw [(submit_eq_ok hsubmit).2.1] at hpending
    cases hpending
  | accepts hline _ hstage => rcases hstage with hstage | hstage <;> simp [hhead hline] at hstage
  | sent hline _ _ hstage => simp [hhead hline] at hstage
  | replied hline _ hfrom | waits hline _ hfrom | misreads hline _ hfrom =>
    exact absurd hfrom (hbusy hline)
  | closerAccepts hk | closerShuts hk | closerWaits hk | closerEnds hk =>
    rw [hcloser] at hk
    cases hk

/-- A turn does nothing to a jammed stream, or takes it away. -/
private theorem Armed.jammed_step (h : u.Armed) (hframed : u.Framed) (hjammed : u.events.Jammed)
    {l : Link} (hlink : u.connection.link = some l) (turn : Turn) :
    (u.step turn).connection.link = none ∨
      (u.step turn).connection.link = some l ∧ (u.step turn).written = u.written := by
  have hact : ∀ a, (u.act a).connection.link = none ∨
      (u.act a).connection.link = some l ∧ (u.act a).written = u.written := by
    intro a
    obtain ⟨hwritten, hsame | hgone⟩ :=
      h.jammed_change hframed hjammed hlink (u.connection.change_step a)
    · exact .inr ⟨hsame, by rw [written_act, hwritten, List.append_nil]⟩
    · exact .inl hgone
  cases turn with
  | call call => exact hact (.enter u.calls.length call)
  | act a =>
    cases a with
    | enter => exact .inr ⟨hlink, rfl⟩
    | _ => exact hact _

private theorem step_link_none (h : u.connection.link = none) (turn : Turn) :
    (u.step turn).connection.link = none := by
  have hact : ∀ a, (u.act a).connection.link = none :=
    fun a ↦ (u.connection.change_step a).link_none h
  cases turn with
  | call call => exact hact (.enter u.calls.length call)
  | act a =>
    cases a with
    | enter => exact h
    | _ => exact hact _

theorem events_prefix_run (u : Usage) (turns : List Turn) : u.events <+: (u.run turns).events := by
  induction turns using List.reverseRecOn with
  | nil => exact List.prefix_rfl
  | append_singleton turns turn ih =>
    rw [run, List.foldl_append]
    refine ih.trans ?_
    cases turn with
    | call call => exact List.prefix_append _ _
    | act a =>
      cases a with
      | enter => exact List.prefix_rfl
      | _ => exact List.prefix_append _ _

private theorem jammed_frozen_run (peer : String) (before turns : List Turn) {l : Link}
    (hjammed : ((fresh peer).run before).events.Jammed)
    (hlink : ((fresh peer).run before).connection.link = some l) :
    let u := (fresh peer).run before
    (u.run turns).connection.link = none ∨
      (u.run turns).connection.link = some l ∧ (u.run turns).written = u.written := by
  intro u
  induction turns using List.reverseRecOn with
  | nil => exact .inr ⟨hlink, rfl⟩
  | append_singleton turns turn ih =>
    -- what the run has come to is again a usage, and jammed as before
    have hrun : (fresh peer).run (before ++ turns) = u.run turns := List.foldl_append
    have hstep : u.run (turns ++ [turn]) = (u.run turns).step turn := by
      rw [run, List.foldl_append]
      rfl
    rw [hstep]
    rcases ih with hgone | ⟨hsame, hwritten⟩
    · exact .inl (step_link_none hgone turn)
    · have harmed := hrun ▸ (armed_told_run peer (before ++ turns)).1
      have hframed := hrun ▸ framed_run peer (before ++ turns)
      have hjammed' : (u.run turns).events.Jammed := by
        obtain ⟨t, limit, hmem⟩ := hjammed
        exact ⟨t, limit, (events_prefix_run u turns).subset hmem⟩
      rw [← hwritten]
      exact harmed.jammed_step hframed hjammed' hsame turn

/-- **The law of the codec.** It holds in every usage of a connection. -/
theorem idle_run (peer : String) (turns : List Turn) : ((fresh peer).run turns).Idle := by
  have hsound := sound_run peer turns
  have hframed := framed_run peer turns
  obtain ⟨harmed, htold⟩ := armed_told_run peer turns
  refine ⟨htold, fun hwaiting hfree ↦ harmed.free hfree fun k hk ↦ ?_,
    fun a l ↦ harmed.decodes hsound, fun hjammed hlink ↦ ?_,
    fun hjammed k rest command l hline hcall hlink hopen ↦ ?_, fun hjammed l hlink turns' ↦ ?_⟩
  · simp [Caller.IsBusy, hwaiting k hk]
  · obtain ⟨l, hl⟩ := Option.ne_none_iff_exists'.mp hlink
    exact (harmed.jammed hjammed l hl).2.2
  · obtain ⟨hpending, hempty, hwaiting⟩ := harmed.jammed hjammed l hlink
    have hroom : l.outgoing.length < backlogLimit := by
      rw [hempty]
      decide
    exact step_proceed_of_pending hline (hwaiting k (hline ▸ List.mem_cons_self)) hcall hlink hopen
      hroom hpending
  · exact jammed_frozen_run peer turns turns' hjammed hlink

/-- A string of 257 bytes jams the connection, and the next task is refused. -/
example :
    ((fresh "board").run [.call (.request .identify), .call (.send (.lampOn 3)), .act .proceed,
      .act (.accept 1), .act .flush, .act (.receive (List.replicate 257 65)),
      .act .proceed]).events.drop 3 =
        [.settled 0 (.failed (.protocol (.stringTooLong 256))), .locked 1,
          .settled 1 (.failed (.protocol (.unexpectedReply
            "String reply to be read before LampOn(3)" "new command")))] := by
  decide +kernel

end Usage

end PinballBoard
