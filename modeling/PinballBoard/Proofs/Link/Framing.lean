import PinballBoard.Proofs.Link.Usage
import PinballBoard.Proofs.Wire.Frame

/-!
# No frame is torn, lost, repeated or overtaken

The board reads bytes, not frames, so a single byte too many or too few spoils all that follows. A
frame can be left unfinished in many ways: its task is given up, the stream stops taking bytes or
fails, somebody ends the stream. What is left of it is then written by whoever comes next, or never.

## One buffer, three movements

All these ways come down to one buffer, wherever the stream is: in the connection, or with the task
that ends it. `Connection.unsent?` looks at this buffer, and `Change.movement` says that a step does
one of three things to it. It puts a frame behind the bytes, it takes bytes off their front, or it
loses the buffer for ever. So whatever has been taken, followed by what the buffer holds, is the
frames of all commands that the codec has accepted (`Usage.Framed`).

## The law

`Usage.FramesInOrder` collects what a maintainer expects of the wire, and `framesInOrder_run` proves
it of every usage. A call that has ended well is told at the very moment of its end: its frame and
all before it have been taken when the event is noted, and not only later.
-/

namespace PinballBoard

/-- The task is between its frame and the end of its call. -/
def Caller.IsBusy (k : Caller) : Prop := k.stage = .writing ∨ k.stage = .reading

theorem Caller.IsBusy.stage_ne {k : Caller} (h : k.IsBusy) : k.stage ≠ .waiting := by
  rcases h with hstage | hstage <;> simp [hstage]

theorem Caller.IsBusy.owesReply {k : Caller} {command : Command} (h : k.IsBusy)
    (hcall : k.call = .request command) : k.owesReply = true := by
  rcases h with hstage | hstage <;> simp [Caller.owesReply, hcall, hstage]

/-! ## The buffer in front of the stream -/

namespace Connection

/-- The bytes that the codec has made and the stream has not taken, as long as there is a stream. -/
def unsent? (c : Connection) : Option Bytes :=
  match c.link with
  | some l => some l.outgoing
  | none => c.closer.map (·.link.outgoing)

/-- What a step does to the bytes that wait for the stream. -/
inductive Movement : Option Bytes → Trace → Option Bytes → Prop where
  | stays (b : Option Bytes) {events : Trace} (hwritten : events.written = [])
      (hencoded : events.encoded = []) : Movement b events b
  | lost (b : Option Bytes) {events : Trace} (hwritten : events.written = [])
      (hencoded : events.encoded = []) : Movement b events none
  | taken (b : Bytes) (count : Nat) :
      Movement (some b) [.accepted (b.take count)] (some (b.drop count))
  | grows (b : Bytes) {events : Trace} {t : Ticket} {command : Command}
      (hframe : command.HasFrame) (hwritten : events.written = [])
      (hencoded : events.encoded = [(t, command)]) :
      Movement (some b) events (some (b ++ command.frame))

variable {c c' : Connection} {a : Action} {events : Trace}

theorem unsent?_of_link {l : Link} (h : c.link = some l) : c.unsent? = some l.outgoing := by
  rw [unsent?, h]

theorem unsent?_of_no_link (h : c.link = none) :
    c.unsent? = c.closer.map (·.link.outgoing) := by
  rw [unsent?, h]

theorem unsent?_of_closer {k : Closer} (h : c.link = none) (hk : c.closer = some k) :
    c.unsent? = some k.link.outgoing := by
  rw [unsent?_of_no_link h, hk, Option.map_some]

/-- The codec accepts a command that has a frame while no reply is outstanding. Then the reply to
the command is, and the frame is put behind the bytes that wait. -/
theorem submit_eq_ok {l l' : Link} {command : Command} (h : l.submit command = .ok l') :
    command.HasFrame ∧ l.codec.pending = none ∧
      l' = { l with
        codec := ⟨command.replyKind⟩
        outgoing := l.outgoing ++ command.frame } := by
  unfold Link.submit Codec.encode at h
  split at h
  · cases h
  · rename_i hpending
    cases hencode : command.encode with
    | error e =>
      rw [hencode] at h
      cases h
    | ok frame =>
      rw [hencode] at h
      cases h
      exact ⟨Command.hasFrame_of_encode hencode, hpending, by rw [Command.frame_of_encode hencode]⟩

/-- There is one stream: the connection and the task that ends it never have one each. -/
def OneStream (c : Connection) : Prop := c.link = none ∨ c.closer = none

theorem Change.oneStream (h : Change c a c' events) (hone : c.OneStream) : c'.OneStream := by
  cases h with
  | retires =>
    rcases hone with hone | hone
    · exact .inl hone
    · exact .inr (by simp [hone])
  | _ => simp_all [OneStream]

theorem OneStream.closer_eq_none {l : Link} (h : c.OneStream) (hlink : c.link = some l) :
    c.closer = none :=
  h.resolve_left (by simp [hlink])

theorem OneStream.link_eq_none {k : Closer} (h : c.OneStream) (hcloser : c.closer = some k) :
    c.link = none :=
  h.resolve_right (by simp [hcloser])

/-- A step that neither writes nor encodes keeps the buffer or gives it up. -/
private theorem movement_of_silent (hwritten : events.written = []) (hencoded : events.encoded = [])
    (h : c'.unsent? = c.unsent? ∨ c'.unsent? = none) : Movement c.unsent? events c'.unsent? := by
  rcases h with h | h
  · rw [h]
    exact .stays _ hwritten hencoded
  · rw [h]
    exact .lost _ hwritten hencoded

section Heads

variable {caller : Caller} {l l' : Link}

theorem Admits.not_isBusy {pre : List Event} (h : Admits c caller l a pre) : ¬caller.IsBusy := by
  cases h with
  | atOnce hstage => simp [Caller.IsBusy, hstage]
  | drained hstage => simp [Caller.IsBusy, hstage]

theorem Awaits.isBusy (h : Awaits caller l a l') : caller.IsBusy := by
  cases h with
  | sent _ _ hstage => exact .inl hstage
  | fed _ hstage => exact .inr hstage
  | ended hstage => exact .inr hstage

theorem Awaits.codec_eq (h : Awaits caller l a l') : l'.codec = l.codec := by
  cases h with
  | sent | ended => rfl
  | fed chunk => exact l.received_codec chunk

theorem Awaits.outgoing_eq (h : Awaits caller l a l') : l'.outgoing = l.outgoing := by
  cases h with
  | sent | ended => rfl
  | fed chunk => exact l.received_outgoing chunk

end Heads

/-- **What one step does to the buffer in front of the stream.** -/
theorem Change.movement (h : Change c a c' events) (hone : c.OneStream) :
    Movement c.unsent? events c'.unsent? := by
  cases h with
  | @encodes a pre caller rest l l' command hline hlink hcall hfrom hsubmit =>
    obtain ⟨hframe, -, rfl⟩ := submit_eq_ok hsubmit
    obtain ⟨hwritten, hencoded⟩ : Trace.written pre = [] ∧ Trace.encoded pre = [] := by
      cases hfrom <;> exact ⟨rfl, rfl⟩
    rw [unsent?_of_link hlink, unsent?_of_link rfl]
    exact .grows (t := caller.ticket) _ hframe (by simp [hwritten]) (by simp [hencoded])
  | @accepts caller rest l count hline hlink hstage hcount =>
    rw [unsent?_of_link hlink]
    exact .taken _ count
  | @closerAccepts closer count hk hstage hcount =>
    simp only [unsent?, hone.link_eq_none hk, hk, Option.map_some]
    exact .taken _ count
  | @takesStream caller rest l hline hstage hlink hopen hcall =>
    rw [unsent?_of_link hlink]
    exact .stays _ rfl rfl
  | idle | refused | queued | foundOpen | drains | sent | abortsBusy => exact .stays _ rfl rfl
  | @rejects a pre caller rest l command e hline hlink hcall hfrom hsubmit =>
    cases hfrom <;> exact .stays _ rfl rfl
  | @replied a caller rest l l' reply left hline hlink hfrom hdecode =>
    rw [unsent?_of_link hlink, ← hfrom.outgoing_eq]
    exact .stays _ rfl rfl
  | @waits a caller rest l l' hline hlink hfrom hdecode =>
    rw [unsent?_of_link hlink, ← hfrom.outgoing_eq]
    exact .stays _ rfl rfl
  | @misreads a caller rest l l' e hline hlink hfrom hdecode =>
    rw [unsent?_of_link hlink, ← hfrom.outgoing_eq]
    exact .stays _ rfl rfl
  | foundClosed | abortsFree =>
    refine movement_of_silent (by simp) (by simp) ?_
    cases hlink : c.link with
    | none => exact .inl (by simp [unsent?, hlink])
    | some l => exact .inr (by simp [unsent?, hone.closer_eq_none hlink])
  | @breaks a caller rest l e hline hlink hstage herror =>
    refine movement_of_silent rfl rfl (.inr ?_)
    rw [unsent?_of_no_link rfl, hone.closer_eq_none hlink, Option.map_none]
  | deserts | retires =>
    refine movement_of_silent (by simp) (by simp) ?_
    cases hlink : c.link with
    | some l => simp [unsent?, hlink, hone.closer_eq_none hlink]
    | none =>
      rcases hk : c.closer with _ | k
      · simp [unsent?, hlink, hk]
      · by_cases hticket : k.ticket = ‹Ticket› <;>
          simp [unsent?, hlink, hk, Option.filter, hticket]
  | @closerShuts a closer hk hstage hflush =>
    exact movement_of_silent rfl rfl (.inl (by simp [unsent?, hone.link_eq_none hk, hk]))
  | @closerWaits closer ms hk hpatience =>
    exact movement_of_silent rfl rfl (.inl (by simp [unsent?, hone.link_eq_none hk, hk]))
  | @closerEnds a closer hk hstage =>
    exact movement_of_silent rfl rfl (.inr (by simp [unsent?, hone.link_eq_none hk]))

/-- A task that reads has nothing left to write. -/
def Flushed (c : Connection) : Prop :=
  ∀ k ∈ c.line, k.stage = .reading → ∀ l, c.link = some l → l.outgoing = []

theorem Change.flushed (h : Change c a c' events) (htail : ∀ k ∈ c.line.tail, k.stage = .waiting)
    (hc : c.Flushed) : c'.Flushed := by
  -- whoever stands behind the head waits, and does not read
  have hrest : ∀ {caller rest}, c.line = caller :: rest → ∀ k ∈ rest, k.stage ≠ .reading := by
    intro caller rest hline k hk
    rw [hline] at htail
    rw [htail k hk]
    exact fun heq ↦ nomatch heq
  cases h with
  | idle | refused | abortsBusy | closerAccepts | closerShuts | closerWaits | closerEnds => exact hc
  | queued =>
    intro k hk hstage
    rcases List.mem_append.mp hk with hk | hk
    · exact hc k hk hstage
    · rw [List.mem_singleton.mp hk] at hstage
      cases hstage
  | takesStream | foundClosed | breaks | deserts | abortsFree =>
    exact fun k hk hstage l hl ↦ nomatch hl
  | retires => exact fun k hk ↦ hc k (List.mem_of_mem_filter hk)
  | foundOpen hline | rejects hline | sent hline | replied hline | misreads hline =>
    exact fun k hk hstage ↦ absurd hstage (hrest hline k hk)
  | drains hline | encodes hline =>
    intro k hk hstage
    rcases List.mem_cons.mp hk with rfl | hk
    · cases hstage
    · exact absurd hstage (hrest hline k hk)
  | @accepts caller rest l count hline hlink hstage hcount =>
    intro k hk hreading l' hl'
    cases hl'
    rw [Link.taken, hc k hk hreading l hlink, List.drop_nil]
  | @waits a caller rest l l' hline hlink hfrom hdecode =>
    intro k hk hreading l'' hl'
    cases hl'
    rcases List.mem_cons.mp hk with rfl | hk
    · rw [hfrom.outgoing_eq]
      have hhead : caller ∈ c.line := hline ▸ List.mem_cons_self
      cases hfrom with
      | sent command hcall hstage hempty => exact hempty
      | fed chunk hstage => exact hc caller hhead hstage l hlink
      | ended hstage => exact hc caller hhead hstage l hlink
    · exact absurd hreading (hrest hline k hk)

end Connection

/-! ## The invariant of usages -/

namespace Trace

/-- The frames of the commands that the codec has accepted, one behind the other. -/
def frames (t : Trace) : Bytes := Command.frames (t.encoded.map Prod.snd)

@[simp] theorem frames_append (t s : Trace) : frames (t ++ s) = frames t ++ frames s := by
  simp [frames]

theorem frames_of_encoded_nil {t : Trace} (h : t.encoded = []) : t.frames = [] := by
  rw [frames, h]
  rfl

theorem frames_of_encoded_single {t : Trace} {k : Ticket} {command : Command}
    (h : t.encoded = [(k, command)]) : t.frames = command.frame := by
  simp [frames, h, Command.frames]

/-- At every moment the stream has taken a beginning of the frames. -/
def InOrder (t : Trace) : Prop := ∀ s : Trace, s <+: t → s.written <+: s.frames

theorem inOrder_nil : InOrder [] := by
  intro s hs
  rw [List.prefix_nil.mp hs]
  exact List.prefix_rfl

theorem InOrder.append {t events : Trace} (h : t.InOrder)
    (hevents : ∀ pre : Trace, pre <+: events → written (t ++ pre) <+: frames (t ++ pre)) :
    InOrder (t ++ events) := by
  intro s hs
  rcases List.prefix_or_prefix_of_prefix hs (List.prefix_append t events) with hin | hout
  · exact h s hin
  · obtain ⟨pre, rfl⟩ := hout
    exact hevents pre ((List.prefix_append_right_inj t).mp hs)

theorem InOrder.append_silent {t events : Trace} (h : t.InOrder) (hwritten : events.written = []) :
    InOrder (t ++ events) := by
  refine h.append fun pre hpre ↦ ?_
  obtain ⟨post, rfl⟩ := hpre
  rw [written_append, List.append_eq_nil_iff] at hwritten
  rw [written_append, hwritten.1, List.append_nil, frames_append]
  exact (h t List.prefix_rfl).trans (List.prefix_append _ _)

end Trace

namespace Usage

variable {u : Usage}

/-- The frames of the commands that the codec has accepted, one behind the other. -/
def frames (u : Usage) : Bytes := u.events.frames

/-- What the stream has taken and what waits for it are the frames of all accepted commands. -/
structure Framed (u : Usage) : Prop where
  oneStream : u.connection.OneStream
  flushed : u.connection.Flushed
  hasFrame : ∀ p ∈ u.encoded, p.2.HasFrame
  unsent : ∀ b, u.connection.unsent? = some b → u.written ++ b = u.frames
  inOrder : u.events.InOrder

theorem Sound.request_of_awaits (h : u.Sound) {a : Action} {caller : Caller} {rest : List Caller}
    {l l' : Link} (hline : u.connection.line = caller :: rest)
    (hfrom : Connection.Awaits caller l a l') : ∃ command, caller.call = .request command := by
  have hk : caller ∈ u.connection.line := hline ▸ List.mem_cons_self
  cases hfrom with
  | sent command hcall => exact ⟨command, hcall⟩
  | fed _ hstage => exact h.orderly.reading_request caller hk hstage
  | ended hstage => exact h.orderly.reading_request caller hk hstage

theorem Sound.send_of_not_owes (h : u.Sound) {k : Caller} (hk : k ∈ u.connection.line)
    (hbusy : k.IsBusy) (howes : k.owesReply = false) : ∃ command, k.call = .send command := by
  obtain ⟨_, command, hcommand, -⟩ := h.orderly.encoded_last k hk hbusy
  cases hcall : k.call with
  | send command' => exact ⟨command', rfl⟩
  | request command' =>
    rw [hbusy.owesReply hcall] at howes
    cases howes
  | probe | close => simp [hcall, Call.command?] at hcommand

/-- A request that looks for its reply has nothing left to write. -/
theorem Framed.outgoing_of_awaits {u : Usage} (h : u.Framed) {a : Action} {caller : Caller}
    {rest : List Caller} {l l' : Link} (hline : u.connection.line = caller :: rest)
    (hlink : u.connection.link = some l) (hfrom : Connection.Awaits caller l a l') :
    l.outgoing = [] := by
  have hk : caller ∈ u.connection.line := hline ▸ List.mem_cons_self
  cases hfrom with
  | sent _ _ _ hempty => exact hempty
  | fed _ hstage => exact h.flushed caller hk hstage l hlink
  | ended hstage => exact h.flushed caller hk hstage l hlink

theorem framed_fresh (peer : String) : (fresh peer).Framed where
  oneStream := .inr rfl
  flushed := by simp [Connection.Flushed, fresh, Connection.fresh]
  hasFrame := by simp [encoded, fresh]
  unsent b hb := by
    cases hb
    rfl
  inOrder := Trace.inOrder_nil

theorem Framed.call (h : u.Framed) (hsound : u.Sound) (call : Call) :
    (u.step (.call call)).Framed := by
  cases hcall : call.refusal with
  | none =>
    have hqueued : Connection.Change u.connection (.enter u.calls.length call) _ _ := .queued hcall
    rw [step_call_of_not_refusal hcall]
    exact ⟨h.oneStream, hqueued.flushed hsound.orderly.tail_waiting h.flushed, h.hasFrame, h.unsent,
      h.inOrder⟩
  | some e =>
    rw [step_call_of_refusal hcall]
    refine ⟨h.oneStream, h.flushed, ?_, ?_, h.inOrder.append_silent rfl⟩
    · simpa [encoded] using h.hasFrame
    · simpa [written, frames, Trace.frames] using h.unsent

theorem Framed.change {a : Action} {c : Connection} {events : Trace} (h : u.Framed)
    (hsound : u.Sound) (hchange : u.connection.Change a c events) :
    Framed { u with connection := c, events := u.events ++ events } := by
  have hone := hchange.oneStream h.oneStream
  have hflushed := hchange.flushed hsound.orderly.tail_waiting h.flushed
  have hmovement := hchange.movement h.oneStream
  have hunsent := h.unsent
  generalize hafter : c.unsent? = after at hmovement
  generalize u.connection.unsent? = before at hmovement hunsent
  have hwrite : Trace.written (u.events ++ events) = u.written ++ events.written :=
    Trace.written_append _ _
  have hframes : Trace.frames (u.events ++ events) = u.frames ++ events.frames :=
    Trace.frames_append _ _
  have hencode : Trace.encoded (u.events ++ events) = u.encoded ++ events.encoded :=
    Trace.encoded_append _ _
  cases hmovement with
  | stays b hwritten hencoded =>
    refine ⟨hone, hflushed, ?_, fun b hb ↦ ?_, h.inOrder.append_silent hwritten⟩
    · rw [encoded, hencode, hencoded, List.append_nil]
      exact h.hasFrame
    · rw [written, frames, hwrite, hframes, hwritten, Trace.frames_of_encoded_nil hencoded,
        List.append_nil, List.append_nil]
      exact hunsent b (hafter ▸ hb)
  | lost b hwritten hencoded =>
    refine ⟨hone, hflushed, ?_, fun b hb ↦ ?_, h.inOrder.append_silent hwritten⟩
    · rw [encoded, hencode, hencoded, List.append_nil]
      exact h.hasFrame
    · rw [hafter] at hb
      cases hb
  | taken b count =>
    have hall := hunsent b rfl
    refine ⟨hone, hflushed, ?_, fun b' hb ↦ ?_, h.inOrder.append fun pre hpre ↦ ?_⟩
    · rw [encoded, hencode]
      simpa using h.hasFrame
    · obtain rfl : b.drop count = b' := by simpa [hafter] using hb
      rw [written, frames, hwrite, hframes, Trace.frames_of_encoded_nil rfl, ← hall]
      simp
    · -- the new moments are the one before the write and the one after it
      rcases List.prefix_cons_iff.mp hpre with rfl | ⟨pre, rfl, hnil⟩
      · rw [List.append_nil]
        exact h.inOrder u.events List.prefix_rfl
      · rw [List.prefix_nil.mp hnil, hwrite, hframes, Trace.frames_of_encoded_nil rfl, ← hall]
        simpa using List.take_prefix count b
  | @grows b _ t command hframe hwritten hencoded =>
    have hall := hunsent b rfl
    refine ⟨hone, hflushed, ?_, fun b' hb ↦ ?_, h.inOrder.append_silent hwritten⟩
    · rw [encoded, hencode, hencoded]
      intro p hp
      rcases List.mem_append.mp hp with hp | hp
      · exact h.hasFrame p hp
      · rw [List.mem_singleton.mp hp]
        exact hframe
    · obtain rfl : b ++ command.frame = b' := by simpa [hafter] using hb
      rw [written, frames, hwrite, hframes, hwritten, Trace.frames_of_encoded_single hencoded,
        ← hall, List.append_nil, List.append_assoc]

theorem framed_run (peer : String) (turns : List Turn) : ((fresh peer).run turns).Framed :=
  change_induction peer (framed_fresh peer) (fun _ call hsound h ↦ h.call hsound call)
    (fun _ _ _ _ _ hsound hchange h ↦ h.change hsound hchange) turns

end Usage

/-! ## How calls end -/

/-- The failures of calls that are not made: the wrong kind of call, no stream, or a command that
the codec refuses. -/
inductive LinkError.IsRefusal : LinkError → Prop where
  | replyExpected (command : String) : IsRefusal (.replyExpected command)
  | noReplyExpected (command : String) : IsRefusal (.noReplyExpected command)
  | notConnected : IsRefusal .notConnected
  | encoder {codec : Codec} {command : Command} {e : ProtocolError}
      (h : codec.encode command = .error e) : IsRefusal (.protocol e)

theorem Codec.decode_ne_encode {codec codec' : Codec} {received : Bytes} {command : Command}
    {e : ProtocolError} (h : codec.encode command = .error e) :
    codec'.decode received ≠ .failed e := by
  intro hdecode
  have hdecode := decode_failed hdecode
  rw [encode] at h
  split at h
  · cases h
    simp at hdecode
  · cases hencode : command.encode with
    | ok frame =>
      rw [hencode] at h
      cases h
    | error e' =>
      rw [hencode] at h
      cases h
      obtain ⟨detail, rfl⟩ | ⟨detail, rfl⟩ := Command.encode_error hencode <;> simp at hdecode

namespace Connection

variable {c c' : Connection} {a : Action} {events : Trace} {t : Ticket}

theorem Change.of_encoded {p : Ticket × Command} (h : Change c a c' events)
    (hmem : p ∈ events.encoded) : ∃ k ∈ c.line, k.ticket = p.1 := by
  cases h with
  | @encodes a pre caller rest l l' command hline hlink hcall hfrom hsubmit =>
    have hencoded := (Usage.events_of_admits hfrom).1
    obtain rfl : p = (caller.ticket, command) := by simpa [hencoded] using hmem
    exact ⟨caller, hline ▸ List.mem_cons_self, rfl⟩
  | @rejects a pre caller rest l command e hline hlink hcall hfrom hsubmit =>
    have hencoded := (Usage.events_of_admits hfrom).1
    simp [hencoded] at hmem
  | _ => simp at hmem

/-- A call ends well when the stream has been ended for it, or at the head of the line. There it has
no command, or has nothing left to write and waits for no reply, or has found its reply. -/
theorem Change.of_settled_ok {outcome : Outcome} (h : Change c a c' events)
    (ha : ∀ t call, a ≠ .enter t call) (hmem : Event.settled t outcome ∈ events)
    (hok : ∀ e, outcome ≠ .failed e) :
    (∃ k, c.closer = some k ∧ k.ticket = t) ∨
      ∃ k rest, c.line = k :: rest ∧ k.ticket = t ∧ (k.call.command? = none ∨
        events = [.settled t outcome] ∧ ∃ l, c.link = some l ∧
          ((∃ command, k.call = .send command) ∧ k.stage = .writing ∧ l.outgoing = [] ∨
            ∃ l' reply left, Awaits k l a l' ∧ l'.codec.decode l'.incoming = .reply reply left ∧
              outcome = .reply reply)) := by
  cases h with
  | refused | queued => exact absurd rfl (ha _ _)
  | @foundClosed caller rest hline hstage hclosed =>
    obtain ⟨rfl, rfl⟩ : t = caller.ticket ∧ outcome = caller.call.closedOutcome := by
      simpa using hmem
    refine .inr ⟨caller, rest, hline, rfl, .inl ?_⟩
    cases hcall : caller.call with
    | probe | close => rfl
    | send | request => exact absurd (by rw [hcall]; rfl) (hok .notConnected)
  | @foundOpen caller rest l hline hstage hlink hopen hcall =>
    obtain ⟨rfl, -⟩ : t = caller.ticket ∧ outcome = .isOpen true := by simpa using hmem
    exact .inr ⟨caller, rest, hline, rfl, .inl (by rw [hcall]; rfl)⟩
  | @sent caller rest l command hline hlink hcall hstage hempty =>
    obtain ⟨rfl, rfl⟩ : t = caller.ticket ∧ outcome = .done := by simpa using hmem
    exact .inr ⟨caller, rest, hline, rfl, .inr ⟨rfl, l, hlink,
      .inl ⟨⟨command, hcall⟩, hstage, hempty⟩⟩⟩
  | @replied a caller rest l l' reply left hline hlink hfrom hdecode =>
    obtain ⟨rfl, rfl⟩ : t = caller.ticket ∧ outcome = .reply reply := by simpa using hmem
    exact .inr ⟨caller, rest, hline, rfl, .inr ⟨rfl, l, hlink,
      .inr ⟨l', reply, left, hfrom, hdecode, rfl⟩⟩⟩
  | @rejects a pre caller rest l command e hline hlink hcall hfrom hsubmit =>
    have hsettled := (Usage.events_of_admits hfrom).2
    obtain ⟨-, rfl⟩ : t = caller.ticket ∧ outcome = .failed (.protocol e) := by
      simpa [hsettled] using hmem
    exact absurd rfl (hok _)
  | @misreads a caller rest l l' e hline hlink hfrom hdecode =>
    obtain ⟨-, rfl⟩ : t = caller.ticket ∧ outcome = .failed (.protocol e) := by simpa using hmem
    exact absurd rfl (hok _)
  | @breaks a caller rest l e hline hlink hstage herror =>
    obtain ⟨-, rfl⟩ : t = caller.ticket ∧ outcome = .failed e := by simpa using hmem
    exact absurd rfl (hok _)
  | @closerEnds a closer hcloser hstage =>
    obtain ⟨rfl, -⟩ : t = closer.ticket ∧ outcome = .done := by simpa using hmem
    exact .inl ⟨closer, hcloser, rfl⟩
  | encodes hline hlink hcall hfrom =>
    have hsettled := (Usage.events_of_admits hfrom).2
    simp [hsettled] at hmem
  | _ => simp at hmem

/-- A call that is not made had not got beyond draining. -/
theorem Change.of_settled_refusal {e : LinkError} (h : Change c a c' events)
    (ha : ∀ t call, a ≠ .enter t call) (hmem : Event.settled t (.failed e) ∈ events)
    (he : e.IsRefusal) :
    events.encoded = [] ∧
      ∃ k ∈ c.line, k.ticket = t ∧ (k.stage = .waiting ∨ k.stage = .draining) := by
  have hhead : ∀ {k rest}, c.line = k :: rest → k ∈ c.line :=
    fun hline ↦ hline ▸ List.mem_cons_self
  cases h with
  | refused | queued => exact absurd rfl (ha _ _)
  | @foundClosed caller rest hline hstage hclosed =>
    obtain ⟨rfl, -⟩ : t = caller.ticket ∧ .failed e = caller.call.closedOutcome := by
      simpa using hmem
    exact ⟨by simp, caller, hhead hline, rfl, .inl hstage⟩
  | @rejects a pre caller rest l command e' hline hlink hcall hfrom hsubmit =>
    obtain ⟨hencoded, hsettled⟩ := Usage.events_of_admits hfrom
    obtain ⟨rfl, -⟩ : t = caller.ticket ∧ e = .protocol e' := by simpa [hsettled] using hmem
    refine ⟨by simp [hencoded], caller, hhead hline, rfl, ?_⟩
    cases hfrom with
    | atOnce hstage => exact .inl hstage
    | drained hstage => exact .inr hstage
  | @misreads a caller rest l l' e' hline hlink hfrom hdecode =>
    obtain ⟨-, rfl⟩ : t = caller.ticket ∧ e = .protocol e' := by simpa using hmem
    cases he with
    | encoder hencode => exact absurd hdecode (Codec.decode_ne_encode hencode)
  | @breaks a caller rest l e' hline hlink hstage herror =>
    obtain ⟨-, rfl⟩ : t = caller.ticket ∧ e = e' := by simpa using hmem
    cases he with
    | notConnected => exact absurd rfl herror.2
    | _ => exact absurd herror.1 (by simp [LinkError.isTransport])
  | encodes hline hlink hcall hfrom =>
    have hsettled := (Usage.events_of_admits hfrom).2
    simp [hsettled] at hmem
  | _ => simp at hmem

end Connection

/-! ## The law -/

namespace Usage

variable {u : Usage}

/-- What the ends of calls say about the wire. -/
structure Settled (u : Usage) : Prop where
  /-- When a call ends well, the stream has taken its frame and all before it. -/
  ended_well : ∀ (before : Trace) t outcome after command,
    u.events = before ++ .settled t outcome :: after → (∀ e, outcome ≠ .failed e) →
      u.calls[t]?.bind Call.command? = some command →
      (∃ earlier, before.encoded = earlier ++ [(t, command)]) ∧ before.written = before.frames
  /-- Of a call that is refused nothing is accepted. -/
  refused : ∀ t e, Event.settled t (.failed e) ∈ u.events → e.IsRefusal → ∀ p ∈ u.encoded, p.1 ≠ t

/-- What the board and the callers can rely on. -/
structure FramesInOrder (u : Usage) : Prop extends u.Settled where
  /-- At every moment the stream has taken a beginning of the frames of the accepted commands. -/
  taken : ∀ t : Trace, t <+: u.events → t.written <+: t.frames
  /-- What is accepted can be sent, and somebody has asked for it. -/
  accepted : ∀ p ∈ u.encoded, p.2.HasFrame ∧
    ∃ call, u.calls[p.1]? = some call ∧ call.command? = some p.2
  /-- Commands are accepted in the order in which their calls get the lock. -/
  accepted_order : (u.encoded.map Prod.fst).Sublist u.locked
  /-- Calls get the lock once, and in the order in which they are made. -/
  locked_order : u.locked.Pairwise (· < ·)
  /-- When the stream has passed on all that a closing call had to write, it has taken all. -/
  flushed : ∀ t, (u.connection.step (.closerFlush t)).2 = [.shutdown] → u.written = u.frames

private theorem settled_fresh (peer : String) : (fresh peer).Settled := by
  refine ⟨fun before t outcome after command hevents ↦ ?_, fun t e hmem ↦ ?_⟩
  · exact absurd hevents.symm (by simp [fresh])
  · exact absurd hmem (by simp [fresh])

theorem split_append {t events before after : Trace} {e : Event}
    (h : t ++ events = before ++ e :: after) :
    (∃ rest, t = before ++ e :: rest) ∨
      ∃ pre, before = t ++ pre ∧ events = pre ++ e :: after := by
  rcases List.append_eq_append_iff.mp h with ⟨pre, hbefore, hevents⟩ | ⟨post, ht, hafter⟩
  · exact .inr ⟨pre, hbefore, hevents⟩
  · cases post with
    | nil => exact .inr ⟨[], by simpa using ht.symm, by simpa using hafter.symm⟩
    | cons e' rest =>
      obtain ⟨rfl, -⟩ := List.cons.inj hafter
      exact .inl ⟨rest, ht⟩

private theorem Settled.change {a : Action} {c : Connection} {events : Trace} (h : u.Settled)
    (ha : ∀ t call, a ≠ .enter t call) (hsound : u.Sound) (hframed : u.Framed)
    (hchange : u.connection.Change a c events) :
    Settled { u with connection := c, events := u.events ++ events } := by
  have horderly := hsound.orderly
  refine ⟨fun before t outcome after command hevents hok hcommand ↦ ?_,
    fun t e hmem he p hp ↦ ?_⟩
  · rcases split_append hevents with ⟨rest, hold⟩ | ⟨pre, rfl, rfl⟩
    · exact h.ended_well before t outcome rest command hold hok hcommand
    have hmem : Event.settled t outcome ∈ pre ++ .settled t outcome :: after := by simp
    rcases hchange.of_settled_ok ha hmem hok with ⟨k, hk, rfl⟩ |
      ⟨k, rest, hline, rfl, hnone | hbusy⟩
    · -- whoever ends the stream has no command
      rw [(hsound.closer_gone k hk).2] at hcommand
      cases hcommand
    · rw [horderly.call_of k (hline ▸ List.mem_cons_self), Option.bind_some, hnone] at hcommand
      cases hcommand
    · obtain ⟨hevents, l, hlink, hend⟩ := hbusy
      have hk : k ∈ u.connection.line := hline ▸ List.mem_cons_self
      obtain ⟨rfl, -⟩ : pre = [] ∧ after = [] := by
        cases pre with
        | nil => exact ⟨rfl, by simpa using hevents⟩
        | cons e pre => simp at hevents
      -- it has nothing left to write, so all that has been accepted has been taken
      obtain ⟨hstage, hempty⟩ : k.IsBusy ∧ l.outgoing = [] := by
        rcases hend with ⟨-, hstage, hempty⟩ | ⟨l', reply, left, hfrom, -⟩
        · exact ⟨.inl hstage, hempty⟩
        · exact ⟨hfrom.isBusy, hframed.outgoing_of_awaits hline hlink hfrom⟩
      obtain ⟨earlier, command', hcommand', hlast⟩ := horderly.encoded_last k hk hstage
      rw [horderly.call_of k hk, Option.bind_some, hcommand'] at hcommand
      cases hcommand
      have hall := hframed.unsent l.outgoing (Connection.unsent?_of_link hlink)
      rw [hempty, List.append_nil] at hall
      rw [List.append_nil]
      exact ⟨⟨earlier, hlast⟩, hall⟩
  · have hp : p ∈ u.encoded ∨ p ∈ events.encoded := by
      rwa [encoded, Trace.encoded_append, List.mem_append] at hp
    rcases List.mem_append.mp hmem with hmem | hmem
    · rcases hp with hp | hp
      · exact h.refused t e hmem he p hp
      · obtain ⟨k, hk, hticket⟩ := hchange.of_encoded hp
        exact hticket ▸ (hsound.settled_gone t _ hmem).2 k hk
    · -- it is refused now, before the codec has accepted anything of it
      obtain ⟨hencoded, k, hk, rfl, hstage⟩ := hchange.of_settled_refusal ha hmem he
      have hp : p ∈ u.encoded := hp.resolve_right (by simp [hencoded])
      rcases hstage with hstage | hstage
      · exact Nat.ne_of_lt (horderly.not_encoded_of_waiting hk hstage hp)
      · exact Nat.ne_of_lt (horderly.not_encoded_of_draining hk hstage hp)

private theorem Settled.call (h : u.Settled) (hsound : u.Sound) (call : Call) :
    (u.step (.call call)).Settled := by
  -- the calls that have ended are known to the longer list as they were to the shorter one
  have hended : ∀ (before : Trace) t outcome after command,
      u.events = before ++ .settled t outcome :: after → (∀ e, outcome ≠ .failed e) →
      (u.calls ++ [call])[t]?.bind Call.command? = some command →
      (∃ earlier, before.encoded = earlier ++ [(t, command)]) ∧
        before.written = before.frames := by
    intro before t outcome after command hevents hok hcommand
    have hgone := hsound.settled_gone t outcome (by simp [hevents])
    rw [List.getElem?_append_left hgone.1] at hcommand
    exact h.ended_well before t outcome after command hevents hok hcommand
  cases hcall : call.refusal with
  | none =>
    rw [step_call_of_not_refusal hcall]
    exact ⟨hended, h.refused⟩
  | some e =>
    rw [step_call_of_refusal hcall]
    refine ⟨fun before t outcome after command hevents hok hcommand ↦ ?_,
      fun t e' hmem he p hp ↦ ?_⟩
    · rcases split_append hevents with ⟨rest, hold⟩ | ⟨pre, rfl, hnew⟩
      · exact hended before t outcome rest command hold hok hcommand
      · have hmem : Event.settled t outcome ∈ [.settled u.calls.length (.failed e)] := by
          rw [hnew]
          simp
        obtain ⟨-, rfl⟩ : t = u.calls.length ∧ outcome = .failed e := by simpa using hmem
        exact absurd rfl (hok e)
    · have hp : p ∈ u.encoded := by simpa [encoded] using hp
      rcases List.mem_append.mp hmem with hmem | hmem
      · exact h.refused t e' hmem he p hp
      · obtain ⟨rfl, -⟩ : t = u.calls.length ∧ e' = e := by simpa using hmem
        exact Nat.ne_of_lt (hsound.orderly.encoded_bound hp)

theorem settled_run (peer : String) (turns : List Turn) :
    ((fresh peer).run turns).Settled := by
  have h : ((fresh peer).run turns).Framed ∧ ((fresh peer).run turns).Settled :=
    change_induction (P := fun u ↦ u.Framed ∧ u.Settled) peer
      ⟨framed_fresh peer, settled_fresh peer⟩
      (fun u call hsound h ↦ ⟨h.1.call hsound call, h.2.call hsound call⟩)
      (fun u a c events ha hsound hchange h ↦
        ⟨h.1.change hsound hchange, h.2.change ha hsound h.1 hchange⟩) turns
  exact h.2

/-- When a flush is followed by the shutdown, nothing has been left to write. -/
private theorem unsent?_of_shutdown {c c' : Connection} {t : Ticket}
    (h : c.Change (.closerFlush t) c' [.shutdown]) (hone : c.OneStream) : c.unsent? = some [] := by
  generalize hevents : [Event.shutdown] = events at h
  cases h with
  | @closerShuts _ closer hcloser hstage hflush =>
    rw [Connection.unsent?_of_closer (hone.link_eq_none hcloser) hcloser, hflush t rfl]
  | encodes hline hlink hcall hfrom => cases hfrom
  | rejects hline hlink hcall hfrom => cases hfrom
  | _ => simp at hevents

/-- **The law of the wire.** It holds in every usage of a connection. -/
theorem framesInOrder_run (peer : String) (turns : List Turn) :
    ((fresh peer).run turns).FramesInOrder := by
  have hsound := sound_run peer turns
  have hframed := framed_run peer turns
  refine ⟨settled_run peer turns, hframed.inOrder,
    fun p hp ↦ ⟨hframed.hasFrame p hp, hsound.orderly.encoded_call p hp⟩,
    hsound.orderly.encoded_locked, hsound.orderly.locked_lt, fun t hevents ↦ ?_⟩
  have hchange := Connection.change_step ((fresh peer).run turns).connection (.closerFlush t)
  rw [hevents] at hchange
  have hall := hframed.unsent [] (unsent?_of_shutdown hchange hframed.oneStream)
  rwa [List.append_nil] at hall

end Usage

end PinballBoard
