import PinballBoard.Proofs.Link.Framing
import PinballBoard.Proofs.Wire.Parse

/-!
# Every request gets its own reply

Replies carry no mark of the question they answer. A request that ends well has taken the bytes at
the front of what the stream has brought and made a reply of them; nothing in the codec says whose
reply that is. That it is its own is a property of the whole history, and of the board too: the
board has to answer what it is asked, once, in the order in which it is asked.

## The board

`Exchange` puts a board at the other end of a connection in use. What the stream has taken lies
before the board, which reads one frame after the other off its front and answers as the command
demands: with a reply of the right shape, or not at all. When it does so is its own affair, and so
is which reply it gives. What it answers is on its way to the host for any time and arrives in
pieces of any size. Everything else can happen to the connection as in any usage.

## What is on its way

The invariant says what may still arrive (`Expecting`). While no reply is outstanding there is
nothing, and no frame that the board has not read yet demands one. While a reply is outstanding it
is that of the task at the head: either the board has not read its frame, and nothing arrives, or
the received bytes and those on their way are this one reply. A stream to which this does not apply
any more is dropped, which is why a deserted request takes the stream with it.
-/

namespace PinballBoard

/-- A reply that a board may send: a string ends where the host takes it to end, and is not too
long. -/
def Reply.fits : Reply → Bool
  | .byte _ => true
  | .string data => data.length ≤ Limit.stringReply && Code.terminator ∉ data

/-- What a board answers to a command: a reply of the right shape, or nothing. -/
def Command.Accepts (command : Command) (reply? : Option Reply) : Prop :=
  reply?.map Reply.kind = command.replyKind ∧ reply?.all Reply.fits = true

instance (command : Command) (reply? : Option Reply) : Decidable (command.Accepts reply?) :=
  inferInstanceAs (Decidable (_ ∧ _))

/-- The bytes of an answer, if there is one. -/
def answerBytes (reply? : Option Reply) : Bytes := (reply?.map Reply.wire).getD []

/-! ## Exchanges -/

/-- A connection in use and the board at the other end. -/
structure Exchange where
  usage : Usage
  /-- The commands that the board has read, with its answers, oldest first. -/
  heard : List (Command × Option Reply)
  /-- What the board has sent and the stream has not brought yet. -/
  toHost : Bytes

/-- What can happen in an exchange. -/
inductive Step where
  /-- Anything that can happen to the connection, but for bytes that arrive. -/
  | turn (turn : Turn)
  /-- The stream brings this many bytes to a task that reads. -/
  | bring (count : Nat)
  /-- The board reads a frame and answers. -/
  | answer (command : Command) (reply? : Option Reply)

namespace Exchange

/-- A connection over a stream that has just been opened. -/
def fresh (peer : String) : Exchange := ⟨.fresh peer, [], []⟩

/-- The bytes that the stream has taken and the board has not read. -/
def toBoard (e : Exchange) : Bytes :=
  e.usage.written.drop (Command.frames (e.heard.map Prod.fst)).length

/-- One step. A step that does not apply changes nothing. -/
def step (e : Exchange) : Step → Exchange
  | .turn (.act (.receive _)) => e
  | .turn turn => { e with usage := e.usage.step turn }
  | .bring count =>
    if e.usage.connection.reader?.isSome then
      { e with
        usage := e.usage.act (.receive (e.toHost.take count))
        toHost := e.toHost.drop count }
    else e
  | .answer command reply? =>
    if command.HasFrame ∧ command.frame <+: e.toBoard ∧ command.Accepts reply? then
      { e with
        heard := e.heard ++ [(command, reply?)]
        toHost := e.toHost ++ answerBytes reply? }
    else e

/-- Any number of steps. -/
def run (e : Exchange) (steps : List Step) : Exchange := steps.foldl step e

end Exchange

/-! ## What may still arrive -/

/-- What may still arrive on an open stream, given the tasks in line, the commands that the board
has read with its answers, and those that it has not read. The bytes are those that have been
received and no reply has been made of, and those on their way. -/
inductive Expecting (line : List Caller) (heard : List (Command × Option Reply))
    (unheard : List Command) (codec : Codec) : Bytes → Prop where
  /-- No reply is outstanding. -/
  | nothing (hcodec : codec.pending = none) (hunheard : ∀ c ∈ unheard, c.replyKind = none) :
      Expecting line heard unheard codec []
  /-- The board has not read the command of the task at the head. -/
  | unasked {k : Caller} {rest : List Caller} {command : Command} {between : List Command}
      (hline : line = k :: rest) (hbusy : k.stage = .writing ∨ k.stage = .reading)
      (hcall : k.call = .request command) (hcodec : codec.pending = command.replyKind)
      (hkind : command.replyKind ≠ none) (hunheard : unheard = between ++ [command])
      (hbetween : ∀ c ∈ between, c.replyKind = none) :
      Expecting line heard unheard codec []
  /-- The board has answered the task at the head. -/
  | coming {k : Caller} {rest : List Caller} {command : Command}
      {earlier : List (Command × Option Reply)} {reply : Reply}
      (hline : line = k :: rest) (hbusy : k.stage = .writing ∨ k.stage = .reading)
      (hcall : k.call = .request command) (hcodec : codec.pending = some reply.kind)
      (hfits : reply.fits = true) (hunheard : unheard = [])
      (hheard : heard = earlier ++ [(command, some reply)]) :
      Expecting line heard unheard codec reply.wire

/-- While a reply arrives, the codec finds all of it or goes on waiting. -/
theorem Codec.decode_of_wire {codec : Codec} {reply : Reply} {received rest : Bytes}
    (hcodec : codec.pending = some reply.kind) (hfits : reply.fits = true)
    (h : received ++ rest = reply.wire) :
    rest = [] ∧ codec.decode received = .reply reply [] ∨ codec.decode received = .incomplete := by
  have hdata : ∀ data, reply = .string data →
      data.length ≤ Limit.stringReply ∧ Code.terminator ∉ data := by
    rintro data rfl
    simpa [Reply.fits] using hfits
  obtain ⟨reply', left, hparse, hdecode⟩ | ⟨-, -, hdecode⟩ | ⟨hparse, hover, -⟩ :=
    Codec.decode_of_pending received hcodec
  · have hall := ReplyKind.parse?_append hparse rest
    rw [h, ← List.append_nil reply.wire, ReplyKind.parse?_wire fun data hr ↦ (hdata data hr).2]
      at hall
    obtain ⟨rfl, hleft⟩ : reply = reply' ∧ [] = left ++ rest := by simpa using hall
    obtain ⟨rfl, rfl⟩ := List.append_eq_nil_iff.mp hleft.symm
    exact .inl ⟨rfl, hdecode⟩
  · exact .inr hdecode
  · -- bytes that are too many would be the whole reply, and that has a terminator
    exfalso
    obtain ⟨hkind, hlong⟩ := (ReplyKind.overrun_iff hparse).mp hover
    cases reply with
    | byte value => cases hkind
    | string data =>
      have hlength := congrArg List.length h
      have hshort := (hdata data rfl).1
      simp only [Reply.wire, List.length_append, List.length_singleton] at hlength
      obtain rfl : rest = [] := List.eq_nil_of_length_eq_zero (by omega)
      rw [List.append_nil] at h
      refine ReplyKind.not_mem_of_parse?_string hparse ?_
      simp [h, Reply.wire]

namespace Expecting

variable {line : List Caller} {heard : List (Command × Option Reply)} {unheard : List Command}
  {codec : Codec} {inbound : Bytes} {k : Caller} {rest : List Caller}

/-- Only a request that has got past the codec makes a reply outstanding. -/
theorem nothing_of_head (h : Expecting line heard unheard codec inbound) (hline : line = k :: rest)
    (hk : k.stage = .waiting ∨ k.stage = .draining ∨ ∀ command, k.call ≠ .request command) :
    inbound = [] ∧ codec.pending = none ∧ ∀ c ∈ unheard, c.replyKind = none := by
  have hcontra : ∀ {k' rest' command}, line = k' :: rest' →
      k'.stage = .writing ∨ k'.stage = .reading → k'.call = .request command → False := by
    intro k' rest' command hline' hbusy hcall
    obtain ⟨rfl, -⟩ := List.cons.inj (hline.symm.trans hline')
    rcases hk with hk | hk | hk
    · simp [hk] at hbusy
    · simp [hk] at hbusy
    · exact hk command hcall
  cases h with
  | nothing hcodec hunheard => exact ⟨rfl, hcodec, hunheard⟩
  | unasked hline' hbusy hcall => exact (hcontra hline' hbusy hcall).elim
  | coming hline' hbusy hcall => exact (hcontra hline' hbusy hcall).elim

/-- As long as no reply is outstanding, the line does not matter. -/
theorem of_nothing {line' : List Caller} (h : inbound = [] ∧ codec.pending = none ∧
    ∀ c ∈ unheard, c.replyKind = none) : Expecting line' heard unheard codec inbound := by
  obtain ⟨rfl, hcodec, hunheard⟩ := h
  exact .nothing hcodec hunheard

/-- Who comes and goes behind the head does not matter, nor how far a busy head has got. -/
theorem of_head (h : Expecting line heard unheard codec inbound) {line' : List Caller}
    (hline : ∀ k rest command, line = k :: rest → k.call = .request command →
      k.stage = .writing ∨ k.stage = .reading →
        ∃ stage rest', line' = { k with stage := stage } :: rest' ∧
          (stage = .writing ∨ stage = .reading)) :
    Expecting line' heard unheard codec inbound := by
  cases h with
  | nothing hcodec hunheard => exact .nothing hcodec hunheard
  | unasked hline' hbusy hcall hcodec hkind hunheard hbetween =>
    obtain ⟨stage, rest', hnew, hstage⟩ := hline _ _ _ hline' hcall hbusy
    exact .unasked hnew hstage hcall hcodec hkind hunheard hbetween
  | coming hline' hbusy hcall hcodec hfits hunheard hheard =>
    obtain ⟨stage, rest', hnew, hstage⟩ := hline _ _ _ hline' hcall hbusy
    exact .coming hnew hstage hcall hcodec hfits hunheard hheard

theorem of_accepted {command : Command} (hcommand : k.call.command? = some command)
    (hallowed : k.call.refusal = none) (hunheard : ∀ c ∈ unheard, c.replyKind = none) :
    Expecting ({ k with stage := .writing } :: rest) heard (unheard ++ [command])
      ⟨command.replyKind⟩ [] := by
  by_cases hkind : command.replyKind = none
  · refine .nothing hkind fun c hc ↦ ?_
    rcases List.mem_append.mp hc with hc | hc
    · exact hunheard c hc
    · rw [List.mem_singleton.mp hc]
      exact hkind
  · -- a call that does not wait would have been refused
    have hrequest : k.call = .request command := by
      cases hcase : k.call with
      | send command' => simp_all [Call.refusal, Call.command?]
      | _ => simp_all [Call.command?]
    exact .unasked rfl (.inl rfl) hrequest rfl hkind rfl hunheard

private theorem answer_eq_none {command : Command} {reply? : Option Reply}
    (hreply : command.Accepts reply?) (hkind : command.replyKind = none) : reply? = none := by
  have h := hreply.1
  rwa [hkind, Option.map_eq_none_iff] at h

theorem answer {command : Command} {reply? : Option Reply}
    (h : Expecting line heard (command :: unheard) codec inbound)
    (hreply : command.Accepts reply?) :
    Expecting line (heard ++ [(command, reply?)]) unheard codec
      (inbound ++ answerBytes reply?) := by
  cases h with
  | nothing hcodec hunheard =>
    obtain rfl := answer_eq_none hreply (hunheard command List.mem_cons_self)
    exact .nothing hcodec fun c hc ↦ hunheard c (List.mem_cons_of_mem _ hc)
  | @unasked k rest asked between hline hbusy hcall hcodec hkind hunheard hbetween =>
    cases between with
    | nil =>
      obtain ⟨rfl, rfl⟩ := List.cons.inj hunheard
      obtain ⟨hreplyKind, hfits⟩ := hreply
      cases reply? with
      | none => exact absurd hreplyKind.symm hkind
      | some reply => exact .coming hline hbusy hcall (hcodec.trans hreplyKind.symm) hfits rfl rfl
    | cons first between =>
      obtain ⟨rfl, rfl⟩ := List.cons.inj hunheard
      obtain rfl := answer_eq_none hreply (hbetween command List.mem_cons_self)
      exact .unasked hline hbusy hcall hcodec hkind rfl fun c hc ↦
        hbetween c (List.mem_cons_of_mem _ hc)
  | coming hline hbusy hcall hcodec hfits hunheard => cases hunheard

end Expecting

/-! ## What a step does to it -/

/-- The bytes that the stream brings in an action. -/
def Action.arrived : Action → Bytes
  | .receive chunk => chunk
  | _ => []

/-- A step that does nothing while somebody reads has brought nothing. -/
theorem Action.arrived_of_idle {a : Action} {c : Connection}
    (hidle : ∀ chunk, a = .receive chunk → chunk = [] ∨ c.reader? = none)
    (hreader : a.arrived = [] ∨ c.reader?.isSome) : a.arrived = [] := by
  cases a with
  | receive chunk =>
    rcases hidle chunk rfl with hchunk | hnone
    · exact hchunk
    · exact hreader.resolve_right (by simp [hnone])
  | _ => rfl

namespace Usage

variable {u : Usage} {heard : List (Command × Option Reply)} {unheard : List Command}

/-- What may still arrive, if the stream is still there. -/
def Expects (u : Usage) (heard : List (Command × Option Reply)) (unheard : List Command)
    (toHost : Bytes) : Prop :=
  ∀ l, u.connection.link = some l →
    Expecting u.connection.line heard unheard l.codec (l.incoming ++ toHost)

theorem inbound_of_awaits {a : Action} {k : Caller} {l l' : Link} {before after : Bytes}
    (hbefore : before = a.arrived ++ after) (hfrom : Connection.Awaits k l a l') :
    l'.codec = l.codec ∧ l.incoming ++ before = l'.incoming ++ after := by
  rw [hbefore]
  cases hfrom with
  | sent | ended => exact ⟨rfl, rfl⟩
  | fed chunk => exact ⟨l.received_codec chunk, by simp [Action.arrived]⟩

theorem reply_of_awaits {a : Action} {k : Caller} {rest : List Caller} {l l' : Link}
    {before after : Bytes} (h : u.Expects heard unheard before)
    (hbefore : before = a.arrived ++ after) (hline : u.connection.line = k :: rest)
    (hlink : u.connection.link = some l) (hfrom : Connection.Awaits k l a l') :
    (∀ e, l'.codec.decode l'.incoming ≠ .failed e) ∧
      ∀ reply left, l'.codec.decode l'.incoming = .reply reply left →
        left = [] ∧ after = [] ∧ unheard = [] ∧
          ∃ earlier command, k.call = .request command ∧
            heard = earlier ++ [(command, some reply)] := by
  obtain ⟨hcodec, hinbound⟩ := inbound_of_awaits hbefore hfrom
  have hexpecting := h l hlink
  rw [hinbound, ← hcodec] at hexpecting
  have hempty : l'.incoming ++ after = [] → l'.codec.decode l'.incoming = .incomplete := by
    intro hnil
    rw [(List.append_eq_nil_iff.mp hnil).1]
    exact Codec.decode_nil _
  generalize hwire : l'.incoming ++ after = inbound at hexpecting hempty
  cases hexpecting with
  | nothing => simp [hempty rfl]
  | unasked => simp [hempty rfl]
  | @coming k' rest' command earlier reply hline' hbusy hcall hpending hfits hunheard hheard =>
    obtain ⟨rfl, -⟩ := List.cons.inj (hline.symm.trans hline')
    rcases Codec.decode_of_wire hpending hfits hwire with ⟨hafter, hdecode⟩ | hdecode
    · refine ⟨by simp [hdecode], fun reply' left hreply ↦ ?_⟩
      obtain ⟨rfl, rfl⟩ : reply = reply' ∧ [] = left := by simpa [hdecode] using hreply
      exact ⟨rfl, hafter, hunheard, earlier, command, hcall, hheard⟩
    · simp [hdecode]

theorem stage_of_admits {a : Action} {k : Caller} {l : Link} {pre : List Event}
    (hfrom : u.connection.Admits k l a pre) :
    a.arrived = [] ∧
      (k.stage = .waiting ∨ k.stage = .draining ∨ ∀ command, k.call ≠ .request command) := by
  cases hfrom with
  | atOnce hstage => exact ⟨rfl, .inl hstage⟩
  | drained hstage => exact ⟨rfl, .inr (.inl hstage)⟩

/-- What may still arrive after a step. -/
theorem Expects.change {a : Action} {c : Connection} {events : Trace} {before after : Bytes}
    (h : u.Expects heard unheard before) (hsound : u.Sound) (hone : u.connection.OneStream)
    (hbefore : before = a.arrived ++ after)
    (hreader : a.arrived = [] ∨ u.connection.reader?.isSome)
    (hchange : u.connection.Change a c events) :
    Expects { u with connection := c, events := u.events ++ events } heard
      (unheard ++ events.encoded.map Prod.snd) after := by
  intro l' hl'
  have hstill : a.arrived = [] → ∀ l, u.connection.link = some l →
      Expecting u.connection.line heard unheard l.codec (l.incoming ++ after) := by
    intro harrived l hlink
    have hl := h l hlink
    rwa [hbefore, harrived, List.nil_append] at hl
  cases hchange with
  | idle hidle => simpa using hstill (Action.arrived_of_idle hidle hreader) l' hl'
  | foundClosed | takesStream | breaks | deserts | abortsFree => cases hl'
  | closerAccepts hk | closerShuts hk | closerWaits hk | closerEnds hk =>
    exact absurd hl' (by simp [hone.link_eq_none hk])
  | refused | abortsBusy => simpa using hstill rfl l' hl'
  | queued =>
    simp only [Trace.encoded_nil, List.map_nil, List.append_nil]
    exact (hstill rfl l' hl').of_head fun k rest command hline hcall hbusy ↦
      ⟨k.stage, rest ++ [_], by rw [hline]; rfl, hbusy⟩
  -- who is served without a reply, or is not served yet, leaves nothing on its way
  | @foundOpen caller rest l hline hstage hlink hopen hcall =>
    have hnothing := (hstill rfl l' hl').nothing_of_head hline (.inl hstage)
    simpa using Expecting.of_nothing hnothing
  | @drains caller rest l command hline hstage hlink hopen hcall hroom =>
    have hnothing := (hstill rfl l' hl').nothing_of_head hline (.inl hstage)
    simpa using Expecting.of_nothing hnothing
  | @encodes a pre caller rest l l'' command hline hlink hcall hfrom hsubmit =>
    cases hl'
    obtain ⟨harrived, hstage⟩ := stage_of_admits hfrom
    obtain ⟨hinbound, -, hunheard⟩ := (hstill harrived l hlink).nothing_of_head hline hstage
    obtain ⟨-, -, rfl⟩ := Connection.submit_eq_ok hsubmit
    have hencoded : (Trace.encoded (pre ++ [.encoded caller.ticket command])).map Prod.snd =
        [command] := by
      simp [(events_of_admits hfrom).1]
    rw [hencoded, hinbound]
    exact .of_accepted hcall (hsound.orderly.not_refused caller (hline ▸ List.mem_cons_self))
      hunheard
  | @rejects a pre caller rest l command e hline hlink hcall hfrom hsubmit =>
    obtain ⟨harrived, hstage⟩ := stage_of_admits hfrom
    have hnothing := (hstill harrived l' hl').nothing_of_head hline hstage
    simpa [(events_of_admits hfrom).1] using Expecting.of_nothing hnothing
  | @accepts caller rest l count hline hlink hstage hcount =>
    cases hl'
    simp only [Trace.encoded_cons, Event.encoding?, Option.toList_none, Trace.encoded_nil,
      List.append_nil, List.map_nil]
    exact hstill rfl l hlink
  | @sent caller rest l command hline hlink hcall hstage hempty =>
    have hnothing := (hstill rfl l' hl').nothing_of_head hline (.inr (.inr fun c ↦ by simp [hcall]))
    simpa using Expecting.of_nothing hnothing
  | @replied a caller rest l l'' reply left hline hlink hfrom hdecode =>
    cases hl'
    -- the reply was all that could still arrive
    obtain ⟨rfl, rfl, rfl, -⟩ :=
      (reply_of_awaits h hbefore hline hlink hfrom).2 reply left hdecode
    exact .nothing rfl (by simp)
  | @waits a caller rest l l'' hline hlink hfrom hdecode =>
    cases hl'
    obtain ⟨hcodec, hinbound⟩ := inbound_of_awaits hbefore hfrom
    have hl := h l hlink
    rw [hinbound, ← hcodec] at hl
    simp only [Trace.encoded_nil, List.map_nil, List.append_nil]
    refine hl.of_head fun k rest' command hline' hcall hbusy ↦ ?_
    obtain ⟨rfl, rfl⟩ := List.cons.inj (hline.symm.trans hline')
    exact ⟨.reading, rest, rfl, .inr rfl⟩
  | @misreads a caller rest l l'' e hline hlink hfrom hdecode =>
    exact absurd hdecode ((reply_of_awaits h hbefore hline hlink hfrom).1 e)
  | @retires ticket howes =>
    simp only [Trace.encoded_dropped, List.map_nil, List.append_nil]
    refine (hstill rfl l' hl').of_head fun k rest command hline hcall hbusy ↦ ?_
    -- who retires owes no reply, and the task at the head does
    have hne : k.ticket ≠ ticket := by
      intro heq
      have hfree := howes k (hline ▸ List.mem_cons_self) heq
      rw [Caller.IsBusy.owesReply hbusy hcall] at hfree
      cases hfree
    refine ⟨k.stage, rest.filter (·.ticket != ticket), ?_, hbusy⟩
    simp [hline, hne]

/-- A request that ends well in a step gets the reply that the board has given last. -/
theorem Expects.own_reply {a : Action} {c : Connection} {events : Trace} {before after : Bytes}
    (h : u.Expects heard unheard before) (hsound : u.Sound)
    (horder : heard.map Prod.fst ++ unheard = u.encoded.map Prod.snd)
    (ha : ∀ t call, a ≠ .enter t call) (hbefore : before = a.arrived ++ after)
    (hchange : u.connection.Change a c events) {t : Ticket} {command : Command} {outcome : Outcome}
    (hcall : u.calls[t]? = some (.request command)) (hmem : Event.settled t outcome ∈ events)
    (hok : ∀ error, outcome ≠ .failed error) :
    ∃ (i : Nat) (reply : Reply), outcome = .reply reply ∧ u.encoded[i]? = some (t, command) ∧
      heard[i]? = some (command, some reply) := by
  rcases hchange.of_settled_ok ha hmem hok with ⟨k, hk, rfl⟩ | ⟨k, rest, hline, rfl, hend⟩
  · rw [(hsound.closer_gone k hk).2] at hcall
    cases hcall
  have hk : k ∈ u.connection.line := hline ▸ List.mem_cons_self
  have hrequest : k.call = .request command := by
    rw [hsound.orderly.call_of k hk] at hcall
    exact Option.some.inj hcall
  rcases hend with hnone | ⟨-, l, hlink, ⟨⟨command', hsend⟩, -⟩ | hreply⟩
  · rw [hrequest] at hnone
    cases hnone
  · rw [hrequest] at hsend
    cases hsend
  obtain ⟨l', reply, left, hfrom, hdecode, rfl⟩ := hreply
  obtain ⟨-, -, rfl, earlier, command', hcall', rfl⟩ :=
    (reply_of_awaits h hbefore hline hlink hfrom).2 reply left hdecode
  obtain rfl : command = command' := by
    rw [hrequest] at hcall'
    exact Call.request.inj hcall'
  have hstage : k.stage = .writing ∨ k.stage = .reading := by
    cases hfrom with
    | sent command hcall hstage => exact .inl hstage
    | fed chunk hstage => exact .inr hstage
    | ended hstage => exact .inr hstage
  obtain ⟨first, command', hcommand', hlast⟩ := hsound.orderly.encoded_last k hk hstage
  obtain rfl : command = command' := by
    rw [hrequest] at hcommand'
    exact Option.some.inj hcommand'
  -- as many commands have been heard before it as have been accepted before it
  have hlength : earlier.length = first.length := by
    have hlength := congrArg List.length horder
    rw [hlast] at hlength
    simpa using hlength
  exact ⟨earlier.length, reply, rfl, by simp [hlast, hlength], by simp⟩

/-- What the stream has taken and the board has not read begins the frames of the commands that the
board has not read. -/
theorem Framed.prefix_unheard (h : u.Framed) {heard unheard : List Command}
    (hwritten : Command.frames heard <+: u.written)
    (horder : heard ++ unheard = u.encoded.map Prod.snd) :
    u.written.drop (Command.frames heard).length <+: Command.frames unheard ∧
      ∀ c ∈ unheard, c.HasFrame := by
  obtain ⟨rest, hrest⟩ := hwritten
  have hframes : u.frames = Command.frames heard ++ Command.frames unheard := by
    rw [← Command.frames_append, horder]
    rfl
  refine ⟨?_, fun c hc ↦ ?_⟩
  · have htaken : u.written <+: u.frames := h.inOrder u.events List.prefix_rfl
    rw [hframes, ← hrest] at htaken
    rw [← hrest, List.drop_left]
    exact (List.prefix_append_right_inj _).mp htaken
  · have hmem : c ∈ u.encoded.map Prod.snd := horder ▸ List.mem_append_right _ hc
    obtain ⟨p, hp, rfl⟩ := List.mem_map.mp hmem
    exact h.hasFrame p hp

/-- The frame at the front of it is that of the first command that the board has not read. -/
theorem Framed.next_heard (h : u.Framed) {heard unheard : List Command}
    (hwritten : Command.frames heard <+: u.written)
    (horder : heard ++ unheard = u.encoded.map Prod.snd) {command : Command}
    (hframe : command.HasFrame)
    (hfront : command.frame <+: u.written.drop (Command.frames heard).length) :
    (∃ rest, unheard = command :: rest) ∧ Command.frames (heard ++ [command]) <+: u.written := by
  obtain ⟨hunheard, hall⟩ := h.prefix_unheard hwritten horder
  refine ⟨Command.eq_cons_of_frame_prefix hframe hall (hfront.trans hunheard), ?_⟩
  obtain ⟨rest, hrest⟩ := hwritten
  rw [← hrest, List.drop_left] at hfront
  rw [← hrest, Command.frames_append]
  exact (List.prefix_append_right_inj _).mpr (by simpa using hfront)

end Usage

/-! ## Whole exchanges -/

namespace Exchange

variable {e : Exchange}

/-- What holds in every exchange. -/
private structure Attuned (e : Exchange) : Prop where
  sound : e.usage.Sound
  framed : e.usage.Framed
  /-- What the board has read has been written. -/
  heard_written : Command.frames (e.heard.map Prod.fst) <+: e.usage.written
  /-- What the board has read and what it has not read are the commands that have been accepted. -/
  expects : ∃ unheard, e.heard.map Prod.fst ++ unheard = e.usage.encoded.map Prod.snd ∧
    e.usage.Expects e.heard unheard e.toHost

/-- Every request that has ended well has got the answer that the board has given to its own
command. -/
def OwnReply (e : Exchange) : Prop :=
  ∀ t command outcome, e.usage.calls[t]? = some (.request command) →
    Event.settled t outcome ∈ e.usage.events → (∀ error, outcome ≠ .failed error) →
      ∃ (i : Nat) (reply : Reply), outcome = .reply reply ∧
        e.usage.encoded[i]? = some (t, command) ∧ e.heard[i]? = some (command, some reply)

/-- What the callers can rely on with a board at the other end. -/
structure Attributed (e : Exchange) : Prop where
  /-- The board reads the commands that have been accepted, in this order and none besides. -/
  heard_in_order : e.heard.map Prod.fst <+: e.usage.encoded.map Prod.snd
  /-- No call has a command accepted twice. -/
  once : (e.usage.encoded.map Prod.fst).Pairwise (· < ·)
  own_reply : e.OwnReply

private theorem attuned_fresh (peer : String) : (fresh peer).Attuned where
  sound := Usage.sound_fresh peer
  framed := Usage.framed_fresh peer
  heard_written := List.nil_prefix
  expects := by
    refine ⟨[], rfl, fun l hl ↦ ?_⟩
    cases hl
    exact .nothing rfl (by simp)

private theorem Attuned.act {a : Action} {after : Bytes} (h : e.Attuned)
    (ha : ∀ t call, a ≠ .enter t call) (hbefore : e.toHost = a.arrived ++ after)
    (hreader : a.arrived = [] ∨ e.usage.connection.reader?.isSome) :
    Attuned { e with usage := e.usage.act a, toHost := after } := by
  have hchange := e.usage.connection.change_step a
  obtain ⟨unheard, horder, hexpects⟩ := h.expects
  refine ⟨h.sound.change ha hchange, h.framed.change h.sound hchange, ?_, _, ?_,
    hexpects.change h.sound h.framed.oneStream hbefore hreader hchange⟩
  · rw [Usage.written_act]
    exact h.heard_written.trans (List.prefix_append _ _)
  · rw [Usage.encoded_act, List.map_append, ← horder, List.append_assoc]

private theorem Attuned.call (h : e.Attuned) (call : Call) :
    Attuned { e with usage := e.usage.step (.call call) } := by
  have hchange := e.usage.connection.change_step (.enter e.usage.calls.length call)
  obtain ⟨unheard, horder, hexpects⟩ := h.expects
  refine ⟨h.sound.call call, h.framed.call h.sound call, ?_, _, ?_,
    hexpects.change h.sound h.framed.oneStream rfl (.inl rfl) hchange⟩
  · exact (Usage.written_act _ _).symm ▸ h.heard_written.trans (List.prefix_append _ _)
  · rw [← List.append_assoc, horder, ← List.map_append]
    exact congrArg (List.map Prod.snd) (Usage.encoded_act _ _).symm

private theorem Attuned.answer {command : Command} {reply? : Option Reply} (h : e.Attuned)
    (hframe : command.HasFrame) (hfront : command.frame <+: e.toBoard)
    (hreply : command.Accepts reply?) :
    Attuned { e with
      heard := e.heard ++ [(command, reply?)]
      toHost := e.toHost ++ answerBytes reply? } := by
  obtain ⟨unheard, horder, hexpects⟩ := h.expects
  obtain ⟨⟨rest, rfl⟩, hread⟩ := h.framed.next_heard h.heard_written horder hframe hfront
  refine ⟨h.sound, h.framed, ?_, rest, ?_, fun l hl ↦ ?_⟩
  · simpa using hread
  · simpa using horder
  · have hanswer := (hexpects l hl).answer hreply
    rwa [List.append_assoc] at hanswer

/-- A step is a call, something else that happens to the connection, bytes that arrive, an answer,
or nothing. -/
private theorem step_cases (e : Exchange) (step : Step) :
    e.step step = e ∨
      (∃ call, e.step step = { e with usage := e.usage.step (.call call) }) ∨
      (∃ a after, (∀ t call, a ≠ .enter t call) ∧ e.toHost = a.arrived ++ after ∧
        (a.arrived = [] ∨ e.usage.connection.reader?.isSome) ∧
        e.step step = { e with usage := e.usage.act a, toHost := after }) ∨
      ∃ command reply?, command.HasFrame ∧ command.frame <+: e.toBoard ∧
        command.Accepts reply? ∧ e.step step = { e with
          heard := e.heard ++ [(command, reply?)]
          toHost := e.toHost ++ answerBytes reply? } := by
  cases step with
  | turn turn =>
    cases turn with
    | call call => exact .inr (.inl ⟨call, rfl⟩)
    | act a =>
      cases a with
      | enter | receive => exact .inl rfl
      | _ => exact .inr (.inr (.inl ⟨_, e.toHost, by simp, rfl, .inl rfl, rfl⟩))
  | bring count =>
    rw [step]
    split
    · rename_i hreader
      refine .inr (.inr (.inl ⟨.receive (e.toHost.take count), e.toHost.drop count, by simp, ?_,
        .inr hreader, rfl⟩))
      exact (List.take_append_drop count e.toHost).symm
    · exact .inl rfl
  | answer command reply? =>
    rw [step]
    split
    · rename_i hanswer
      exact .inr (.inr (.inr ⟨command, reply?, hanswer.1, hanswer.2.1, hanswer.2.2, rfl⟩))
    · exact .inl rfl

private theorem Attuned.step (h : e.Attuned) (step : Step) : (e.step step).Attuned := by
  obtain hsame | ⟨call, hcall⟩ | ⟨a, after, ha, hbefore, hreader, hact⟩ |
    ⟨command, reply?, hframe, hfront, hreply, hanswer⟩ := e.step_cases step
  · rwa [hsame]
  · rw [hcall]
    exact h.call call
  · rw [hact]
    exact h.act ha hbefore hreader
  · rw [hanswer]
    exact h.answer hframe hfront hreply

private theorem ownReply_fresh (peer : String) : (fresh peer).OwnReply := by
  intro t command outcome hcalled
  cases hcalled

private theorem OwnReply.call (hown : e.OwnReply) (h : e.Attuned) (call : Call) :
    OwnReply { e with usage := e.usage.step (.call call) } := by
  -- a call that is made now has not ended, unless it is refused
  have hended : ∀ t outcome, Event.settled t outcome ∈ (e.usage.step (.call call)).events →
      (∀ error, outcome ≠ .failed error) → Event.settled t outcome ∈ e.usage.events := by
    intro t outcome hmem hok
    cases hcall : call.refusal with
    | none => rwa [Usage.step_call_of_not_refusal hcall] at hmem
    | some error =>
      rw [Usage.step_call_of_refusal hcall] at hmem
      rcases List.mem_append.mp hmem with hmem | hmem
      · exact hmem
      · obtain ⟨-, rfl⟩ : t = e.usage.calls.length ∧ outcome = .failed error := by simpa using hmem
        exact absurd rfl (hok error)
  intro t command outcome hcalled hmem hok
  have hmem := hended t outcome hmem hok
  have hlt := (h.sound.settled_gone t outcome hmem).1
  have hcalled : e.usage.calls[t]? = some (.request command) := by
    rw [← List.getElem?_append_left hlt]
    exact hcalled
  obtain ⟨i, reply, rfl, hencoded, hheard⟩ := hown t command outcome hcalled hmem hok
  refine ⟨i, reply, rfl, ?_, hheard⟩
  have hgrown := getElem?_append_of_some hencoded
    (Trace.encoded (e.usage.connection.step (.enter e.usage.calls.length call)).2)
  rwa [← Usage.encoded_act] at hgrown

private theorem OwnReply.act {a : Action} {after : Bytes} (hown : e.OwnReply) (h : e.Attuned)
    (ha : ∀ t call, a ≠ .enter t call) (hbefore : e.toHost = a.arrived ++ after) :
    OwnReply { e with usage := e.usage.act a, toHost := after } := by
  intro t command outcome hcalled hmem hok
  have hchange := e.usage.connection.change_step a
  obtain ⟨unheard, horder, hexpects⟩ := h.expects
  have hown : ∃ (i : Nat) (reply : Reply), outcome = .reply reply ∧
      e.usage.encoded[i]? = some (t, command) ∧ e.heard[i]? = some (command, some reply) := by
    rcases List.mem_append.mp hmem with hmem | hmem
    · exact hown t command outcome hcalled hmem hok
    · exact hexpects.own_reply h.sound horder ha hbefore hchange hcalled hmem hok
  obtain ⟨i, reply, rfl, hencoded, hheard⟩ := hown
  refine ⟨i, reply, rfl, ?_, hheard⟩
  rw [Usage.encoded_act]
  exact getElem?_append_of_some hencoded _

private theorem OwnReply.step (hown : e.OwnReply) (h : e.Attuned) (step : Step) :
    (e.step step).OwnReply := by
  obtain hsame | ⟨call, hcall⟩ | ⟨a, after, ha, hbefore, hreader, hact⟩ |
    ⟨command, reply?, hframe, hfront, hreply, hanswer⟩ := e.step_cases step
  · rwa [hsame]
  · rw [hcall]
    exact hown.call h call
  · rw [hact]
    exact hown.act h ha hbefore
  · rw [hanswer]
    intro t command' outcome hcalled hmem hok
    obtain ⟨i, reply, rfl, hencoded, hheard⟩ := hown t command' outcome hcalled hmem hok
    exact ⟨i, reply, rfl, hencoded, getElem?_append_of_some hheard _⟩

/-- **Every request gets its own reply**, whatever the callers, the stream and the board do. -/
theorem attributed_run (peer : String) (steps : List Step) :
    ((fresh peer).run steps).Attributed := by
  have h : ((fresh peer).run steps).Attuned ∧ ((fresh peer).run steps).OwnReply := by
    induction steps using List.reverseRecOn with
    | nil => exact ⟨attuned_fresh peer, ownReply_fresh peer⟩
    | append_singleton steps step ih =>
      rw [run, List.foldl_append]
      exact ⟨ih.1.step step, ih.2.step ih.1 step⟩
  obtain ⟨hattuned, hown⟩ := h
  obtain ⟨unheard, horder, -⟩ := hattuned.expects
  exact ⟨⟨unheard, horder⟩, hattuned.sound.orderly.encoded_lt, hown⟩

/-- A request gets its reply. The next one is given up, and takes its late reply along with the
stream. -/
example :
    ((fresh "board").run
      [.turn (.call (.request .countLamps)), .turn (.act .proceed), .turn (.act (.accept 1)),
        .turn (.act .flush), .answer .countLamps (some (.byte 36)), .bring 1,
        .turn (.call (.request .countCoils)), .turn (.act .proceed), .turn (.act (.accept 1)),
        .turn (.act .flush), .answer .countCoils (some (.byte 9)), .turn (.act (.cancel 1)),
        .turn (.call (.request .countLamps)), .turn (.act .proceed), .bring 1]).usage.events =
      [.locked 0, .encoded 0 .countLamps, .accepted [3], .settled 0 (.reply (.byte 36)),
        .locked 1, .encoded 1 .countCoils, .accepted [4], .dropped,
        .locked 2, .settled 2 (.failed .notConnected)] := by
  decide

end Exchange

end PinballBoard
