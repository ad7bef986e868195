import PinballBoard.Proofs.Link.Attribution

/-!
# The books of questions and replies

Who keeps a list of the questions that the codec has accepted and one of the replies that it has
found needs nothing else to tell whose reply is whose: the first reply belongs to the first
question, and so on. This module balances these two books against a third one, which is kept at the
other end of the stream: what the board has replied, and to what.

As long as the stream is there the balance is exact (`Open`). The replies of the board are those
that have been found and those on their way, and the questions are those with a reply and at most
one more, whose shape is what the codec waits for. When the stream is gone nothing is found any
more, and the books of the host stay beginnings of those of the board (`Matches`).

The only demand on the board is that its strings end where the host takes them to end. A string may
be as long as it likes. If it is too long the host refuses it and goes on waiting, and the books do
not change.
-/

namespace PinballBoard

/-- The reply with which a call has ended, if it has ended with one. -/
def Outcome.reply? : Outcome → Option Reply
  | .reply r => some r
  | _ => none

namespace Trace

/-- The questions that the codec has accepted, each with its call, oldest first. -/
def asked (t : Trace) : List (Ticket × Command) := t.encoded.filter (·.2.replyKind.isSome)

/-- The replies that the codec has found, each with its call, oldest first. -/
def replied (t : Trace) : List (Ticket × Reply) :=
  t.settled.filterMap fun p ↦ p.2.reply?.map (p.1, ·)

@[simp] theorem asked_append (t s : Trace) : asked (t ++ s) = asked t ++ asked s := by
  simp [asked]

@[simp] theorem replied_append (t s : Trace) : replied (t ++ s) = replied t ++ replied s := by
  simp [replied]

theorem map_snd_asked (t : Trace) :
    t.asked.map Prod.snd = (t.encoded.map Prod.snd).filter (·.replyKind.isSome) := by
  rw [asked, List.filter_map]
  rfl

theorem asked_of_encoded_nil {t : Trace} (h : t.encoded = []) : t.asked = [] := by
  simp [asked, h]

theorem replied_filter (t : Trace) (mine : Ticket → Bool) :
    ((t.settled.filter (mine ·.1)).map Prod.snd).filterMap Outcome.reply? =
      (t.replied.filter (mine ·.1)).map Prod.snd := by
  rw [replied]
  induction t.settled with
  | nil => rfl
  | cons p settled ih =>
    obtain ⟨ticket, outcome⟩ := p
    cases hmine : mine ticket <;> cases hreply : outcome.reply? <;> simp [hmine, hreply, ih]

theorem replied_of_settled_nil {t : Trace} (h : t.settled = []) : t.replied = [] := by
  simp [replied, h]

end Trace

theorem Codec.parse?_of_decode {codec : Codec} {received rest : Bytes} {reply : Reply}
    (h : codec.decode received = .reply reply rest) :
    reply.kind.parse? received = some (reply, rest) := by
  obtain ⟨hpending, -⟩ := of_decode_reply h
  obtain ⟨reply', rest', hparse, hdecode⟩ | ⟨-, -, hdecode⟩ | ⟨-, -, hdecode⟩ :=
    decode_of_pending received hpending <;> rw [h] at hdecode <;> cases hdecode
  exact hparse

namespace Usage

variable {u : Usage} {said : List (Command × Reply)} {toHost : Bytes}

/-- The balance over an open stream. -/
structure Open (u : Usage) (said : List (Command × Reply)) (toHost : Bytes) (l : Link) : Prop where
  /-- What the board has replied has been found or is on its way. -/
  on_the_way : ∃ late, said.map Prod.snd = u.events.replied.map Prod.snd ++ late ∧
    late.flatMap Reply.wire = l.incoming ++ toHost
  /-- While no reply is outstanding, each question has its reply. -/
  idle : l.codec.pending = none → u.events.asked.length = u.events.replied.length
  /-- Else the last one has none. -/
  waiting : ∀ kind, l.codec.pending = some kind →
    u.events.asked.length = u.events.replied.length + 1 ∧
      ∃ p, u.events.asked.getLast? = some p ∧ p.2.replyKind = some kind

/-- The books of the host and those of the board. -/
structure Matches (u : Usage) (said : List (Command × Reply)) (toHost : Bytes) : Prop where
  /-- The board replies to what it is asked, in this order, -/
  said_asked : said.map Prod.fst <+: u.events.asked.map Prod.snd
  /-- by replies of the right shape, -/
  said_kind : ∀ p ∈ said, p.1.replyKind = some p.2.kind
  /-- whose strings end where they end. -/
  unbroken : ∀ p ∈ said, ∀ data, p.2 = .string data → Code.terminator ∉ data
  /-- Questions get their replies in order, -/
  replied_asked : u.events.replied.map Prod.fst <+: u.events.asked.map Prod.fst
  /-- and these are the replies of the board. -/
  replied_said : u.events.replied.map Prod.snd <+: said.map Prod.snd
  balance : ∀ l, u.connection.link = some l → u.Open said toHost l

theorem matches_fresh (peer : String) : Matches (.fresh peer) [] [] where
  said_asked := List.prefix_rfl
  said_kind := nofun
  unbroken := nofun
  replied_asked := List.prefix_rfl
  replied_said := List.prefix_rfl
  balance l hl := by
    cases hl
    exact ⟨⟨[], rfl, rfl⟩, fun _ ↦ rfl, nofun⟩

/-! ## What a step does to the books -/

variable {c : Connection} {events : Trace} {before after : Bytes}

/-- Where nothing is replied the books of the host and the board stay in step. -/
private theorem Matches.quiet (h : u.Matches said before) (hreplied : events.replied = [])
    (hbalance : ∀ l, c.link = some l →
      Open { u with connection := c, events := u.events ++ events } said after l) :
    Matches { u with connection := c, events := u.events ++ events } said after where
  said_asked := by
    rw [Trace.asked_append, List.map_append]
    exact h.said_asked.trans (List.prefix_append _ _)
  said_kind := h.said_kind
  unbroken := h.unbroken
  replied_asked := by
    rw [Trace.replied_append, hreplied, List.append_nil, Trace.asked_append, List.map_append]
    exact h.replied_asked.trans (List.prefix_append _ _)
  replied_said := by
    rw [Trace.replied_append, hreplied, List.append_nil]
    exact h.replied_said
  balance := hbalance

private theorem Open.quiet {l l' : Link} (h : u.Open said before l) (hreplied : events.replied = [])
    (hasked : events.asked = []) (hcodec : l'.codec = l.codec)
    (hinbound : l.incoming ++ before = l'.incoming ++ after) :
    Open { u with connection := c, events := u.events ++ events } said after l' := by
  obtain ⟨hlate, hidle, hwaiting⟩ := h
  constructor <;> rw [Trace.replied_append, hreplied, List.append_nil]
  · rwa [← hinbound]
  all_goals rw [Trace.asked_append, hasked, List.append_nil, hcodec]
  · exact hidle
  · exact hwaiting

/-- A command is accepted while no reply is outstanding. If it is a question its reply is
outstanding now. -/
private theorem Open.encodes {l l' : Link} {t : Ticket} {command : Command}
    (h : u.Open said before l) (hsubmit : l.submit command = .ok l')
    (hreplied : events.replied = [])
    (hencoded : events.encoded = [(t, command)]) :
    Open { u with connection := c, events := u.events ++ events } said before l' := by
  obtain ⟨hlate, hidle, -⟩ := h
  obtain ⟨-, hpending, rfl⟩ := Connection.submit_eq_ok hsubmit
  have hasked : events.asked = [(t, command)].filter (·.2.replyKind.isSome) := by
    rw [Trace.asked, hencoded]
  constructor <;> rw [Trace.replied_append, hreplied, List.append_nil]
  · exact hlate
  all_goals rw [Trace.asked_append, hasked, List.filter_singleton]
  · intro (hnone : command.replyKind = none)
    simpa [hnone] using hidle hpending
  · intro kind (hkind : command.replyKind = some kind)
    simpa [hkind] using hidle hpending

/-- What the codec takes for a reply is the reply that the board has given to the last question, and
nothing is on its way behind it. -/
private theorem Matches.found (h : u.Matches said before) {l l' : Link}
    (hlink : u.connection.link = some l) (hcodec : l'.codec = l.codec)
    (hinbound : l.incoming ++ before = l'.incoming ++ after) {reply : Reply} {left : Bytes}
    (hdecode : l'.codec.decode l'.incoming = .reply reply left) :
    said.map Prod.snd = u.events.replied.map Prod.snd ++ [reply] ∧ left ++ after = [] ∧
      u.events.asked.length = u.events.replied.length + 1 := by
  obtain ⟨⟨late, hlate, hbytes⟩, -, hwaiting⟩ := h.balance l hlink
  obtain ⟨hpending, hincoming⟩ := Codec.of_decode_reply hdecode
  obtain ⟨hlength, q, hlast, hkind⟩ := hwaiting reply.kind (hcodec ▸ hpending)
  rw [hinbound] at hbytes
  -- only one question has no reply yet, so one reply at most is on its way
  have hsaid : said.length ≤ u.events.asked.length := by
    simpa using h.said_asked.length_le
  have hcount : said.length = u.events.replied.length + late.length := by
    simpa using congrArg List.length hlate
  obtain ⟨r, rfl⟩ : ∃ r, late = [r] := by
    match late with
    | [] =>
      rw [hincoming] at hbytes
      exact absurd hbytes.symm (by cases reply <;> simp [Reply.wire])
    | [r] => exact ⟨r, rfl⟩
    | r :: r' :: late =>
      simp only [List.length_cons] at hcount
      omega
  have hall : said.map Prod.fst = u.events.asked.map Prod.snd :=
    h.said_asked.eq_of_length (by simp [hcount, hlength])
  -- and it has been given to the last question
  have hlate' := congrArg List.getLast? hlate
  rw [List.getLast?_map, List.getLast?_concat] at hlate'
  obtain ⟨p, hp, rfl⟩ := Option.map_eq_some_iff.mp hlate'
  have hquestion : p.1 = q.2 := by
    have hlast' := congrArg List.getLast? hall
    simpa [hp, hlast] using hlast'
  have hmem := List.mem_of_getLast? hp
  have hsame : reply.kind = p.2.kind := by
    rw [← hquestion, h.said_kind p hmem] at hkind
    exact (Option.some.inj hkind).symm
  -- so both are what stands at the front of the same bytes
  have hfound := ReplyKind.parse?_append (Codec.parse?_of_decode hdecode) after
  have hgiven := ReplyKind.parse?_wire (h.unbroken p hmem) []
  rw [← hbytes, hsame, List.flatMap_singleton] at hfound
  rw [List.append_nil, hfound] at hgiven
  obtain ⟨rfl, hnothing⟩ := Prod.mk.inj (Option.some.inj hgiven)
  exact ⟨hlate, hnothing, hlength⟩

/-- The question of a task that looks for its reply is the last one. -/
private theorem asked_of_awaits (hsound : u.Sound) {a : Action} {k : Caller} {rest : List Caller}
    {l l' : Link} (hline : u.connection.line = k :: rest) (hfrom : Connection.Awaits k l a l') :
    ∃ earlier command, u.events.asked = earlier ++ [(k.ticket, command)] := by
  have hk : k ∈ u.connection.line := hline ▸ List.mem_cons_self
  have hstage : k.stage = .writing ∨ k.stage = .reading := hfrom.isBusy
  obtain ⟨earlier, command, hcommand, hlast⟩ := hsound.orderly.encoded_last k hk hstage
  obtain ⟨command', hcall⟩ := hsound.request_of_awaits hline hfrom
  obtain rfl : command' = command := by
    rw [hcall] at hcommand
    exact Option.some.inj hcommand
  have hkind : command'.replyKind.isSome = true := by
    have hallowed := hsound.orderly.not_refused k hk
    rw [hcall] at hallowed
    cases hkind : command'.replyKind <;> simp_all [Call.refusal]
  refine ⟨earlier.filter (·.2.replyKind.isSome), command', ?_⟩
  change (u.encoded.filter _) = _
  rw [hlast, List.filter_append]
  simp [hkind]

/-- The reply of the task at the head is found. -/
private theorem Matches.replied (h : u.Matches said before) (hsound : u.Sound) {a : Action}
    {k : Caller} {rest : List Caller} {l l' : Link} (hline : u.connection.line = k :: rest)
    (hlink : u.connection.link = some l) (hfrom : Connection.Awaits k l a l')
    (hcodec : l'.codec = l.codec) (hinbound : l.incoming ++ before = l'.incoming ++ after)
    {reply : Reply} {left : Bytes} (hdecode : l'.codec.decode l'.incoming = .reply reply left)
    (hc : c.link = some (l'.answered left)) :
    Matches { u with
      connection := c
      events := u.events ++ [.settled k.ticket (.reply reply)] } said after := by
  obtain ⟨hsaid, hnothing, hlength⟩ := h.found hlink hcodec hinbound hdecode
  obtain ⟨earlier, command, hasked⟩ := asked_of_awaits hsound hline hfrom
  have hreplied : Trace.replied (u.events ++ [.settled k.ticket (.reply reply)]) =
      u.events.replied ++ [(k.ticket, reply)] := Trace.replied_append _ _
  have hsame : Trace.asked (u.events ++ [.settled k.ticket (.reply reply)]) = u.events.asked := by
    rw [Trace.asked_append]
    exact List.append_nil _
  have hbefore : u.events.replied.map Prod.fst = earlier.map Prod.fst := by
    have hprefix := h.replied_asked
    rw [hasked, List.map_append] at hprefix
    rw [hasked, List.length_append] at hlength
    refine (List.prefix_of_prefix_length_le hprefix (List.prefix_append _ _) ?_).eq_of_length ?_ <;>
      simp_all
  refine ⟨?_, h.said_kind, h.unbroken, ?_, ?_, fun l'' hl'' ↦ ?_⟩
  · rw [hsame]
    exact h.said_asked
  · rw [hreplied, hsame, hasked, List.map_append, List.map_append, hbefore]
    exact List.prefix_rfl
  · rw [hreplied, List.map_append, hsaid]
    exact List.prefix_rfl
  · obtain rfl := Option.some.inj (hc.symm.trans hl'')
    refine ⟨⟨[], ?_, ?_⟩, fun _ ↦ ?_, nofun⟩
    · rw [hreplied, hsaid, List.map_append, List.append_nil]
      rfl
    · exact hnothing.symm
    · rw [hsame, hreplied, hlength]
      simp

private theorem silent_of_admits {a : Action} {k : Caller} {l : Link} {pre : List Event}
    (hfrom : u.connection.Admits k l a pre) :
    Trace.settled pre = [] ∧ Trace.encoded pre = [] ∧ a.arrived = [] := by
  cases hfrom <;> exact ⟨rfl, rfl, rfl⟩

/-- One step of the connection leaves the books balanced. -/
theorem Matches.change {a : Action} (h : u.Matches said before) (hsound : u.Sound)
    (hone : u.connection.OneStream) (hbefore : before = a.arrived ++ after)
    (hreader : a.arrived = [] ∨ u.connection.reader?.isSome)
    (hchange : u.connection.Change a c events) :
    Matches { u with connection := c, events := u.events ++ events } said after := by
  have hquiet : ∀ {l l'}, events.replied = [] → events.asked = [] → u.connection.link = some l →
      c.link = some l' → l'.codec = l.codec → l.incoming ++ before = l'.incoming ++ after →
      Matches { u with connection := c, events := u.events ++ events } said after := by
    intro l l' hreplied hasked hlink hc hcodec hinbound
    refine h.quiet hreplied fun l'' hl'' ↦ ?_
    obtain rfl := Option.some.inj (hc.symm.trans hl'')
    exact (h.balance l hlink).quiet hreplied hasked hcodec hinbound
  have hgone : events.replied = [] → c.link = none →
      Matches { u with connection := c, events := u.events ++ events } said after :=
    fun hreplied hnone ↦ h.quiet hreplied fun l hl ↦ nomatch hnone.symm.trans hl
  have hsame : events.replied = [] → events.asked = [] → c.link = u.connection.link →
      a.arrived = [] →
        Matches { u with connection := c, events := u.events ++ events } said after := by
    intro hreplied hasked hlink harrived
    cases hl : u.connection.link with
    | none => exact hgone hreplied (hlink.trans hl)
    | some l =>
      refine hquiet hreplied hasked hl (hlink.trans hl) rfl ?_
      rw [hbefore, harrived, List.nil_append]
  cases hchange with
  | idle hidle => exact hsame rfl rfl rfl (Action.arrived_of_idle hidle hreader)
  | refused | queued | foundOpen | drains | abortsBusy => exact hsame rfl rfl rfl rfl
  | @foundClosed caller rest =>
    refine hgone ?_ rfl
    have hreply : caller.call.closedOutcome.reply? = none := by cases caller.call <;> rfl
    simp [Trace.replied, Event.settling?, hreply]
  | takesStream | breaks => exact hgone rfl rfl
  | deserts | abortsFree => exact hgone (Trace.replied_of_settled_nil (by simp)) rfl
  | @encodes a pre caller rest l l' command hline hlink hcall hfrom hsubmit =>
    obtain ⟨hsettled, hencoded, harrived⟩ := silent_of_admits hfrom
    rw [harrived, List.nil_append] at hbefore
    subst hbefore
    have hreplied : Trace.replied (pre ++ [.encoded caller.ticket command]) = [] := by
      rw [Trace.replied_append, Trace.replied_of_settled_nil hsettled]
      rfl
    refine h.quiet hreplied fun l'' hl'' ↦ ?_
    obtain rfl := Option.some.inj hl''
    have hnew : Trace.encoded (pre ++ [.encoded caller.ticket command]) =
        [(caller.ticket, command)] := by
      rw [Trace.encoded_append, hencoded]
      rfl
    exact (h.balance l hlink).encodes hsubmit hreplied hnew
  | @rejects a pre caller rest l command e hline hlink hcall hfrom hsubmit =>
    obtain ⟨hsettled, hencoded, harrived⟩ := silent_of_admits hfrom
    refine hsame ?_ ?_ rfl harrived
    · rw [Trace.replied_append, Trace.replied_of_settled_nil hsettled]
      rfl
    · rw [Trace.asked_append, Trace.asked_of_encoded_nil hencoded]
      rfl
  | @accepts caller rest l count hline hlink =>
    exact hquiet rfl rfl hlink rfl rfl (by rw [hbefore]; rfl)
  | sent => exact hsame rfl rfl rfl rfl
  | @replied a caller rest l l' reply left hline hlink hfrom hdecode =>
    obtain ⟨hcodec, hinbound⟩ := inbound_of_awaits hbefore hfrom
    exact h.replied hsound hline hlink hfrom hcodec hinbound hdecode rfl
  | @waits a caller rest l l' hline hlink hfrom hdecode =>
    obtain ⟨hcodec, hinbound⟩ := inbound_of_awaits hbefore hfrom
    exact hquiet rfl rfl hlink rfl hcodec hinbound
  | @misreads a caller rest l l' e hline hlink hfrom hdecode =>
    obtain ⟨hcodec, hinbound⟩ := inbound_of_awaits hbefore hfrom
    exact hquiet rfl rfl hlink rfl hcodec hinbound
  | retires =>
    exact hsame (Trace.replied_of_settled_nil (by simp)) (Trace.asked_of_encoded_nil (by simp)) rfl
      rfl
  | closerAccepts hk | closerShuts hk | closerWaits hk | closerEnds hk =>
    exact hgone rfl (hone.link_eq_none hk)

theorem Matches.turn (h : u.Matches said toHost) (hsound : u.Sound) (hone : u.connection.OneStream)
    {turn : Turn} (hquiet : ∀ a, turn = .act a → a.arrived = []) :
    (u.step turn).Matches said toHost := by
  cases turn with
  | call call =>
    have hchange := u.connection.change_step (.enter u.calls.length call)
    have hbooks := h.change hsound hone rfl (.inl rfl) hchange
    exact ⟨hbooks.said_asked, hbooks.said_kind, hbooks.unbroken, hbooks.replied_asked,
      hbooks.replied_said, fun l hl ↦ ⟨(hbooks.balance l hl).on_the_way, (hbooks.balance l hl).idle,
        (hbooks.balance l hl).waiting⟩⟩
  | act a =>
    have hbooks := h.change hsound hone (by rw [hquiet a rfl]; rfl)
      (.inl (hquiet a rfl)) (u.connection.change_step a)
    cases a with
    | enter => exact h
    | _ => exact hbooks

theorem Matches.say (h : u.Matches said toHost) {command : Command} {reply : Reply}
    (hasked : (said ++ [(command, reply)]).map Prod.fst <+: u.events.asked.map Prod.snd)
    (hkind : command.replyKind = some reply.kind)
    (hunbroken : ∀ data, reply = .string data → Code.terminator ∉ data) :
    u.Matches (said ++ [(command, reply)]) (toHost ++ reply.wire) where
  said_asked := hasked
  said_kind p hp := (List.mem_append.mp hp).elim (h.said_kind p) fun hnew ↦ by
    rw [List.mem_singleton.mp hnew]
    exact hkind
  unbroken p hp := (List.mem_append.mp hp).elim (h.unbroken p) fun hnew ↦ by
    rw [List.mem_singleton.mp hnew]
    exact hunbroken
  replied_asked := h.replied_asked
  replied_said := by
    rw [List.map_append]
    exact h.replied_said.trans (List.prefix_append _ _)
  balance l hl := by
    obtain ⟨⟨late, hlate, hbytes⟩, hidle, hwaiting⟩ := h.balance l hl
    refine ⟨⟨late ++ [reply], ?_, ?_⟩, hidle, hwaiting⟩
    · rw [List.map_append, hlate, List.append_assoc]
      rfl
    · rw [List.flatMap_append, hbytes, List.append_assoc]
      simp

/-! ## What the books tell -/

private theorem getElem?_of_prefix {α : Type} {xs ys : List α} {i : Nat} {x : α} (h : xs <+: ys)
    (hx : xs[i]? = some x) : ys[i]? = some x := by
  obtain ⟨more, rfl⟩ := h
  exact getElem?_append_of_some hx more

/-- Entries that stand at the same place of three lists, sorted out by what they are about. -/
private theorem filter_prefix_of_zip {α β γ : Type} {mine : α → Bool} {about : γ → Bool}
    {replied : List (α × β)} {asked : List (α × γ)} {said : List (γ × β)}
    (hasked : replied.map Prod.fst <+: asked.map Prod.fst)
    (hsaid : said.map Prod.fst <+: asked.map Prod.snd)
    (hreplied : replied.map Prod.snd <+: said.map Prod.snd)
    (hsame : ∀ p ∈ asked, mine p.1 = about p.2) :
    (replied.filter (mine ·.1)).map Prod.snd <+: (said.filter (about ·.1)).map Prod.snd := by
  induction replied generalizing asked said with
  | nil => exact List.nil_prefix
  | cons r replied ih =>
    match asked, said with
    | [], _ => simp at hasked
    | _ :: _, [] => simp at hreplied
    | q :: asked, s :: said =>
      simp only [List.map_cons, List.cons_prefix_cons] at hasked hsaid hreplied
      have hrest := ih hasked.2 hsaid.2 hreplied.2 fun p hp ↦ hsame p (List.mem_cons_of_mem _ hp)
      have hfirst : mine r.1 = about s.1 := by
        rw [hasked.1, hsaid.1]
        exact hsame q List.mem_cons_self
      rw [List.filter_cons, List.filter_cons, hfirst]
      split
      · simpa [hreplied.1] using hrest
      · exact hrest

/-- The replies to some of the questions are the first replies that the board has given to
these. -/
theorem Matches.filter_prefix (h : u.Matches said toHost) (mine : Ticket → Bool)
    (about : Command → Bool) (hsame : ∀ p ∈ u.events.asked, mine p.1 = about p.2) :
    (u.events.replied.filter (mine ·.1)).map Prod.snd <+:
      (said.filter (about ·.1)).map Prod.snd :=
  filter_prefix_of_zip h.replied_asked h.said_asked h.replied_said hsame

/-- A reply has been given to the question of its call. -/
theorem Matches.own (h : u.Matches said toHost) {t : Ticket} {reply : Reply}
    (hreplied : (t, reply) ∈ u.events.replied) :
    ∃ command, (t, command) ∈ u.events.asked ∧ (command, reply) ∈ said := by
  obtain ⟨i, hi⟩ := List.mem_iff_getElem?.mp hreplied
  have hasked := getElem?_of_prefix (i := i) (x := t) h.replied_asked (by simp [hi])
  have hsaid := getElem?_of_prefix (i := i) (x := reply) h.replied_said (by simp [hi])
  rw [List.getElem?_map] at hasked hsaid
  obtain ⟨q, hq, rfl⟩ := Option.map_eq_some_iff.mp hasked
  obtain ⟨p, hp, rfl⟩ := Option.map_eq_some_iff.mp hsaid
  have hsame := getElem?_of_prefix (i := i) (x := p.1) h.said_asked (by simp [hp])
  rw [List.getElem?_map, hq] at hsame
  refine ⟨q.2, List.mem_of_getElem? hq, ?_⟩
  rw [Option.some.inj hsame]
  exact List.mem_of_getElem? hp

end Usage

end PinballBoard
