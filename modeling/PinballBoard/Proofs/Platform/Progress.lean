import Mathlib.Data.Prod.Lex
import PinballBoard.Proofs.Link.Progress
import PinballBoard.Proofs.Platform.Calm

/-!
# What a call waits for

Where nothing goes wrong, nothing keeps a call from its end for good. At each moment somebody has
something to do (`HostAndBoard.urgent`), and what a call still has to wait for is counted by
`HostAndBoard.remoteness`: the stages of those that stand in front, the bytes to be written, the
commands that the board has not read, and the bytes that the stream has not brought, in this order
of importance.

`HostAndBoard.Calm.nears` says of every smooth step that the call comes nearer to its end, or that
it stays as near as it was and what is urgent has not been done and is urgent still. So it is enough
that everybody does his duty now and then. The poll loop may ask as often as it likes, since it has
to stand in line behind the call.
-/

namespace PinballBoard

/-- What somebody has to do, now and then, if anything is to come to its end. -/
inductive Duty where
  /-- The program gets on. -/
  | go
  /-- The task that has got the lock runs. -/
  | proceed
  /-- The stream takes bytes. -/
  | accept
  /-- The stream passes on what it has taken. -/
  | flush
  /-- The board reads a command. -/
  | hear
  /-- The stream brings bytes. -/
  | bring
  /-- Time passes. -/
  | elapse

namespace HostAndBoard

open Connection

variable {β : Type}

/-- What is urgent for the task at the head, or for the one that ends the stream. -/
def urgent (g : HostAndBoard β) : Duty :=
  match g.watch.usage.connection.line with
  | [] => .elapse
  | k :: _ =>
    match k.stage with
    | .waiting => .proceed
    | .draining | .writing =>
      if g.watch.usage.connection.unsent?.getD [] = [] then .flush else .accept
    | .reading => if g.heard.length < g.watch.usage.encoded.length then .hear else .bring

theorem urgent_ne_go (g : HostAndBoard β) : g.urgent ≠ .go := by
  unfold urgent
  split
  · simp
  · split
    · simp
    · split <;> simp
    · split <;> simp
    · split <;> simp

/-- How far a call is from its end. -/
def remoteness (g : HostAndBoard β) (t : Ticket) : ℕ ×ₗ ℕ ×ₗ ℕ ×ₗ ℕ :=
  toLex (left t g.watch.usage.connection.line,
    toLex ((g.watch.usage.connection.unsent?.getD []).length,
      toLex (g.watch.usage.encoded.length - g.heard.length, g.toHost.length)))

variable {good : β → Prop} {i : Identity} {g : HostAndBoard β} {t : Ticket} {k : Caller}
  {rest : List Caller} {l : Link}

/-! ## What is urgent can be done -/

/-- Who stands in line has a command. -/
theorem Calm.command_of_head (h : g.Calm good i)
    (hline : g.watch.usage.connection.line = k :: rest) :
    ∃ command, k.call.command? = some command := by
  have hcall := h.linked.sound.orderly.call_of k (hline ▸ List.mem_cons_self)
  exact Option.ne_none_iff_exists'.mp (h.smooth.order _ (List.mem_of_getElem? hcall)).1

/-- The codec waits for the reply for which the task at the head does. -/
private theorem Calm.pending_of_reading (h : g.Calm good i)
    (hline : g.watch.usage.connection.line = k :: rest) (hstage : k.stage = .reading)
    (hlink : g.watch.usage.connection.link = some l) : l.codec.pending ≠ none := by
  intro hpending
  have hsound := h.linked.sound
  have hk : k ∈ g.watch.usage.connection.line := hline ▸ List.mem_cons_self
  obtain ⟨earlier, command, hcommand, hencoded⟩ :=
    hsound.orderly.encoded_last k hk (.inr hstage)
  obtain ⟨command', hcall⟩ := hsound.orderly.reading_request k hk hstage
  have hkind : command.replyKind.isSome := by
    have haccepted := hsound.orderly.not_refused k hk
    rw [hcall] at hcommand haccepted
    cases hcommand
    cases hkind : command.replyKind with
    | none => simp [Call.refusal, hkind] at haccepted
    | some kind => rfl
  -- else all questions would have got their replies, and his is one
  have hasked : (k.ticket, command) ∈ g.watch.usage.events.asked := by
    refine List.mem_filter.mpr ⟨?_, hkind⟩
    change _ ∈ g.watch.usage.encoded
    rw [hencoded]
    exact List.mem_append_right _ (List.mem_singleton_self _)
  have hall : g.watch.usage.events.replied.map Prod.fst =
      g.watch.usage.events.asked.map Prod.fst := by
    refine h.books.replied_asked.eq_of_length ?_
    rw [List.length_map, List.length_map, (h.books.balance l hlink).idle hpending]
  have hreplied : k.ticket ∈ g.watch.usage.events.replied.map Prod.fst := by
    rw [hall]
    exact List.mem_map_of_mem hasked
  obtain ⟨⟨t, reply⟩, hp, rfl⟩ := List.mem_map.mp hreplied
  obtain ⟨⟨t, outcome⟩, hsettled, hreply⟩ := List.mem_filterMap.mp hp
  obtain ⟨reply, -, heq⟩ := Option.map_eq_some_iff.mp hreply
  cases heq
  exact (hsound.settled_gone _ outcome (Trace.mem_settled.mp hsettled)).2 k hk rfl

/-- While a task reads, all that it has written is on its way to the board. -/
theorem Calm.written_eq (h : g.Calm good i)
    (hline : g.watch.usage.connection.line = k :: rest) (hstage : k.stage = .reading)
    (hlink : g.watch.usage.connection.link = some l) :
    g.watch.usage.written = g.watch.usage.frames := by
  have hempty := h.linked.framed.flushed k (hline ▸ List.mem_cons_self) hstage l hlink
  have hunsent := h.linked.framed.unsent l.outgoing (unsent?_of_link hlink)
  rwa [hempty, List.append_nil] at hunsent

/-- If there is a command that the board has not read, it can read one. -/
theorem Calm.exists_front (h : g.Calm good i)
    (hwritten : g.watch.usage.written = g.watch.usage.frames)
    (hbehind : g.heard.length < g.watch.usage.encoded.length) :
    ∃ command : Command, command.HasFrame ∧ command.frame <+: g.toBoard := by
  obtain ⟨unheard, horder, -⟩ := h.expects
  cases unheard with
  | nil =>
    rw [List.append_nil] at horder
    have hsame := congrArg List.length horder
    rw [List.length_map, List.length_map] at hsame
    exact absurd hsame (Nat.ne_of_lt hbehind)
  | cons command unheard =>
    have hmem : command ∈ g.watch.usage.encoded.map Prod.snd := by simp [← horder]
    obtain ⟨p, hp, rfl⟩ := List.mem_map.mp hmem
    refine ⟨p.2, h.linked.framed.hasFrame p hp, ?_⟩
    have hall : g.watch.usage.frames = Command.frames (g.heard.map Prod.fst) ++
        Command.frames (p.2 :: unheard) := by
      rw [← Command.frames_append, horder]
      rfl
    rw [toBoard, hwritten, hall, List.drop_left]
    exact List.prefix_append _ _

/-- If the board has read all commands, what a task waits for is on its way. -/
theorem Calm.toHost_ne_nil (h : g.Calm good i)
    (hline : g.watch.usage.connection.line = k :: rest) (hstage : k.stage = .reading)
    (hlink : g.watch.usage.connection.link = some l)
    (hread : ¬g.heard.length < g.watch.usage.encoded.length) : g.toHost ≠ [] := by
  intro hnothing
  have hincomplete := h.smooth.looked k (hline ▸ List.mem_cons_self) hstage l hlink
  obtain ⟨unheard, horder, hexpects⟩ := h.expects
  obtain rfl : unheard = [] := by
    have hsame := congrArg List.length horder
    rw [List.length_append, List.length_map, List.length_map] at hsame
    exact List.eq_nil_of_length_eq_zero (by omega)
  have hexpecting := hexpects l hlink
  rw [hnothing, List.append_nil] at hexpecting
  generalize hinbound : l.incoming = inbound at hexpecting
  cases hexpecting with
  | nothing hpending => exact h.pending_of_reading hline hstage hlink hpending
  | unasked _ _ _ _ _ hunheard => simp at hunheard
  | @coming _ _ _ _ reply _ _ _ hpending hfits =>
    have hdecode : l.codec.decode l.incoming = .reply reply [] := by
      refine Codec.decode_of_parse? hpending ?_
      rw [hinbound, ← List.append_nil reply.wire]
      refine ReplyKind.parse?_wire ?_ []
      rintro data rfl
      simp only [Reply.fits, Bool.and_eq_true, decide_eq_true_eq] at hfits
      exact hfits.2
    rw [hincomplete] at hdecode
    cases hdecode

/-! ## A call comes nearer to its end -/

private theorem same_of_usage_eq (g' : HostAndBoard β) (husage : g'.watch.usage = g.watch.usage)
    (hheard : g'.heard = g.heard) (htoHost : g'.toHost = g.toHost) :
    g'.remoteness t = g.remoteness t ∧ g'.urgent = g.urgent := by
  rw [remoteness, urgent, husage, hheard, htoHost]
  exact ⟨rfl, rfl⟩

private theorem Calm.nearer_of_act (h : g.Calm good i) (g' : HostAndBoard β)
    (hline : g.watch.usage.connection.line = k :: rest)
    (hlink : g.watch.usage.connection.link = some l) (hk : k.ticket ≤ t) {a : Action}
    (ha : a.isSmooth) (husage : g'.watch.usage = g.watch.usage.act a) (hheard : g'.heard = g.heard)
    (htoHost : g'.toHost.length ≤ g.toHost.length) :
    g'.remoteness t < g.remoteness t ∨
      g'.remoteness t = g.remoteness t ∧ g'.urgent = g.urgent ∧
        g'.toHost.length = g.toHost.length ∧ ¬Needs k l a := by
  obtain ⟨command, hcall⟩ := h.command_of_head hline
  have hencoded := g.watch.usage.encoded_act a
  have hconnection : g'.watch.usage.connection = (g.watch.usage.connection.step a).1 := by
    rw [husage]
    rfl
  have hunsent : g.watch.usage.connection.unsent?.getD [] = l.outgoing := by
    rw [unsent?_of_link hlink, Option.getD_some]
  rw [← husage] at hencoded
  obtain hprogress | ⟨l', hstep, hsilent, hwrites⟩ := progress_or_stays hline hlink
    h.smooth.not_aborted h.smooth.closer_eq hcall ha
  · refine .inl ?_
    rw [remoteness, remoteness, Prod.Lex.toLex_lt_toLex, hconnection, hline]
    exact .inl (hprogress.left_lt hk)
  have hsame : g'.watch.usage.connection.line = g.watch.usage.connection.line := by
    rw [hconnection, hstep]
  have hunsent' : g'.watch.usage.connection.unsent?.getD [] = l'.outgoing := by
    rw [hconnection, hstep, unsent?_of_link rfl, Option.getD_some]
  rw [hsilent, List.append_nil] at hencoded
  rw [remoteness, remoteness, urgent, urgent, hsame, hencoded, hheard, hunsent, hunsent']
  simp only [Prod.Lex.toLex_lt_toLex, lt_self_iff_false, true_and, false_or]
  rcases hwrites with hless | ⟨hsame', hneeds⟩
  · exact .inl (.inl hless)
  rcases Nat.lt_or_eq_of_le htoHost with hless | heq
  · exact .inl (.inr ⟨by rw [hsame'], hless⟩)
  · refine .inr ⟨?_, ?_, heq, hneeds⟩ <;> rw [hsame']
    rw [heq]

private theorem same_of_call (g' : HostAndBoard β)
    (hline : g.watch.usage.connection.line = k :: rest) (ht : t < g.watch.usage.calls.length)
    {call : Call} (hcall : call.refusal = none)
    (husage : g'.watch.usage = g.watch.usage.step (.call call)) (hheard : g'.heard = g.heard)
    (htoHost : g'.toHost = g.toHost) :
    g'.remoteness t = g.remoteness t ∧ g'.urgent = g.urgent := by
  rw [Usage.step_call_of_not_refusal hcall] at husage
  constructor
  · rw [remoteness, remoteness, husage, hheard, htoHost]
    dsimp only
    rw [left_append_of_lt _ ht]
    rfl
  · rw [urgent, urgent, husage, hheard]
    dsimp only
    rw [hline]
    rfl

/-! ## Doing what is urgent -/

variable [Responder β]

/-- Whether a step does a duty. Where there is no command to be read, nothing has to be done about
it. -/
def Does (g : HostAndBoard β) : Duty → Step β → Prop
  | .go, _ => False
  | .proceed, step => step = .move (.link .proceed)
  | .accept, step => ∃ count, count ≠ 0 ∧ step = .move (.link (.accept count))
  | .flush, step => step = .move (.link .flush)
  | .hear, step => ∀ command : Command, command.HasFrame → command.frame <+: g.toBoard →
      step = .hear command
  | .bring, step => ∃ count, count ≠ 0 ∧ step = .bring count
  | .elapse, step => ∃ ms, ms ≠ 0 ∧ step = .move (.elapse ms)

private theorem Calm.of_does (h : g.Calm good i)
    (hline : g.watch.usage.connection.line = k :: rest)
    (hlink : g.watch.usage.connection.link = some l) {step : Step β}
    (hdoes : g.Does g.urgent step) :
    (∃ a, Needs k l a ∧ step = .move (.link a)) ∨
      (∃ command : Command, command.HasFrame ∧ command.frame <+: g.toBoard ∧
        step = .hear command) ∨
      k.stage = .reading ∧ g.toHost ≠ [] ∧ ∃ count, count ≠ 0 ∧ step = .bring count := by
  have hunsent : g.watch.usage.connection.unsent?.getD [] = l.outgoing := by
    rw [unsent?_of_link hlink, Option.getD_some]
  have hwrites : k.stage = .draining ∨ k.stage = .writing →
      ∃ a, Needs k l a ∧ step = .move (.link a) := by
    intro hstage
    by_cases hempty : l.outgoing = []
    · have hurgent : g.urgent = .flush := by
        rcases hstage with hstage | hstage <;> simp [urgent, hline, hstage, hunsent, hempty]
      rw [hurgent] at hdoes
      exact ⟨_, .flush hstage hempty, hdoes⟩
    · have hurgent : g.urgent = .accept := by
        rcases hstage with hstage | hstage <;> simp [urgent, hline, hstage, hunsent, hempty]
      rw [hurgent] at hdoes
      obtain ⟨count, -, rfl⟩ := hdoes
      exact ⟨_, .accept hstage hempty, rfl⟩
  cases hstage : k.stage with
  | waiting =>
    have hurgent : g.urgent = .proceed := by simp [urgent, hline, hstage]
    rw [hurgent] at hdoes
    exact .inl ⟨_, .proceed hstage, hdoes⟩
  | draining => exact .inl (hwrites (.inl hstage))
  | writing => exact .inl (hwrites (.inr hstage))
  | reading =>
    by_cases hbehind : g.heard.length < g.watch.usage.encoded.length
    · have hurgent : g.urgent = .hear := by simp [urgent, hline, hstage, hbehind]
      rw [hurgent] at hdoes
      obtain ⟨command, hframe, hfront⟩ :=
        h.exists_front (h.written_eq hline hstage hlink) hbehind
      exact .inr (.inl ⟨command, hframe, hfront, hdoes command hframe hfront⟩)
    · have hurgent : g.urgent = .bring := by simp [urgent, hline, hstage, hbehind]
      rw [hurgent] at hdoes
      exact .inr (.inr ⟨rfl, h.toHost_ne_nil hline hstage hlink hbehind, hdoes⟩)

/-! ## A step brings a call nearer to its end -/

/-- With a step a call comes nearer to its end, or it stays as near as it was, and what is urgent
has not been done and is urgent still. -/
def Nears (g : HostAndBoard β) (t : Ticket) (step : Step β) : Prop :=
  (g.step step).remoteness t < g.remoteness t ∨
    (g.step step).remoteness t = g.remoteness t ∧ (g.step step).urgent = g.urgent ∧
      ¬g.Does g.urgent step

private theorem Calm.nears_move (h : g.Calm good i)
    (hline : g.watch.usage.connection.line = k :: rest)
    (hlink : g.watch.usage.connection.link = some l) (hk : k.ticket ≤ t)
    (ht : t < g.watch.usage.calls.length) {move : Move} (hmove : move.isSmooth) :
    g.Nears t (.move move) := by
  -- what is urgent for the task at the head is an action of the stream
  have hurges : g.Does g.urgent (.move move) → ∃ a, Needs k l a ∧ move = .link a := by
    intro hdoes
    obtain ⟨a, hneeds, heq⟩ | ⟨_, _, _, heq⟩ | ⟨_, _, _, _, heq⟩ := h.of_does hline hlink hdoes <;>
      cases heq
    exact ⟨a, hneeds, rfl⟩
  rw [Nears]
  by_cases hfree : move.isFree = true
  · let g' : HostAndBoard β := { g with watch := g.watch.step move }
    have hstep : g.step (.move move) = g' := if_pos hfree
    have husage : g'.watch.usage =
        ((g.watch.session.turn? move).map g.watch.usage.step).getD g.watch.usage := rfl
    have hacts : g.Does g.urgent (.move move) → ∃ a, Needs k l a ∧
        g.watch.session.turn? move = some (.act a) := by
      intro hdoes
      obtain ⟨a, hneeds, rfl⟩ := hurges hdoes
      exact ⟨a, hneeds, if_pos (by cases hneeds <;> rfl)⟩
    rw [hstep]
    rcases turn?_of_isSmooth (s := g.watch.session) hmove with hnone | ⟨-, hpoll⟩ | ⟨a, ha, hact⟩
    · rw [hnone] at husage hacts
      obtain ⟨hsame, hurgent⟩ := same_of_usage_eq g' husage rfl rfl
      refine .inr ⟨hsame, hurgent, fun hdoes ↦ ?_⟩
      obtain ⟨_, -, hturn⟩ := hacts hdoes
      cases hturn
    · rw [hpoll] at husage hacts
      obtain ⟨hsame, hurgent⟩ := same_of_call g' hline ht rfl husage rfl rfl
      refine .inr ⟨hsame, hurgent, fun hdoes ↦ ?_⟩
      obtain ⟨_, -, hturn⟩ := hacts hdoes
      cases hturn
    · rw [hact] at husage hacts
      have henter : ∀ t call, a ≠ .enter t call := by
        rintro t call rfl
        cases ha
      rw [Option.map_some, Option.getD_some, Usage.step_act henter] at husage
      refine (h.nearer_of_act g' hline hlink hk ha husage rfl (Nat.le_refl _)).imp_right ?_
      rintro ⟨hsame, hurgent, -, hneeds⟩
      refine ⟨hsame, hurgent, fun hdoes ↦ hneeds ?_⟩
      obtain ⟨a', hneeds', hturn⟩ := hacts hdoes
      cases hturn
      exact hneeds'
  · have hstep : g.step (.move move) = g := if_neg hfree
    rw [hstep]
    refine .inr ⟨rfl, rfl, fun hdoes ↦ hfree ?_⟩
    obtain ⟨a, hneeds, rfl⟩ := hurges hdoes
    cases hneeds <;> rfl

private theorem Calm.nears_bring (h : g.Calm good i)
    (hline : g.watch.usage.connection.line = k :: rest)
    (hlink : g.watch.usage.connection.link = some l) (hk : k.ticket ≤ t) (count : Nat) :
    g.Nears t (.bring count) := by
  have hbrings : g.Does g.urgent (.bring count) →
      k.stage = .reading ∧ g.toHost ≠ [] ∧ count ≠ 0 := by
    intro hdoes
    obtain ⟨_, _, heq⟩ | ⟨_, _, _, heq⟩ | ⟨hstage, hcoming, _, hcount, heq⟩ :=
      h.of_does hline hlink hdoes <;> cases heq
    exact ⟨hstage, hcoming, hcount⟩
  rw [Nears]
  by_cases hreader : g.watch.session.connection.reader?.isSome
  · let g' : HostAndBoard β :=
      { g with
        watch := g.watch.step (.link (.receive (g.toHost.take count)))
        toHost := g.toHost.drop count }
    have hstep : g.step (.bring count) = g' := if_pos hreader
    have hlength : g'.toHost.length = g.toHost.length - count := List.length_drop
    rw [hstep]
    refine (h.nearer_of_act g' hline hlink hk (a := .receive (g.toHost.take count)) rfl rfl rfl
      (by omega)).imp_right ?_
    rintro ⟨hsame, hurgent, hall, -⟩
    refine ⟨hsame, hurgent, fun hdoes ↦ ?_⟩
    obtain ⟨-, hcoming, hcount⟩ := hbrings hdoes
    have hpos := List.length_pos_iff.mpr hcoming
    omega
  · have hstep : g.step (.bring count) = g := if_neg hreader
    rw [hstep]
    refine .inr ⟨rfl, rfl, fun hdoes ↦ hreader ?_⟩
    rw [h.linked.connection_eq, reader?, hline, hlink]
    simp [(hbrings hdoes).1]

private theorem Calm.nears_hear (h : g.Calm good i)
    (hline : g.watch.usage.connection.line = k :: rest)
    (hlink : g.watch.usage.connection.link = some l) (t : Ticket) (command : Command) :
    g.Nears t (.hear command) := by
  rw [Nears]
  by_cases hfront : command.HasFrame ∧ command.frame <+: g.toBoard
  · obtain ⟨unheard, horder, -⟩ := h.expects
    obtain ⟨⟨more, rfl⟩, -⟩ :=
      h.linked.framed.next_heard h.heard_written horder hfront.1 hfront.2
    have hlength := congrArg List.length horder
    rw [List.length_append, List.length_map, List.length_map, List.length_cons] at hlength
    rw [step_hear hfront, remoteness, remoteness]
    refine .inl ?_
    simp only [Prod.Lex.toLex_lt_toLex, lt_self_iff_false, true_and, false_or,
      List.length_append, List.length_singleton]
    omega
  · have hstep : g.step (.hear command) = g := if_neg hfront
    rw [hstep]
    refine .inr ⟨rfl, rfl, fun hdoes ↦ hfront ?_⟩
    obtain ⟨_, _, heq⟩ | ⟨_, hframe, hprefix, heq⟩ | ⟨_, _, _, _, heq⟩ :=
      h.of_does hline hlink hdoes <;> cases heq
    exact ⟨hframe, hprefix⟩

/-- **Nothing keeps a call from its end for good.** -/
theorem Calm.nears (h : g.Calm good i)
    (hwaits : ∃ k ∈ g.watch.usage.connection.line, k.ticket = t) {step : Step β}
    (hsmooth : step.isSmooth) : g.Nears t step := by
  obtain ⟨k', hk', rfl⟩ := hwaits
  have horderly := h.linked.sound.orderly
  have ht := horderly.ticket_lt hk'
  obtain ⟨l, hlink⟩ := Option.ne_none_iff_exists'.mp h.smooth.link_ne_none
  obtain ⟨k, rest, hline⟩ := List.exists_cons_of_ne_nil (List.ne_nil_of_mem hk')
  have hk := horderly.head_le hline hk'
  cases step with
  | move move => exact h.nears_move hline hlink hk ht hsmooth
  | bring count => exact h.nears_bring hline hlink hk count
  | hear command => exact h.nears_hear hline hlink _ command
  | incident incident =>
    obtain ⟨hsame, hurgent⟩ := same_of_usage_eq (g.step (.incident incident)) rfl rfl rfl
    refine .inr ⟨hsame, hurgent, fun hdoes ↦ ?_⟩
    obtain ⟨_, _, heq⟩ | ⟨_, _, _, heq⟩ | ⟨_, _, _, _, heq⟩ := h.of_does hline hlink hdoes <;>
      cases heq

end HostAndBoard

end PinballBoard
