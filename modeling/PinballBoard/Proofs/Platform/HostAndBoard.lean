import PinballBoard.Proofs.Link.Matching
import PinballBoard.Proofs.Platform.Shutdown

/-!
# A host and a board

`Watch` has a host without a board: the stream brings whatever it likes. Here a board stands at the
other end. What the stream has taken lies before the board, which reads one frame after the other
off its front and answers; what it answers is on its way for any time and arrives in pieces of any
size. All this happens in any order with everything that happens to the host, so there is no moment
at which the two ends of the stream have to agree on anything.

What a board is does not matter here. It has a state, answers commands, and things happen to it
(`Responder`). `Faithful` says what the host relies on: a question is replied to, by a reply of the
right shape whose string ends where it ends.
-/

namespace PinballBoard

/-- Whatever reads commands and answers them. -/
class Responder (β : Type) where
  /-- What else can happen to it. -/
  Incident : Type
  /-- It reads a command and answers, or does not. -/
  answer : β → Command → β × Option Reply
  incur : β → Incident → β

/-- What the host relies on, of boards that are in order in some sense and stay so. -/
structure Responder.Faithful {β : Type} [Responder β] (good : β → Prop) : Prop where
  answer : ∀ b c, good b → good (Responder.answer b c).1
  incur : ∀ b i, good b → good (Responder.incur b i)
  kind : ∀ b c, good b → (Responder.answer b c).2.map Reply.kind = c.replyKind
  unbroken : ∀ b c data, good b → (Responder.answer b c).2 = some (.string data) →
    Code.terminator ∉ data

/-- A call that is not one of the poll loop, which alone asks what has changed. -/
def Call.IsFree (call : Call) : Prop := call.command? ≠ some .pollChanges

/-- Whatever the calls of a task end with, as long as it is allowed, they are calls of this kind,
and this is true of the calls that it makes and of its result. -/
def Dialogue.Yields {σ α : Type} (kind : Call → Prop) (allowed : Call → Outcome → Prop) :
    (List Call → α → Prop) → Dialogue σ α → Prop
  | P, done _ result => P [] result
  | P, ask _ call next =>
    kind call ∧ ∀ outcome, allowed call outcome →
      (next outcome).Yields kind allowed fun calls ↦ P (call :: calls)

namespace Dialogue

variable {σ τ α β : Type} {kind : Call → Prop} {allowed : Call → Outcome → Prop}
  {P P' : List Call → α → Prop} {Q : List Call → β → Prop} {d : Dialogue σ α}

theorem Yields.mono (h : d.Yields kind allowed P)
    (hP : ∀ calls result, P calls result → P' calls result) : d.Yields kind allowed P' := by
  induction d generalizing P P' with
  | done state result => exact hP [] result h
  | ask state call next ih =>
    refine ⟨h.1, fun outcome hallowed ↦ ih outcome (h.2 outcome hallowed) ?_⟩
    exact fun calls ↦ hP (call :: calls)

theorem Yields.view (h : d.Yields kind allowed P) (f : σ → τ) :
    (d.view f).Yields kind allowed P := by
  induction d generalizing P with
  | done state result => exact h
  | ask state call next ih => exact ⟨h.1, fun outcome hallowed ↦ ih outcome (h.2 outcome hallowed)⟩

theorem Yields.andThen (h : d.Yields kind allowed P) {k : σ → α → Dialogue σ β}
    (hk : ∀ state calls result, P calls result →
      (k state result).Yields kind allowed fun more ↦ Q (calls ++ more)) :
    (d.andThen k).Yields kind allowed Q := by
  induction d generalizing P Q with
  | done state result => exact hk state [] result h
  | ask state call next ih =>
    refine ⟨h.1, fun outcome hallowed ↦ ih outcome (h.2 outcome hallowed) ?_⟩
    exact fun state calls ↦ hk state (call :: calls)

end Dialogue

namespace Handshake

variable {kind : Call → Prop} {allowed : Call → Outcome → Prop}

/-- A course asks the questions of its script, and what it finds out follows from replies that are
allowed. -/
theorem Follows.yields {script : List (HandshakeStage × Command)}
    {found : List Reply → Discovery → Prop} {course : Course} (h : Follows script found course)
    (hscript : ∀ q ∈ script, kind (.request q.2)) :
    course.Yields kind allowed fun calls result ↦ ∀ discovery, result = .ok discovery →
      calls = script.map (fun q ↦ .request q.2) ∧ ∃ replies, found replies discovery ∧
        List.Forall₂ (fun q reply ↦ allowed (.request q.2) (.reply reply)) script replies := by
  induction h with
  | runs hfound =>
    rintro discovery ⟨⟩
    exact ⟨rfl, [], hfound, .nil⟩
  | @asks α stage command _ read tell next script found hkind hread hnext ih =>
    refine ⟨hscript _ List.mem_cons_self, fun outcome hallowed ↦ ?_⟩
    dsimp only
    split
    · rename_i answer hanswer
      obtain ⟨reply, hreply, hvalue⟩ :
          ∃ reply, outcome = .reply reply ∧ read reply = .ok answer := by
        cases outcome <;> first | cases hanswer | exact ⟨_, rfl, hanswer⟩
      subst hreply
      obtain rfl := (hread.ok_iff reply answer).mp hvalue
      refine (ih answer fun q hq ↦ hscript q (List.mem_cons_of_mem _ hq)).mono ?_
      intro calls result hresult discovery hok
      obtain ⟨rfl, replies, hfound, hreplies⟩ := hresult discovery hok
      exact ⟨rfl, _, hfound, .cons hallowed hreplies⟩
    · exact fun discovery hok ↦ nomatch hok

end Handshake

/-- Whether a move can be made as it is: what arrives is the board's affair, and only the poll loop
asks what has changed. -/
def Move.isFree : Move → Bool
  | .link (.receive _) => false
  | .call c => c.command? != some .pollChanges
  | _ => true

/-- A host and a board. -/
structure HostAndBoard (β : Type) where
  watch : Watch
  board : β
  /-- The commands that the board has read, with its answers, oldest first. -/
  heard : List (Command × Option Reply)
  /-- What the board has sent and the stream has not brought yet. -/
  toHost : Bytes

namespace HostAndBoard

/-- The replies to those who have asked what has changed. -/
def pollReplies (said : List (Command × Reply)) : List Reply :=
  (said.filter fun p ↦ decide (p.1 = .pollChanges)).map Prod.snd

variable {β : Type}

section Steps

variable [Responder β]

/-- What can happen. -/
inductive Step (β : Type) [Responder β] where
  /-- Anything that can happen to the host. -/
  | move (move : Move)
  /-- The stream brings this many bytes to a task that reads. -/
  | bring (count : Nat)
  /-- The board reads a frame and answers. -/
  | hear (command : Command)
  /-- Something happens to the board. -/
  | incident (incident : Responder.Incident β)

/-- A host with a stream that has just been opened, and a board. -/
def fresh (peer : String) (board : β) : HostAndBoard β := ⟨.fresh peer, board, [], []⟩

/-- The questions that the board has been asked, with its replies, oldest first. -/
def said (g : HostAndBoard β) : List (Command × Reply) :=
  g.heard.filterMap fun p ↦ p.2.map (p.1, ·)

/-- The bytes that the stream has taken and the board has not read. -/
def toBoard (g : HostAndBoard β) : Bytes :=
  g.watch.usage.written.drop (Command.frames (g.heard.map Prod.fst)).length

/-- One step. A step that does not apply changes nothing. -/
def step (g : HostAndBoard β) : Step β → HostAndBoard β
  | .move move => if move.isFree then { g with watch := g.watch.step move } else g
  | .bring count =>
    if g.watch.session.connection.reader?.isSome then
      { g with
        watch := g.watch.step (.link (.receive (g.toHost.take count)))
        toHost := g.toHost.drop count }
    else g
  | .hear command =>
    if command.HasFrame ∧ command.frame <+: g.toBoard then
      { g with
        board := (Responder.answer g.board command).1
        heard := g.heard ++ [(command, (Responder.answer g.board command).2)]
        toHost := g.toHost ++ answerBytes (Responder.answer g.board command).2 }
    else g
  | .incident incident => { g with board := Responder.incur g.board incident }

/-- One step after the other. -/
def run (g : HostAndBoard β) (steps : List (Step β)) : HostAndBoard β := steps.foldl step g

theorem run_append (g : HostAndBoard β) (steps more : List (Step β)) :
    g.run (steps ++ more) = (g.run steps).run more :=
  List.foldl_append

theorem step_hear {g : HostAndBoard β} {command : Command}
    (hfront : command.HasFrame ∧ command.frame <+: g.toBoard) :
    g.step (.hear command) =
      { g with
        board := (Responder.answer g.board command).1
        heard := g.heard ++ [(command, (Responder.answer g.board command).2)]
        toHost := g.toHost ++ answerBytes (Responder.answer g.board command).2 } :=
  if_pos hfront

/-- All that a step can be: a move of the host, bytes that arrive, a command that the board reads,
something that happens to the board, or nothing. -/
theorem step_cases (g : HostAndBoard β) (step : Step β) :
    g.step step = g ∨
      (∃ move, step = .move move ∧ move.isFree = true ∧
        g.step step = { g with watch := g.watch.step move }) ∨
      (∃ chunk after, g.toHost = chunk ++ after ∧ g.watch.session.connection.reader?.isSome ∧
        g.step step =
          { g with watch := g.watch.step (.link (.receive chunk)), toHost := after }) ∨
      (∃ command, command.HasFrame ∧ command.frame <+: g.toBoard ∧
        g.step step =
          { g with
            board := (Responder.answer g.board command).1
            heard := g.heard ++ [(command, (Responder.answer g.board command).2)]
            toHost := g.toHost ++ answerBytes (Responder.answer g.board command).2 }) ∨
      ∃ incident, g.step step = { g with board := Responder.incur g.board incident } := by
  cases step with
  | move move =>
    rw [step]
    split
    · exact .inr (.inl ⟨move, rfl, ‹_›, rfl⟩)
    · exact .inl rfl
  | bring count =>
    rw [step]
    split
    · exact .inr (.inr (.inl ⟨g.toHost.take count, g.toHost.drop count,
        (List.take_append_drop count g.toHost).symm, ‹_›, rfl⟩))
    · exact .inl rfl
  | hear command =>
    rw [step]
    split
    · rename_i h
      exact .inr (.inr (.inr (.inl ⟨command, h.1, h.2, rfl⟩)))
    · exact .inl rfl
  | incident i => exact .inr (.inr (.inr (.inr ⟨i, rfl⟩)))

end Steps

/-! ## The two ends in step -/

/-- What holds at every moment with a board that is in order. -/
structure InStep (good : β → Prop) (g : HostAndBoard β) : Prop where
  linked : g.watch.Linked
  good : good g.board
  /-- What the board has read has been written. -/
  heard_written : Command.frames (g.heard.map Prod.fst) <+: g.watch.usage.written
  /-- The board reads the commands that have been accepted, in this order and none besides. -/
  heard_in_order : g.heard.map Prod.fst <+: g.watch.usage.encoded.map Prod.snd
  heard_kind : ∀ p ∈ g.heard, p.2.map Reply.kind = p.1.replyKind
  /-- Only the poll loop asks what has changed. -/
  polls_of : ∀ t, (g.watch.usage.calls[t]?).bind Call.command? = some .pollChanges →
    t ∈ g.watch.polls
  books : g.watch.usage.Matches g.said g.toHost

/-- Of what the board has read it has replied to the questions. -/
theorem said_fst {heard : List (Command × Option Reply)}
    (h : ∀ p ∈ heard, p.2.map Reply.kind = p.1.replyKind) :
    (heard.filterMap fun p ↦ p.2.map (p.1, ·)).map Prod.fst =
      (heard.map Prod.fst).filter (·.replyKind.isSome) := by
  induction heard with
  | nil => rfl
  | cons p heard ih =>
    have hrest := ih fun q hq ↦ h q (List.mem_cons_of_mem _ hq)
    have hfirst := h p List.mem_cons_self
    obtain ⟨command, reply?⟩ := p
    cases reply? with
    | none =>
      have hnone : command.replyKind = none := hfirst.symm
      simp [hnone, hrest]
    | some reply =>
      have hsome : command.replyKind = some reply.kind := hfirst.symm
      simp [hsome, hrest]

variable {good : β → Prop} {g : HostAndBoard β}

theorem inStep_fresh (peer : String) {board : β} (hgood : good board) :
    InStep good (fresh peer board) where
  linked := Watch.linked_fresh peer
  good := hgood
  heard_written := List.prefix_rfl
  heard_in_order := List.prefix_rfl
  heard_kind := nofun
  polls_of := nofun
  books := Usage.matches_fresh peer

private theorem InStep.of_watch (h : g.InStep good) {w : Watch} {toHost : Bytes} (hw : w.Linked)
    (hwritten : g.watch.usage.written <+: w.usage.written)
    (hencoded : g.watch.usage.encoded <+: w.usage.encoded)
    (hpolls : ∀ t, (w.usage.calls[t]?).bind Call.command? = some .pollChanges → t ∈ w.polls)
    (hbooks : w.usage.Matches g.said toHost) :
    InStep good { g with watch := w, toHost := toHost } where
  linked := hw
  good := h.good
  heard_written := h.heard_written.trans hwritten
  heard_in_order := h.heard_in_order.trans (hencoded.map _)
  heard_kind := h.heard_kind
  polls_of := hpolls
  books := hbooks

theorem prefix_step (w : Watch) (move : Move) :
    w.usage.written <+: (w.step move).usage.written ∧
      w.usage.encoded <+: (w.step move).usage.encoded := by
  obtain ⟨more, hmore⟩ := (w.prefixes_run [move]).1
  change _ = (w.step move).usage.events at hmore
  rw [Usage.written, Usage.written, Usage.encoded, Usage.encoded, ← hmore]
  simp

/-- A turn that asks what has changed is made by the poll loop. -/
private theorem asks?_of_turn? {s : Session} {move : Move} {call : Call}
    (hmove : ∀ call, move = .call call → call.command? ≠ some .pollChanges)
    (h : s.turn? move = some (.call call)) (hcall : call.command? = some .pollChanges) :
    s.asks? move = some s.nextTicket := by
  cases move with
  | call call =>
    cases h
    exact absurd hcall (hmove call rfl)
  | advance =>
    obtain ⟨hready, -⟩ := Option.ite_none_right_eq_some.mp h
    exact if_pos hready
  | giveUp | link =>
    rw [Session.turn?] at h
    split at h <;> cases h
  | cancelPolling =>
    obtain ⟨_, -, h⟩ := Option.map_eq_some_iff.mp h
    cases h
  | abort | take | abandon | elapse => cases h

private theorem polls_of_step {w : Watch} (hw : w.Linked) {move : Move}
    (hmove : ∀ call, move = .call call → call.command? ≠ some .pollChanges)
    (h : ∀ t, (w.usage.calls[t]?).bind Call.command? = some .pollChanges → t ∈ w.polls) :
    ∀ t, ((w.step move).usage.calls[t]?).bind Call.command? = some .pollChanges →
      t ∈ (w.step move).polls := by
  intro t ht
  have hold : (w.usage.calls[t]?).bind Call.command? = some .pollChanges →
      t ∈ (w.step move).polls :=
    fun hcall ↦ List.mem_append_left _ (h t hcall)
  change (((w.session.turn? move).map w.usage.step).getD w.usage).calls[t]?.bind _ = _ at ht
  cases hturn : w.session.turn? move with
  | none =>
    rw [hturn] at ht
    exact hold ht
  | some turn =>
    rw [hturn] at ht
    cases turn with
    | act a => cases a <;> exact hold ht
    | call call =>
      have hcalls : (w.usage.calls ++ [call])[t]?.bind Call.command? = some .pollChanges := ht
      rcases Nat.lt_or_ge t w.usage.calls.length with hlt | hge
      · rw [List.getElem?_append_left hlt] at hcalls
        exact hold hcalls
      · rw [List.getElem?_append_right hge, List.getElem?_singleton] at hcalls
        obtain ⟨call', hcall', hcommand⟩ := Option.bind_eq_some_iff.mp hcalls
        obtain ⟨hsub, hsame⟩ := Option.ite_none_right_eq_some.mp hcall'
        cases hsame
        obtain rfl : t = w.session.nextTicket := by
          rw [hw.nextTicket_eq]
          exact Nat.le_antisymm (Nat.le_of_sub_eq_zero hsub) hge
        refine List.mem_append_right _ ?_
        rw [asks?_of_turn? hmove hturn hcommand]
        exact List.mem_singleton_self _

theorem arrived_of_turn? {s : Session} {move : Move} {a : Action}
    (hmove : move.isFree = true) (h : s.turn? move = some (.act a)) : a.arrived = [] := by
  cases move with
  | link action =>
    obtain ⟨-, h⟩ := Option.ite_none_right_eq_some.mp h
    cases h
    cases a with
    | receive => cases hmove
    | _ => rfl
  | giveUp ticket =>
    obtain ⟨-, h⟩ := Option.ite_none_left_eq_some.mp h
    cases h
    rfl
  | cancelPolling =>
    obtain ⟨_, -, h⟩ := Option.map_eq_some_iff.mp h
    cases h
    rfl
  | advance =>
    obtain ⟨-, h⟩ := Option.ite_none_right_eq_some.mp h
    cases h
  | call | take | abandon => cases h
  | abort | elapse =>
    cases h
    rfl

private theorem InStep.move (h : g.InStep good) {move : Move} (hmove : move.isFree = true) :
    InStep good { g with watch := g.watch.step move } := by
  obtain ⟨hwritten, hencoded⟩ := prefix_step g.watch move
  have hhost : ∀ call, move = .call call → call.command? ≠ some .pollChanges := by
    rintro call rfl
    exact bne_iff_ne.mp hmove
  have hpolls := polls_of_step h.linked hhost h.polls_of
  refine h.of_watch (h.linked.run [move]) hwritten hencoded hpolls ?_
  change Usage.Matches (((g.watch.session.turn? move).map g.watch.usage.step).getD
    g.watch.usage) _ _
  cases hturn : g.watch.session.turn? move with
  | none => exact h.books
  | some turn =>
    exact h.books.turn h.linked.sound h.linked.framed.oneStream fun a ha ↦
      arrived_of_turn? hmove (hturn.trans (congrArg some ha))

private theorem InStep.arrival (h : g.InStep good) {chunk after : Bytes}
    (hbytes : g.toHost = chunk ++ after)
    (hreader : g.watch.session.connection.reader?.isSome) :
    InStep good { g with watch := g.watch.step (.link (.receive chunk)), toHost := after } := by
  obtain ⟨hwritten, hencoded⟩ := prefix_step g.watch (.link (.receive chunk))
  have hhost : ∀ call, Move.link (.receive chunk) = .call call →
      call.command? ≠ some .pollChanges := nofun
  have hpolls := polls_of_step h.linked hhost h.polls_of
  refine h.of_watch (h.linked.run [.link (.receive chunk)]) hwritten hencoded hpolls ?_
  rw [h.linked.connection_eq] at hreader
  exact h.books.change (a := .receive chunk) h.linked.sound h.linked.framed.oneStream hbytes
    (.inr hreader) (g.watch.usage.connection.change_step (.receive chunk))

/-- A question gets a reply that the board has given to it. -/
theorem InStep.own_reply (h : g.InStep good) {t : Ticket} {command : Command} {reply : Reply}
    (hcall : g.watch.usage.calls[t]? = some (.request command))
    (hsettled : Event.settled t (.reply reply) ∈ g.watch.usage.events) :
    (command, reply) ∈ g.said := by
  have hreplied : (t, reply) ∈ g.watch.usage.events.replied :=
    List.mem_filterMap.mpr ⟨_, Trace.mem_settled.mpr hsettled, rfl⟩
  obtain ⟨command', hasked, hsaid⟩ := h.books.own hreplied
  obtain ⟨call, hcall', hcommand⟩ :=
    h.linked.sound.orderly.encoded_call _ (List.mem_of_mem_filter hasked)
  rw [hcall] at hcall'
  cases hcall'
  cases hcommand
  exact hsaid

/-- The replies that the poll loop has got are the first that the board has given to polls. -/
theorem InStep.polled (h : g.InStep good) :
    g.watch.answers.filterMap Outcome.reply? <+: pollReplies g.said := by
  have hsame : ∀ p ∈ g.watch.usage.events.asked,
      decide (p.1 ∈ g.watch.polls) = decide (p.2 = .pollChanges) := by
    intro p hp
    obtain ⟨call, hcall, hcommand⟩ :=
      h.linked.sound.orderly.encoded_call p (List.mem_of_mem_filter hp)
    rw [decide_eq_decide]
    constructor
    · intro hpoll
      rw [h.linked.polled p.1 hpoll] at hcall
      cases hcall
      exact (Option.some.inj hcommand).symm
    · intro hpoll
      refine h.polls_of p.1 ?_
      rw [hcall, ← hpoll]
      exact hcommand
  have hprefix := h.books.filter_prefix (fun t ↦ decide (t ∈ g.watch.polls))
    (fun c ↦ decide (c = .pollChanges)) hsame
  have hanswers := g.watch.usage.events.replied_filter fun t ↦ decide (t ∈ g.watch.polls)
  rw [← hanswers] at hprefix
  exact hprefix

variable [Responder β]

/-- The board reads a command and answers. -/
private theorem InStep.hear (h : g.InStep good) (hfaithful : Responder.Faithful good)
    {command : Command} (hframe : command.HasFrame) (hfront : command.frame <+: g.toBoard) :
    InStep good { g with
      board := (Responder.answer g.board command).1
      heard := g.heard ++ [(command, (Responder.answer g.board command).2)]
      toHost := g.toHost ++ answerBytes (Responder.answer g.board command).2 } := by
  have hkind := hfaithful.kind g.board command h.good
  have hunbroken := hfaithful.unbroken g.board command
  have hgood := hfaithful.answer g.board command h.good
  generalize Responder.answer g.board command = answer at *
  obtain ⟨unheard, horder⟩ := h.heard_in_order
  obtain ⟨⟨rest, rfl⟩, hwritten⟩ :=
    h.linked.framed.next_heard h.heard_written horder hframe hfront
  have hheard : (g.heard ++ [(command, answer.2)]).map Prod.fst <+:
      g.watch.usage.encoded.map Prod.snd := ⟨rest, by simpa using horder⟩
  have hkinds : ∀ p ∈ g.heard ++ [(command, answer.2)], p.2.map Reply.kind = p.1.replyKind := by
    intro p hp
    rcases List.mem_append.mp hp with hold | hnew
    · exact h.heard_kind p hold
    · rw [List.mem_singleton.mp hnew]
      exact hkind
  refine ⟨h.linked, hgood, by simpa using hwritten, hheard, hkinds, h.polls_of, ?_⟩
  cases hanswer : answer.2 with
  | none => simpa [said, answerBytes, hanswer] using h.books
  | some reply =>
    have hsaid : said { g with heard := g.heard ++ [(command, some reply)] } =
        g.said ++ [(command, reply)] := by
      simp [said]
    rw [hanswer] at hheard hkinds hkind
    change Usage.Matches _ (said { g with heard := g.heard ++ [(command, some reply)] }) _
    rw [hsaid]
    refine h.books.say ?_ hkind.symm fun data hdata ↦ hunbroken data h.good (by rw [hanswer, hdata])
    rw [← hsaid, said, said_fst hkinds, Trace.map_snd_asked]
    exact hheard.filter _

theorem InStep.step (h : g.InStep good) (hfaithful : Responder.Faithful good) (step : Step β) :
    (g.step step).InStep good := by
  obtain hsame | ⟨move, -, hmove, hstep⟩ | ⟨chunk, after, hbytes, hreader, hstep⟩ |
    ⟨command, hframe, hfront, hstep⟩ | ⟨incident, hstep⟩ := g.step_cases step
  · rwa [hsame]
  · rw [hstep]
    exact h.move hmove
  · rw [hstep]
    exact h.arrival hbytes hreader
  · rw [hstep]
    exact h.hear hfaithful hframe hfront
  · rw [hstep]
    exact { h with good := hfaithful.incur _ incident h.good }

/-- With a faithful board the books are balanced at every moment. -/
theorem InStep.run (h : g.InStep good) (hfaithful : Responder.Faithful good)
    (steps : List (Step β)) : (g.run steps).InStep good := by
  induction steps generalizing g with
  | nil => exact h
  | cons step steps ih => exact ih (h.step hfaithful step)

theorem watch_run (g : HostAndBoard β) (steps : List (Step β)) :
    ∃ moves, (g.run steps).watch = g.watch.run moves := by
  induction steps generalizing g with
  | nil => exact ⟨[], rfl⟩
  | cons step steps ih =>
    obtain ⟨moves, hmoves⟩ := ih (g.step step)
    have hrun : (g.run (step :: steps)).watch = (g.step step).watch.run moves := hmoves
    rw [hrun]
    obtain hsame | ⟨move, -, -, hstep⟩ | ⟨chunk, after, -, -, hstep⟩ | ⟨command, -, -, hstep⟩ |
      ⟨incident, hstep⟩ := g.step_cases step
    · exact ⟨moves, by rw [hsame]⟩
    · exact ⟨move :: moves, by rw [hstep]; rfl⟩
    · exact ⟨.link (.receive chunk) :: moves, by rw [hstep]; rfl⟩
    · exact ⟨moves, by rw [hstep]⟩
    · exact ⟨moves, by rw [hstep]⟩

/-! ## Tasks -/

variable {σ α : Type}

/-- Take part in a dialogue. The schedule tells the steps that are done after each call, and the
call has to end in them. -/
def conduct : HostAndBoard β → Dialogue σ α → List (List (Step β)) → Option (HostAndBoard β × α)
  | g, .done _ result, _ => some (g, result)
  | _, .ask _ _ _, [] => none
  | g, .ask _ call next, steps :: schedule =>
    let later := (g.step (.move (.call call))).run steps
    (later.watch.usage.events.settled.lookup g.watch.session.nextTicket).bind fun outcome ↦
      later.conduct (next outcome) schedule

/-- Start to poll. -/
def beginPolling (g : HostAndBoard β) (switches : SwitchTable) (capacity interval : Nat) :
    HostAndBoard β :=
  { g with watch := g.watch.beginPolling switches capacity interval }

/-- Start a platform. -/
def started (peer : String) (board : β) (options : PlatformOptions)
    (schedule : List (List (Step β))) : Option (HostAndBoard β) :=
  ((fresh peer board).conduct Platform.start schedule).bind fun (g, result) ↦
    match result with
    | .ok discovery =>
      some (g.beginPolling discovery.switches options.eventCapacity options.pollInterval)
    | .error _ => none

variable {allowed : Call → Outcome → Prop} {P : List Call → α → Prop} {d : Dialogue σ α}

/-- A dialogue is part of a run. -/
theorem conduct_run {later : HostAndBoard β} {schedule : List (List (Step β))} {result : α}
    (h : g.conduct d schedule = some (later, result)) : ∃ steps, later = g.run steps := by
  induction d generalizing g schedule with
  | done state result =>
    cases h
    exact ⟨[], rfl⟩
  | ask state call next ih =>
    cases schedule with
    | nil => cases h
    | cons steps schedule =>
      obtain ⟨outcome, -, hrest⟩ := Option.bind_eq_some_iff.mp h
      obtain ⟨more, rfl⟩ := ih outcome hrest
      exact ⟨.move (.call call) :: (steps ++ more), (run_append _ steps more).symm⟩

/-- If the calls of a dialogue have ended as allowed, its result is as it should be. -/
theorem conduct_yields (hlinked : g.watch.Linked) (hd : d.Yields Call.IsFree allowed P)
    {later : HostAndBoard β}
    {schedule : List (List (Step β))} {result : α}
    (h : g.conduct d schedule = some (later, result))
    (hallowed : ∀ t call outcome, later.watch.usage.calls[t]? = some call →
      Event.settled t outcome ∈ later.watch.usage.events → allowed call outcome) :
    ∃ calls, P calls result := by
  induction d generalizing g schedule P with
  | done state result =>
    cases h
    exact ⟨[], hd⟩
  | ask state call next ih =>
    cases schedule with
    | nil => cases h
    | cons steps schedule =>
      obtain ⟨outcome, hlookup, hrest⟩ := Option.bind_eq_some_iff.mp h
      have hfree : (Move.call call).isFree = true := bne_iff_ne.mpr hd.1
      have hstep : g.step (.move (.call call)) = { g with watch := g.watch.step (.call call) } :=
        if_pos hfree
      rw [hstep] at hlookup hrest
      obtain ⟨moves, hmoves⟩ := watch_run { g with watch := g.watch.step (.call call) } steps
      generalize run { g with watch := g.watch.step (.call call) } steps = middle at *
      rw [hmoves] at hlookup
      obtain ⟨hmiddle, -, hcall, hsettled⟩ := hlinked.called call moves hlookup
      rw [← hmoves] at hmiddle hcall hsettled
      obtain ⟨more, rfl⟩ := conduct_run hrest
      obtain ⟨later, hlater⟩ := middle.watch_run more
      obtain ⟨hevents, ⟨calls, hcalls⟩⟩ := middle.watch.prefixes_run later
      have hcall' :
          (middle.run more).watch.usage.calls[g.watch.session.nextTicket]? = some call := by
        rw [hlater, ← hcalls]
        exact getElem?_append_of_some hcall calls
      have hsettled' : Event.settled g.watch.session.nextTicket outcome ∈
          (middle.run more).watch.usage.events := by
        rw [hlater]
        exact hevents.subset hsettled
      obtain ⟨calls, hresult⟩ := ih outcome hmiddle
        (hd.2 outcome (hallowed g.watch.session.nextTicket _ _ hcall' hsettled')) hrest
      exact ⟨call :: calls, hresult⟩

end HostAndBoard

end PinballBoard
