import Mathlib.Data.List.Induction
import PinballBoard.Proofs.Link.Framing
import PinballBoard.Proofs.Wire.Parse

/-!
# Nothing is lost between the codec and its buffers

A codec stands between two buffers and remembers one thing: the shape of the reply that is
outstanding. A byte that is taken too early, or a shape that is forgotten too early, is not noticed
where it happens. It shows later, as a reply that is not the one that was sent.

So the law is about whole histories. Somebody works codec and buffers by hand (`Link.work`), in any
order and whatever has come of it so far: he decodes before he has asked, asks while a reply is
outstanding, goes on after every failure. `Link.Log` is what he has done and what has come of it,
and `Link.conserved_work` balances the log against what the codec and the buffers hold at its end.

## Two accounts

Each direction keeps an account. What has been written are the frames of the accepted commands. What
has been fed are the decoded replies as they are on the wire, and then what is still there. The
codec itself joins the two: the questions among the accepted commands are those whose replies have
been decoded, in the same order, and the outstanding one if there is one.
-/

namespace PinballBoard

namespace Link

/-! ## Logs -/

/-- What has been done with a codec and its buffers, and what has come of it, oldest first. -/
abbrev Log := List (Handling × Handled)

namespace Log

/-- The command that the codec has accepted in an entry. -/
@[simp] def acceptedIn? : Handling × Handled → Option Command
  | (.encode command, .accepted) => some command
  | _ => none

/-- The reply that has been decoded in an entry. -/
@[simp] def repliedIn? : Handling × Handled → Option Reply
  | (_, .replied reply) => some reply
  | _ => none

/-- The bytes that have been fed in an entry. -/
@[simp] def fedIn : Handling × Handled → Bytes
  | (.feed chunk, _) => chunk
  | _ => []

/-- The commands that the codec has accepted. -/
def accepted (log : Log) : List Command := log.filterMap acceptedIn?

/-- The replies that have been decoded. -/
def replies (log : Log) : List Reply := log.filterMap repliedIn?

/-- The bytes that have been fed. -/
def fed (log : Log) : Bytes := log.flatMap fedIn

/-- The shapes of the replies to the accepted commands, for those that are answered. -/
def questions (log : Log) : List ReplyKind := log.accepted.filterMap Command.replyKind

/-- The last command that has been accepted asks for a reply of this shape, and no reply has been
decoded since. -/
def Outstanding (log : Log) (kind : ReplyKind) : Prop :=
  ∃ (earlier : Log) (command : Command) (later : Log),
    log = earlier ++ (.encode command, .accepted) :: later ∧ command.replyKind = some kind ∧
      later.accepted = [] ∧ later.replies = []

variable (log more : Log) (entry : Handling × Handled)

theorem accepted_append : accepted (log ++ more) = log.accepted ++ more.accepted :=
  List.filterMap_append

theorem replies_append : replies (log ++ more) = log.replies ++ more.replies :=
  List.filterMap_append

theorem fed_append : fed (log ++ more) = log.fed ++ more.fed := List.flatMap_append

theorem questions_append : questions (log ++ more) = log.questions ++ more.questions := by
  rw [questions, accepted_append, List.filterMap_append]
  rfl

theorem accepted_singleton : accepted [entry] = (acceptedIn? entry).toList := by
  rw [accepted, List.filterMap_cons, List.filterMap_nil]
  cases acceptedIn? entry <;> rfl

theorem replies_singleton : replies [entry] = (repliedIn? entry).toList := by
  rw [replies, List.filterMap_cons, List.filterMap_nil]
  cases repliedIn? entry <;> rfl

theorem fed_singleton : fed [entry] = fedIn entry := List.append_nil _

theorem accepted_append_of_none (h : acceptedIn? entry = none) :
    accepted (log ++ [entry]) = log.accepted := by
  rw [accepted_append, accepted_singleton, h, Option.toList_none, List.append_nil]

theorem replies_append_of_none (h : repliedIn? entry = none) :
    replies (log ++ [entry]) = log.replies := by
  rw [replies_append, replies_singleton, h, Option.toList_none, List.append_nil]

variable {log : Log} {kind : ReplyKind}

private theorem eq_last_or_before {earlier later : Log} {mark : Handling × Handled}
    (h : log ++ [entry] = earlier ++ mark :: later) :
    (entry = mark ∧ later = []) ∨
      ∃ before, later = before ++ [entry] ∧ log = earlier ++ mark :: before := by
  rcases List.eq_nil_or_concat later with rfl | ⟨before, last, rfl⟩
  · obtain ⟨-, hlast⟩ := List.append_inj' h rfl
    exact .inl ⟨List.singleton_inj.mp hlast, rfl⟩
  · rw [List.concat_eq_append, ← List.cons_append, ← List.append_assoc] at h
    obtain ⟨hlog, hlast⟩ := List.append_inj' h rfl
    rw [List.concat_eq_append, ← hlast]
    exact .inr ⟨before, rfl, hlog⟩

/-- An accepted command decides alone what is outstanding. -/
theorem outstanding_accepted {command : Command} :
    Outstanding (log ++ [(.encode command, .accepted)]) kind ↔ command.replyKind = some kind := by
  constructor
  · rintro ⟨earlier, command', later, heq, hkind, haccepted, -⟩
    rcases eq_last_or_before _ heq with ⟨hlast, -⟩ | ⟨before, rfl, -⟩
    · cases hlast
      exact hkind
    · rw [accepted_append] at haccepted
      cases (List.append_eq_nil_iff.mp haccepted).2
  · intro hkind
    exact ⟨log, command, [], rfl, hkind, rfl, rfl⟩

theorem not_outstanding_replied {handling : Handling} {reply : Reply} :
    ¬Outstanding (log ++ [(handling, .replied reply)]) kind := by
  rintro ⟨earlier, command, later, heq, -, -, hreplies⟩
  rcases eq_last_or_before _ heq with ⟨hlast, -⟩ | ⟨before, rfl, -⟩
  · cases hlast
  · rw [replies_append] at hreplies
    cases (List.append_eq_nil_iff.mp hreplies).2

theorem outstanding_silent (haccepted : acceptedIn? entry = none)
    (hreplied : repliedIn? entry = none) :
    Outstanding (log ++ [entry]) kind ↔ Outstanding log kind := by
  constructor
  · rintro ⟨earlier, command, later, heq, hkind, hlater, hreplies⟩
    rcases eq_last_or_before _ heq with ⟨rfl, -⟩ | ⟨before, rfl, rfl⟩
    · cases haccepted
    · rw [accepted_append] at hlater
      rw [replies_append] at hreplies
      exact ⟨earlier, command, before, rfl, hkind, (List.append_eq_nil_iff.mp hlater).1,
        (List.append_eq_nil_iff.mp hreplies).1⟩
  · rintro ⟨earlier, command, later, rfl, hkind, hlater, hreplies⟩
    refine ⟨earlier, command, later ++ [entry], List.append_assoc _ _ _, hkind, ?_, ?_⟩
    · rw [accepted_append_of_none _ _ haccepted, hlater]
    · rw [replies_append_of_none _ _ hreplied, hreplies]

end Log

/-! ## What one handling can do -/

/-- All that one handling can do, and what comes of it. -/
inductive Handles (l : Link) : Handling → Link → Handled → Prop where
  | accepts {command : Command} (hidle : l.codec.pending = none) (hframe : command.HasFrame) :
      Handles l (.encode command)
        { l with codec := ⟨command.replyKind⟩, outgoing := l.outgoing ++ command.frame } .accepted
  | refuses {command : Command} (e : ProtocolError)
      (hbad : l.codec.pending ≠ none ∨ ¬command.HasFrame) :
      Handles l (.encode command) l (.refused e)
  | feeds (chunk : Bytes) : Handles l (.feed chunk) (l.received chunk) .fed
  | replies {handling : Handling} {reply : Reply} {rest : Bytes}
      (hlooks : handling = .decode ∨ handling = .decodeAtEnd)
      (hpending : l.codec.pending = some reply.kind)
      (hincoming : l.incoming = reply.wire ++ rest) :
      Handles l handling (l.answered rest) (.replied reply)
  | misses {handling : Handling} {handled : Handled}
      (hlooks : handling = .decode ∨ handling = .decodeAtEnd)
      (hnone : handled = .nothing ∨ ∃ e, handled = .failed e) : Handles l handling l handled

variable {l l' : Link} {handling : Handling} {handled : Handled}

/-- A command is not accepted while a reply is outstanding, or if it has no frame. -/
private theorem submit_error {command : Command} {e : ProtocolError}
    (h : l.submit command = .error e) : l.codec.pending ≠ none ∨ ¬command.HasFrame := by
  by_contra hgood
  obtain ⟨hidle, hframe⟩ := not_or.mp hgood
  have hencode : command.encode = .ok command.frame := not_not.mp hframe
  rw [submit, Codec.encode, not_not.mp hidle, hencode] at h
  cases h

private theorem handles_takeOut {d : Decoded}
    (hlooks : handling = .decode ∨ handling = .decodeAtEnd)
    (hreply : ∀ reply rest, d = .reply reply rest →
      l.codec.pending = some reply.kind ∧ l.incoming = reply.wire ++ rest) :
    Handles l handling (l.takeOut d).1 (l.takeOut d).2 := by
  cases d with
  | reply reply rest =>
    obtain ⟨hpending, hincoming⟩ := hreply reply rest rfl
    exact .replies hlooks hpending hincoming
  | incomplete => exact .misses hlooks (.inl rfl)
  | failed e => exact .misses hlooks (.inr ⟨e, rfl⟩)

/-- At the end of the bytes a reply is found where it would have been found before. -/
private theorem decode_of_decodeAtEnd {codec : Codec} {received rest : Bytes} {reply : Reply}
    (h : codec.decodeAtEnd received = .reply reply rest) :
    codec.decode received = .reply reply rest := by
  unfold Codec.decodeAtEnd at h
  split at h
  · split at h <;> cases h
  · exact h

/-- **What one handling can do.** -/
theorem handles_handle (l : Link) (handling : Handling) :
    Handles l handling (l.handle handling).1 (l.handle handling).2 := by
  cases handling with
  | encode command =>
    cases hsubmit : l.submit command with
    | ok l' =>
      obtain ⟨hframe, hidle, rfl⟩ := Connection.submit_eq_ok hsubmit
      simp only [handle, hsubmit]
      exact .accepts hidle hframe
    | error e =>
      simp only [handle, hsubmit]
      exact .refuses e (submit_error hsubmit)
  | feed chunk => exact .feeds chunk
  | decode => exact handles_takeOut (.inl rfl) fun _ _ ↦ Codec.of_decode_reply
  | decodeAtEnd =>
    refine handles_takeOut (.inr rfl) fun _ _ h ↦ ?_
    exact Codec.of_decode_reply (decode_of_decodeAtEnd h)

/-! ## Whole histories -/

/-- Do one thing more, and note it. -/
def workOn (state : Link × Log) (handling : Handling) : Link × Log :=
  ((state.1.handle handling).1, state.2 ++ [(handling, (state.1.handle handling).2)])

/-- Do any number of things with a new codec and empty buffers. -/
def work (handlings : List Handling) : Link × Log := handlings.foldl workOn (.fresh, [])

/-- The log and what codec and buffers hold agree. -/
structure Balanced (l : Link) (log : Log) : Prop where
  sent : l.outgoing = Command.frames log.accepted
  hasFrame : ∀ command ∈ log.accepted, command.HasFrame
  fed : log.fed = log.replies.flatMap Reply.wire ++ l.incoming
  questions : log.questions = log.replies.map Reply.kind ++ l.codec.pending.toList
  pending : ∀ kind, l.codec.pending = some kind ↔ log.Outstanding kind

private theorem balanced_fresh : Balanced .fresh [] := by
  refine ⟨rfl, fun _ h ↦ absurd h List.not_mem_nil, rfl, rfl, fun kind ↦ ?_⟩
  constructor
  · intro h
    cases h
  · rintro ⟨earlier, command, later, heq, -⟩
    simp at heq

/-- What neither accepts, feeds nor decodes has to leave codec and buffers alone. -/
private theorem Balanced.silent {log : Log} (h : Balanced l log)
    (haccepted : Log.acceptedIn? (handling, handled) = none)
    (hreplied : Log.repliedIn? (handling, handled) = none)
    (hfed : Log.fedIn (handling, handled) = []) :
    Balanced l (log ++ [(handling, handled)]) := by
  have ha := Log.accepted_append_of_none log _ haccepted
  have hr := Log.replies_append_of_none log _ hreplied
  constructor
  · rw [ha]
    exact h.sent
  · rw [ha]
    exact h.hasFrame
  · rw [Log.fed_append, Log.fed_singleton, hfed, List.append_nil, hr]
    exact h.fed
  · rw [Log.questions, ha, hr]
    exact h.questions
  · intro kind
    rw [Log.outstanding_silent _ haccepted hreplied]
    exact h.pending kind

private theorem Balanced.accepts {log : Log} (h : Balanced l log) {command : Command}
    (hidle : l.codec.pending = none) (hframe : command.HasFrame) :
    Balanced { l with codec := ⟨command.replyKind⟩, outgoing := l.outgoing ++ command.frame }
      (log ++ [(.encode command, .accepted)]) := by
  constructor
  · rw [Log.accepted_append, Command.frames_append, ← h.sent]
    exact congrArg (l.outgoing ++ ·) (List.append_nil _).symm
  · intro c hc
    rw [Log.accepted_append] at hc
    rcases List.mem_append.mp hc with hc | hc
    · exact h.hasFrame c hc
    · rw [List.mem_singleton.mp hc]
      exact hframe
  · rw [Log.fed_append, Log.fed_singleton, Log.replies_append, Log.replies_singleton]
    simpa using h.fed
  · have hquestions := h.questions
    rw [hidle, Option.toList_none, List.append_nil] at hquestions
    rw [Log.questions_append, Log.replies_append, hquestions]
    cases hkind : command.replyKind <;> simp [Log.questions, Log.accepted, Log.replies, hkind]
  · intro kind
    rw [Log.outstanding_accepted]

private theorem Balanced.feeds {log : Log} (h : Balanced l log) (chunk : Bytes) :
    Balanced (l.received chunk) (log ++ [(.feed chunk, .fed)]) := by
  have ha := Log.accepted_append_of_none log (.feed chunk, .fed) rfl
  have hr := Log.replies_append_of_none log (.feed chunk, .fed) rfl
  constructor
  · rw [received_outgoing, ha]
    exact h.sent
  · rw [ha]
    exact h.hasFrame
  · rw [Log.fed_append, Log.fed_singleton, h.fed, hr, received_incoming, List.append_assoc]
    rfl
  · rw [received_codec, Log.questions, ha, hr]
    exact h.questions
  · intro kind
    rw [received_codec, Log.outstanding_silent _ rfl rfl]
    exact h.pending kind

private theorem Balanced.replies {log : Log} (h : Balanced l log) {reply : Reply} {rest : Bytes}
    (hlooks : handling = .decode ∨ handling = .decodeAtEnd)
    (hpending : l.codec.pending = some reply.kind) (hincoming : l.incoming = reply.wire ++ rest) :
    Balanced (l.answered rest) (log ++ [(handling, .replied reply)]) := by
  have ha : Log.accepted (log ++ [(handling, .replied reply)]) = log.accepted := by
    refine Log.accepted_append_of_none log _ ?_
    cases handling <;> rfl
  constructor
  · rw [ha]
    exact h.sent
  · rw [ha]
    exact h.hasFrame
  · -- what is decoded now stood at the front of what was still there
    have hfed : Log.fedIn (handling, .replied reply) = [] := by
      rcases hlooks with rfl | rfl <;> rfl
    rw [Log.fed_append, Log.fed_singleton, hfed, List.append_nil, h.fed, hincoming,
      Log.replies_append, List.flatMap_append, List.append_assoc]
    simp [Log.replies, answered]
  · rw [Log.questions, ha, Log.replies_append, List.map_append]
    have hquestions := h.questions
    rw [hpending] at hquestions
    exact hquestions.trans (List.append_nil _).symm
  · intro kind
    constructor
    · intro hkind
      cases hkind
    · exact fun hout ↦ absurd hout Log.not_outstanding_replied

/-- **One handling keeps the balance.** -/
private theorem Balanced.handles {log : Log} (h : Balanced l log)
    (hhandles : Handles l handling l' handled) : Balanced l' (log ++ [(handling, handled)]) := by
  cases hhandles with
  | accepts hidle hframe => exact h.accepts hidle hframe
  | refuses e hbad => exact h.silent rfl rfl rfl
  | feeds chunk => exact h.feeds chunk
  | replies hlooks hpending hincoming => exact h.replies hlooks hpending hincoming
  | misses hlooks hnone =>
    rcases hlooks with rfl | rfl <;> rcases hnone with rfl | ⟨e, rfl⟩ <;>
      exact h.silent rfl rfl rfl

theorem balanced_work (handlings : List Handling) :
    Balanced (work handlings).1 (work handlings).2 := by
  induction handlings using List.reverseRecOn with
  | nil => exact balanced_fresh
  | append_singleton handlings handling ih =>
    rw [work, List.foldl_append]
    exact ih.handles (handles_handle _ handling)

/-! ## The law -/

/-- What can be relied on at any time by whoever works codec and buffers by hand. -/
structure Conserved (l : Link) (log : Log) : Prop where
  /-- What has been written are the frames of the accepted commands. -/
  sent : l.outgoing = Command.frames log.accepted ∧ ∀ command ∈ log.accepted, command.HasFrame
  /-- A command is refused exactly if a reply is outstanding, or if it is for a display that has no
  code, or its text holds a NUL. -/
  refused_iff : ∀ command, (∃ e, (l.handle (.encode command)).2 = .refused e) ↔
    l.codec.pending ≠ none ∨ ∃ display text, command = .showText display text ∧
      (7 ≤ display.toNat ∨ '\x00' ∈ text.toList)
  /-- What is refused changes nothing. -/
  refused : ∀ command e, (l.handle (.encode command)).2 = .refused e →
    (l.handle (.encode command)).1 = l
  /-- A reply is outstanding exactly if the last accepted command asks for it and none has been
  decoded since. -/
  pending_iff : ∀ kind, l.codec.pending = some kind ↔ log.Outstanding kind
  /-- The questions are those that have been answered, each by a reply of its own shape, and the
  outstanding one. -/
  questions : log.questions = log.replies.map Reply.kind ++ l.codec.pending.toList
  /-- What has been fed are the decoded replies and what is still there. -/
  fed : log.fed = log.replies.flatMap Reply.wire ++ l.incoming
  /-- Who looks for a reply and finds none changes nothing. -/
  missed : ∀ handling, handling = .decode ∨ handling = .decodeAtEnd →
    (∀ reply, (l.handle handling).2 ≠ .replied reply) → (l.handle handling).1 = l

/-- **Codec and buffers conserve what goes through them**, whatever is done with them and whatever
goes wrong. -/
theorem conserved_work (handlings : List Handling) :
    Conserved (work handlings).1 (work handlings).2 := by
  have h := balanced_work handlings
  generalize work handlings = state at h ⊢
  obtain ⟨l, log⟩ := state
  refine ⟨⟨h.sent, h.hasFrame⟩, fun command ↦ ?_, fun command e hrefused ↦ ?_, h.pending,
    h.questions, h.fed, fun handling hlooks hnone ↦ ?_⟩
  · rw [← show Limit.displays.toNat = 7 from rfl, ← Command.not_hasFrame_iff]
    have hhandles := handles_handle l (.encode command)
    generalize l.handle (.encode command) = after at hhandles ⊢
    obtain ⟨l', handled⟩ := after
    cases hhandles with
    | accepts hidle hframe => simp [hidle, hframe]
    | refuses e hbad => exact ⟨fun _ ↦ hbad, fun _ ↦ ⟨e, rfl⟩⟩
    | replies hlooks | misses hlooks => simp at hlooks
  · have hhandles := handles_handle l (.encode command)
    generalize l.handle (.encode command) = after at hhandles hrefused ⊢
    obtain ⟨l', handled⟩ := after
    cases hhandles with
    | accepts => cases hrefused
    | refuses => rfl
    | replies hlooks | misses hlooks => simp at hlooks
  · have hhandles := handles_handle l handling
    generalize l.handle handling = after at hhandles hnone ⊢
    obtain ⟨l', handled⟩ := after
    cases hhandles with
    | @replies _ reply => exact absurd rfl (hnone reply)
    | misses => rfl
    | accepts | refuses | feeds => simp at hlooks

/-- A codec that is asked too much, fed too early and told of the end in the middle of a string. -/
example :
    ((work [.feed [76], .decode, .encode .identify, .encode .countLamps, .decodeAtEnd,
      .feed [49, 0, 7], .decode, .decode]).2.map Prod.snd) =
      [.fed, .failed (.unsolicited 1), .accepted,
        .refused (.unexpectedReply "String reply to be read before GetNumberOfLamps" "new command"),
        .failed (.io "bytes remaining on stream"), .fed, .replied (.string [76, 49]),
        .failed (.unsolicited 1)] := by
  decide

end Link

end PinballBoard
