import PinballBoard.Proofs.Link.Closing

/-!
# A stream that has failed is dropped, and no other

A call can fail at five places: it is not put in line, it finds no stream, the codec refuses its
command, the stream fails under it, or what arrives is no reply. Each of these places has to decide
what becomes of the stream. To keep one on which half an exchange has taken place spoils all that
follows; to drop one because of a bad argument kills a board that is well.

The error itself tells what has been decided. After an error with `LinkError.isTransport` there is
no stream (`Usage.Decided.transport`). After any other end of a call the stream is there if it was
there before (`Connection.Change.open_of_settled`). If the encoder refuses the command, not even the
codec has noticed, and not a byte of the command gets in front of the stream.

## From the lock to the end

A call that finds too many bytes in front of its frame drains them before its command is encoded, so
a refusal can come long after the lock. `draining_since` follows such a call back to the turn in
which it has got the lock: in between only bytes have been taken.
-/

namespace PinballBoard

/-- The command has not been accepted: it is of the wrong kind, or the encoder refuses it. -/
def LinkError.isRejection : LinkError → Bool
  | replyExpected _ | noReplyExpected _ | protocol (.invalidDisplay _)
  | protocol (.invalidDisplayText _) | protocol (.unexpectedReply _ _) => true
  | _ => false

theorem LinkError.not_isRejection_of_isTransport {e : LinkError} (h : e.isTransport = true) :
    e.isRejection = false := by
  cases e <;> first
    | rfl
    | cases h

theorem Call.not_isTransport_of_refusal {call : Call} {e : LinkError} (h : call.refusal = some e) :
    e.isTransport = false := by
  cases call with
  | send | request =>
    simp only [refusal] at h
    split at h <;> cases h
    rfl
  | probe | close => cases h

theorem Call.isRejection_of_refusal {call : Call} {e : LinkError} (h : call.refusal = some e) :
    e.isRejection = true := by
  cases call with
  | send | request =>
    simp only [refusal] at h
    split at h <;> cases h
    rfl
  | probe | close => cases h

/-- A fault that lies below the protocol. -/
def ProtocolError.isIo : ProtocolError → Bool
  | io _ => true
  | _ => false

theorem Caller.stage_ne_of_owesReply {k : Caller} (h : k.owesReply = true) :
    k.stage ≠ .waiting := by
  unfold owesReply at h
  split at h
  · simpa using h
  · cases h

namespace Connection

variable {c c' : Connection} {a : Action} {events : Trace} {t : Ticket}

theorem head_of_stage (hbehind : ∀ k ∈ c.line.tail, k.stage = .waiting) {k : Caller}
    (hk : k ∈ c.line) (hstage : k.stage ≠ .waiting) : ∃ rest, c.line = k :: rest := by
  cases hline : c.line with
  | nil => simp [hline] at hk
  | cons k' rest =>
    rw [hline] at hk hbehind
    rcases List.mem_cons.mp hk with rfl | hk
    · exact ⟨rest, rfl⟩
    · exact absurd (hbehind k hk) hstage

/-! ## How a call ends -/

/-- If there is a frame for a command, the codec can only complain of an outstanding reply. -/
theorem unexpected_of_hasFrame {l : Link} {command : Command} {e : ProtocolError}
    (hframe : command.HasFrame) (h : l.submit command = .error e) :
    ∃ expected actual, e = .unexpectedReply expected actual := by
  cases hpending : l.codec.pending with
  | some kind =>
    rw [submit_of_pending hpending] at h
    cases h
    exact ⟨_, _, rfl⟩
  | none =>
    have hencode : command.encode = .ok command.frame := hframe
    rw [Link.submit, Codec.encode, hpending, hencode] at h
    cases h

/-- A call that fails is turned away and changes nothing, or it fails with the stream, or it fails
with a fault of the codec and the stream is open. In the last case its command is rejected, for an
outstanding reply if there is a frame for it, or it has asked something and looks for the reply. -/
theorem Change.cases_of_failed (h : Change c a c' events) {e : LinkError}
    (hmem : Event.settled t (.failed e) ∈ events) :
    (∃ call, a = .enter t call ∧ call.refusal = some e ∧ c' = c) ∨
      (e.isTransport = true ∧ c'.link = none) ∨
      ∃ e', e = .protocol e' ∧ e'.isIo = false ∧ c'.link ≠ none ∧ ∃ k ∈ c.line, k.ticket = t ∧
        ((e.isRejection = true ∧ ∀ command, k.call.command? = some command → command.HasFrame →
            ∃ expected actual, e' = .unexpectedReply expected actual) ∨
          k.stage = .reading ∨ ∃ command, k.call = .request command) := by
  cases h with
  | @refused t' call e' hrefusal =>
    obtain ⟨rfl, rfl⟩ : t = t' ∧ e = e' := by simpa using hmem
    exact .inl ⟨call, rfl, hrefusal, rfl⟩
  | @foundClosed k rest hline hstage hclosed =>
    obtain ⟨-, houtcome⟩ : t = k.ticket ∧ .failed e = k.call.closedOutcome := by simpa using hmem
    refine .inr (.inl ⟨?_, rfl⟩)
    cases hcall : k.call <;> rw [hcall] at houtcome <;> cases houtcome
    all_goals rfl
  | @rejects a pre k rest l command e' hline hlink hcall hfrom hsubmit =>
    obtain ⟨rfl, rfl⟩ : t = k.ticket ∧ e = .protocol e' := by
      simpa [(Usage.events_of_admits hfrom).2] using hmem
    have hcases := submit_error hsubmit
    refine .inr (.inr ⟨e', rfl, ?_, by simp [hlink], k, hline ▸ List.mem_cons_self, rfl,
      .inl ⟨?_, fun command' hcommand hframe ↦ ?_⟩⟩)
    · obtain ⟨kind, -, rfl⟩ | ⟨detail, rfl⟩ | ⟨detail, rfl⟩ := hcases <;> rfl
    · obtain ⟨kind, -, rfl⟩ | ⟨detail, rfl⟩ | ⟨detail, rfl⟩ := hcases <;> rfl
    · rw [hcall] at hcommand
      cases hcommand
      exact unexpected_of_hasFrame hframe hsubmit
  | @misreads a k rest l l' e' hline hlink hfrom hdecode =>
    obtain ⟨rfl, rfl⟩ : t = k.ticket ∧ e = .protocol e' := by simpa using hmem
    refine .inr (.inr ⟨e', rfl, ?_, by simp, k, hline ▸ List.mem_cons_self, rfl, .inr ?_⟩)
    · obtain rfl | rfl := Codec.decode_failed hdecode <;> rfl
    · cases hfrom with
      | sent command hcall => exact .inr ⟨command, hcall⟩
      | fed chunk hstage | ended hstage => exact .inl hstage
  | @breaks a k rest l e' hline hlink hstage herror =>
    obtain ⟨-, rfl⟩ : t = k.ticket ∧ e = e' := by simpa using hmem
    exact .inr (.inl ⟨herror.1, rfl⟩)
  | encodes _ _ _ hfrom => simp [(Usage.events_of_admits hfrom).2] at hmem
  | _ => simp at hmem

/-- A call that ends well, or with a fault that is none of the stream, leaves the stream open. -/
theorem Change.open_of_settled (h : Change c a c' events) {outcome : Outcome}
    (hmem : Event.settled t outcome ∈ events)
    (hok : ∀ e, outcome = .failed e → e.isTransport = false) :
    (∃ call, a = .enter t call ∧ c' = c) ∨ (c.link ≠ none ∧ c'.link ≠ none) ∨
      (∃ k ∈ c.line, k.ticket = t ∧ k.call.command? = none) ∨
        ∃ k, c.closer = some k ∧ k.ticket = t := by
  cases h with
  | @refused t' call e hrefusal =>
    obtain ⟨rfl, -⟩ : t = t' ∧ outcome = .failed e := by simpa using hmem
    exact .inl ⟨call, rfl, rfl⟩
  | @foundClosed k rest hline hstage hclosed =>
    obtain ⟨rfl, rfl⟩ : t = k.ticket ∧ outcome = k.call.closedOutcome := by simpa using hmem
    refine .inr (.inr (.inl ⟨k, hline ▸ List.mem_cons_self, rfl, ?_⟩))
    cases hcall : k.call with
    | send command | request command =>
      have hnot := hok .notConnected (by rw [hcall]; rfl)
      cases hnot
    | probe | close => rfl
  | @breaks a k rest l e hline hlink hstage herror =>
    obtain ⟨-, rfl⟩ : t = k.ticket ∧ outcome = .failed e := by simpa using hmem
    rw [hok e rfl] at herror
    cases herror.1
  | @closerEnds a closer hcloser hstage =>
    obtain ⟨rfl, -⟩ : t = closer.ticket ∧ outcome = .done := by simpa using hmem
    exact .inr (.inr (.inr ⟨closer, hcloser, rfl⟩))
  | foundOpen _ _ hlink | rejects _ hlink | sent _ hlink =>
    exact .inr (.inl ⟨by simp [hlink], by simp [hlink]⟩)
  | replied _ hlink | misreads _ hlink => exact .inr (.inl ⟨by simp [hlink], by simp⟩)
  | encodes _ _ _ hfrom => simp [(Usage.events_of_admits hfrom).2] at hmem
  | _ => simp at hmem

theorem Change.link_none_of_transport (h : Change c a c' events) {e : LinkError}
    (hmem : Event.settled t (.failed e) ∈ events) (he : e.isTransport = true) :
    c'.link = none := by
  cases h with
  | foundClosed | breaks => rfl
  | @refused t' call e' hrefusal =>
    obtain ⟨-, rfl⟩ : t = t' ∧ e = e' := by simpa using hmem
    rw [Call.not_isTransport_of_refusal hrefusal] at he
    cases he
  | @rejects a pre k rest l command e' hline hlink hcall hfrom hsubmit =>
    obtain ⟨-, rfl⟩ : t = k.ticket ∧ e = .protocol e' := by
      simpa [(Usage.events_of_admits hfrom).2] using hmem
    cases he
  | @misreads a k rest l l' e' hline hlink hfrom hdecode =>
    obtain ⟨-, rfl⟩ : t = k.ticket ∧ e = .protocol e' := by simpa using hmem
    cases he
  | encodes _ _ _ hfrom => simp [(Usage.events_of_admits hfrom).2] at hmem
  | _ => simp at hmem

/-- A command that is rejected is rejected where it is looked at, and the connection keeps the
stream as it is. -/
theorem Change.of_rejection (h : Change c a c' events) {e : LinkError}
    (hmem : Event.settled t (.failed e) ∈ events) (he : e.isRejection = true) :
    (∃ call, a = .enter t call ∧ call.refusal = some e ∧ c' = c) ∨
      ∃ k rest l pre, c.line = k :: rest ∧ k.ticket = t ∧ c.link = some l ∧ c'.link = some l ∧
        c.Admits k l a pre ∧ events = pre ++ [.settled t (.failed e)] := by
  cases h with
  | @refused t' call e' hrefusal =>
    obtain ⟨rfl, rfl⟩ : t = t' ∧ e = e' := by simpa using hmem
    exact .inl ⟨call, rfl, hrefusal, rfl⟩
  | @rejects a pre k rest l command e' hline hlink hcall hfrom hsubmit =>
    obtain ⟨rfl, rfl⟩ : t = k.ticket ∧ e = .protocol e' := by
      simpa [(Usage.events_of_admits hfrom).2] using hmem
    exact .inr ⟨k, rest, l, pre, hline, rfl, hlink, hlink, hfrom, rfl⟩
  | @foundClosed k rest hline hstage hclosed =>
    obtain ⟨-, houtcome⟩ : t = k.ticket ∧ .failed e = k.call.closedOutcome := by simpa using hmem
    cases hcall : k.call <;> rw [hcall] at houtcome <;> cases houtcome <;> cases he
  | @misreads a k rest l l' e' hline hlink hfrom hdecode =>
    obtain ⟨-, rfl⟩ : t = k.ticket ∧ e = .protocol e' := by simpa using hmem
    rcases Codec.decode_failed hdecode with rfl | rfl <;> cases he
  | @breaks a k rest l e' hline hlink hstage herror =>
    obtain ⟨-, rfl⟩ : t = k.ticket ∧ e = e' := by simpa using hmem
    rw [LinkError.not_isRejection_of_isTransport herror.1] at he
    cases he
  | encodes _ _ _ hfrom => simp [(Usage.events_of_admits hfrom).2] at hmem
  | _ => simp at hmem

/-- Who drains has just got the lock, or has drained before, and at most bytes have been taken of
the stream. -/
theorem Change.of_draining (h : Change c a c' events) {k : Caller} {rest : List Caller}
    (hline : c'.line = k :: rest) (hstage : k.stage = .draining)
    (hbehind : ∀ k' ∈ c.line.tail, k'.stage = .waiting)
    (hmanned : ∀ k' ∈ c.line, k'.stage ≠ .waiting → c.link ≠ none) :
    ∃ l l', c.link = some l ∧ c'.link = some l' ∧ l'.codec = l.codec ∧
      (Event.locked k.ticket ∈ events ∨ ∃ rest', c.line = k :: rest') := by
  have hrun : k.stage ≠ .waiting := by simp [hstage]
  -- who was in line before has drained before
  have hstays : k ∈ c.line → c'.link = c.link → ∃ l l', c.link = some l ∧ c'.link = some l' ∧
      l'.codec = l.codec ∧ (Event.locked k.ticket ∈ events ∨ ∃ rest', c.line = k :: rest') := by
    intro hmem hsame
    obtain ⟨l, hlink⟩ := Option.ne_none_iff_exists'.mp (hmanned k hmem hrun)
    exact ⟨l, l, hlink, hsame.trans hlink, rfl, .inr (head_of_stage hbehind hmem hrun)⟩
  have hleft : ∀ {k₀ rest₀}, c.line = k₀ :: rest₀ → rest₀ = k :: rest → False := by
    rintro k₀ rest₀ hc rfl
    exact hrun (hbehind k (by simp [hc]))
  have hmem : k ∈ c'.line := by simp [hline]
  cases h with
  | idle | refused | abortsBusy | closerAccepts | closerShuts | closerWaits | closerEnds =>
    exact hstays hmem rfl
  | queued =>
    refine hstays ((List.mem_append.mp hmem).resolve_right fun hnew ↦ ?_) rfl
    rw [List.mem_singleton.mp hnew] at hstage
    cases hstage
  | foundClosed hc | foundOpen hc | takesStream hc | rejects hc | sent hc | replied hc | misreads hc
  | breaks hc => exact (hleft hc hline).elim
  | @drains k₀ rest₀ l command hc hstage₀ hlink =>
    obtain ⟨rfl, -⟩ := List.cons.inj hline
    exact ⟨l, l, hlink, hlink, rfl, .inl List.mem_cons_self⟩
  | encodes | waits =>
    obtain ⟨rfl, -⟩ := List.cons.inj hline
    cases hstage
  | @accepts k₀ rest₀ l count hc hlink =>
    exact ⟨l, l.taken count, hlink, rfl, rfl, .inr (head_of_stage hbehind hmem hrun)⟩
  | @deserts ticket k₀ hk₀ hticket howes =>
    -- who owes a reply has the lock, and so he would be the one who drains
    obtain ⟨hmem, hne⟩ := List.mem_filter.mp hmem
    obtain ⟨rest', hc⟩ := head_of_stage hbehind hmem hrun
    obtain ⟨rest₀, hc₀⟩ := head_of_stage hbehind hk₀ (Caller.stage_ne_of_owesReply howes)
    obtain ⟨rfl, -⟩ := List.cons.inj (hc.symm.trans hc₀)
    simp [hticket] at hne
  | retires => exact hstays (List.mem_of_mem_filter hmem) rfl
  | abortsFree hc => simp [hc] at hmem

end Connection

namespace Usage

open Connection

variable {u : Usage}

/-! ## Every end of a call -/

/-- What is decided about the stream when a call fails. -/
structure Decided (u : Usage) : Prop where
  /-- Whoever has got the lock and goes on has a stream. -/
  manned : ∀ k ∈ u.connection.line, k.stage ≠ .waiting → u.connection.link ≠ none
  /-- After a fault of the stream there is none. -/
  transport : ∀ t e, Event.settled t (.failed e) ∈ u.events → e.isTransport = true →
    u.connection.link = none
  /-- Nothing of a rejected command has been encoded. -/
  rejected : ∀ t e, Event.settled t (.failed e) ∈ u.events → e.isRejection = true →
    ∀ p ∈ u.encoded, p.1 ≠ t

private theorem decided_fresh (peer : String) : (fresh peer).Decided where
  manned _ hk := absurd hk List.not_mem_nil
  transport _ _ hmem := absurd hmem List.not_mem_nil
  rejected _ _ hmem := absurd hmem List.not_mem_nil

private theorem Decided.call (h : u.Decided) (hsound : u.Sound) (call : Call) :
    (u.step (.call call)).Decided := by
  cases hcall : call.refusal with
  | none =>
    rw [step_call_of_not_refusal hcall]
    refine ⟨fun k hk hstage ↦ ?_, h.transport, h.rejected⟩
    rcases List.mem_append.mp hk with hk | hk
    · exact h.manned k hk hstage
    · rw [List.mem_singleton.mp hk] at hstage
      exact absurd rfl hstage
  | some e =>
    rw [step_call_of_refusal hcall]
    refine ⟨h.manned, fun t e' hmem htransport ↦ ?_, fun t e' hmem he p hp ↦ ?_⟩
    · rcases List.mem_append.mp hmem with hmem | hmem
      · exact h.transport t e' hmem htransport
      · obtain ⟨-, rfl⟩ : t = u.calls.length ∧ e' = e := by simpa using hmem
        rw [Call.not_isTransport_of_refusal hcall] at htransport
        cases htransport
    · have hp : p ∈ u.encoded := by simpa [encoded] using hp
      rcases List.mem_append.mp hmem with hmem | hmem
      · exact h.rejected t e' hmem he p hp
      · obtain ⟨rfl, -⟩ : t = u.calls.length ∧ e' = e := by simpa using hmem
        exact Nat.ne_of_lt (hsound.orderly.encoded_bound hp)

private theorem Decided.manned_change (h : u.Decided) (hsound : u.Sound) {a : Action}
    {c : Connection} {events : Trace} (ha : ∀ t call, a ≠ .enter t call)
    (hchange : u.connection.Change a c events) :
    ∀ k ∈ c.line, k.stage ≠ .waiting → c.link ≠ none := by
  have hbehind : ∀ {k₀ rest}, u.connection.line = k₀ :: rest → ∀ k ∈ rest,
      k.stage ≠ .waiting → c.link ≠ none :=
    fun hline k hk hstage ↦ absurd (hsound.behind_waiting hline k hk) hstage
  cases hchange with
  | refused | queued => exact absurd rfl (ha _ _)
  | idle | abortsBusy | closerAccepts | closerShuts | closerWaits | closerEnds => exact h.manned
  | foundClosed hline | takesStream hline | breaks hline => exact hbehind hline
  | foundOpen _ _ hlink | rejects _ hlink | sent _ hlink | drains _ _ hlink =>
    exact fun _ _ _ ↦ by simp [hlink]
  | encodes | accepts | replied | waits | misreads => exact fun _ _ _ ↦ by simp
  | @deserts ticket k hk hticket howes =>
    intro k' hk' hstage
    obtain ⟨hk', hne⟩ := List.mem_filter.mp hk'
    have hbehind := hsound.orderly.tail_waiting
    obtain ⟨rest', hline'⟩ := head_of_stage hbehind hk' hstage
    obtain ⟨rest, hline⟩ := head_of_stage hbehind hk (Caller.stage_ne_of_owesReply howes)
    obtain ⟨rfl, -⟩ := List.cons.inj (hline.symm.trans hline')
    simp [hticket] at hne
  | retires => exact fun k hk ↦ h.manned k (List.mem_of_mem_filter hk)
  | abortsFree hline => simp [hline]

private theorem Decided.change (h : u.Decided) (hsound : u.Sound) {a : Action} {c : Connection}
    {events : Trace} (ha : ∀ t call, a ≠ .enter t call)
    (hchange : u.connection.Change a c events) :
    Decided { u with connection := c, events := u.events ++ events } := by
  refine ⟨h.manned_change hsound ha hchange, fun t e hmem htransport ↦ ?_,
    fun t e hmem he p hp ↦ ?_⟩
  · rcases List.mem_append.mp hmem with hmem | hmem
    · exact hchange.link_none (h.transport t e hmem htransport)
    · exact hchange.link_none_of_transport hmem htransport
  · rw [encoded, Trace.encoded_append] at hp
    rcases List.mem_append.mp hmem with hmem | hmem
    · rcases List.mem_append.mp hp with hp | hp
      · exact h.rejected t e hmem he p hp
      · obtain ⟨k, hk, hticket, -⟩ := hchange.encoded_cases hp
        exact hticket ▸ (hsound.settled_gone t _ hmem).2 k hk
    · obtain ⟨call, hcall, -⟩ | ⟨k, rest, l, pre, hline, rfl, hlink, -, hfrom, rfl⟩ :=
        hchange.of_rejection hmem he
      · exact absurd hcall (ha t call)
      · have hk : k ∈ u.connection.line := hline ▸ List.mem_cons_self
        have hold : p ∈ u.encoded := by simpa [encoded, (events_of_admits hfrom).1] using hp
        cases hfrom with
        | atOnce hstage =>
          exact Nat.ne_of_lt (hsound.orderly.not_encoded_of_waiting hk hstage hold)
        | drained hstage =>
          exact Nat.ne_of_lt (hsound.orderly.not_encoded_of_draining hk hstage hold)

theorem decided_run (peer : String) (turns : List Turn) : ((fresh peer).run turns).Decided :=
  change_induction peer (decided_fresh peer) (fun _ call hsound h ↦ h.call hsound call)
    (fun _ _ _ _ ha hsound hchange h ↦ h.change hsound ha hchange) turns

/-! ## From the lock to the end -/

/-- In this turn a call is looked at: it is not put in line, or it has got the lock. -/
def Meets (u : Usage) (turn : Turn) (t : Ticket) : Prop :=
  Event.locked t ∈ u.noted turn ∨
    ∃ call, turn = .call call ∧ t = u.calls.length ∧ call.refusal ≠ none

/-- The call of this ticket ends in the last of these turns. -/
def Ends (u : Usage) (turns : List Turn) (t : Ticket) (outcome : Outcome) : Prop :=
  ∃ earlier last, turns = earlier ++ [last] ∧ Event.settled t outcome ∈ (u.run earlier).noted last

/-- Who drains has got the lock in one of the turns since his call, and the codec has been the same
ever since. -/
private theorem draining_since (hall : ∀ turns, (u.run turns).Sound ∧ (u.run turns).Decided)
    {t : Ticket} (hnew : ∀ k ∈ u.connection.line, k.ticket ≠ t) (turns : List Turn) :
    ∀ k rest, (u.run turns).connection.line = k :: rest → k.ticket = t → k.stage = .draining →
      ∃ found turn held, turns = found ++ turn :: held ∧ Event.locked t ∈ (u.run found).noted turn ∧
        (u.run found).connection.link.map (·.codec) =
          (u.run turns).connection.link.map (·.codec) := by
  induction turns using List.reverseRecOn with
  | nil =>
    intro k rest hline hticket
    exact absurd hticket (hnew k (hline ▸ List.mem_cons_self))
  | append_singleton turns turn ih =>
    rintro k rest hline rfl hstage
    obtain ⟨hsound, hdecided⟩ := hall turns
    have hstep : u.run (turns ++ [turn]) = (u.run turns).step turn := run_append u turns [turn]
    rw [hstep] at hline ⊢
    obtain ⟨a, -, hchange⟩ := (u.run turns).change_turn turn
    obtain ⟨l, l', hlink, hlink', hcodec, hfrom⟩ :=
      hchange.of_draining hline hstage hsound.orderly.tail_waiting hdecided.manned
    have hsame : (u.run turns).connection.link.map (·.codec) =
        ((u.run turns).step turn).connection.link.map (·.codec) := by
      rw [hlink, hlink', Option.map_some, Option.map_some, hcodec]
    rcases hfrom with hlocked | ⟨rest', hline'⟩
    · exact ⟨turns, turn, [], rfl, hlocked, hsame⟩
    · obtain ⟨found, turn', held, rfl, hlocked, hold⟩ := ih k rest' hline' rfl hstage
      exact ⟨found, turn', held ++ [turn], by simp, hlocked, hold.trans hsame⟩

/-! ## The law -/

/-- A call that ends in a turn was made in this very one, or it is known by its ticket. -/
theorem made_before {call : Call} {during earlier : List Turn} {last : Turn}
    (hturns : .call call :: during = earlier ++ [last]) :
    earlier = [] ∧ last = .call call ∨
      u.calls.length < (u.run earlier).calls.length ∧
        (u.run earlier).calls[u.calls.length]? = some call := by
  cases earlier with
  | nil => exact .inl ⟨rfl, (List.cons.inj hturns).1.symm⟩
  | cons first earlier =>
    obtain ⟨rfl, -⟩ := List.cons.inj hturns
    obtain ⟨more, hmore⟩ := (u.step (.call call)).calls_prefix_run earlier
    have hnew : (u.calls ++ [call])[u.calls.length]? = some call := List.getElem?_concat_length
    have hcalls : (u.run (.call call :: earlier)).calls[u.calls.length]? = some call := by
      change ((u.step (.call call)).run earlier).calls[u.calls.length]? = some call
      rw [← hmore]
      exact getElem?_append_of_some hnew more
    exact .inr ⟨(List.getElem?_eq_some_iff.mp hcalls).choose, hcalls⟩

section Passage

variable {call : Call} {command : Command} {during earlier : List Turn} {last : Turn}

/-- A call that ends without a fault of the stream has had one all the time, or has not been put in
line. -/
private theorem open_between (hall : ∀ turns, (u.run turns).Sound)
    (hcall : call.command? = some command) (hturns : .call call :: during = earlier ++ [last])
    {outcome : Outcome}
    (hmem : Event.settled u.calls.length outcome ∈ (u.run earlier).noted last)
    (hok : ∀ e, outcome = .failed e → e.isTransport = false) {between : List Turn}
    (hbetween : between <+: earlier) :
    (u.run between).connection.link.isSome =
      ((u.run earlier).step last).connection.link.isSome := by
  have hsound := hall earlier
  obtain ⟨a, ha, hchange⟩ := (u.run earlier).change_turn last
  -- whoever stands in line or ends the stream has made his call before the last turn
  have hknown : u.calls.length < (u.run earlier).calls.length →
      (u.run earlier).calls[u.calls.length]? = some call := by
    intro hlt
    obtain ⟨rfl, -⟩ | ⟨-, hcalls⟩ := made_before (u := u) hturns
    · exact absurd hlt (Nat.lt_irrefl _)
    · exact hcalls
  obtain ⟨call', hcall', hsame⟩ | ⟨hopen, hopen'⟩ | ⟨k, hk, hticket, hnone⟩ |
    ⟨k, hk, hticket⟩ := hchange.open_of_settled hmem hok
  · obtain ⟨rfl, -⟩ | ⟨hlt, -⟩ := made_before (u := u) hturns
    · rw [List.prefix_nil.mp hbetween, hsame]
    · exact absurd (ha _ _ hcall').2 (Nat.ne_of_lt hlt)
  · obtain ⟨more, rfl⟩ := hbetween
    have hbefore : (u.run between).connection.link ≠ none := by
      intro hnone
      rw [run_append] at hopen
      exact hopen (link_none_run hnone more)
    rw [Option.isSome_iff_ne_none.mpr hbefore, Option.isSome_iff_ne_none.mpr hopen']
  · have hcalls := hknown (hticket ▸ hsound.orderly.ticket_lt hk)
    rw [← hticket, hsound.orderly.call_of k hk] at hcalls
    rw [Option.some.inj hcalls, hcall] at hnone
    cases hnone
  · obtain ⟨hgone, hclose⟩ := hsound.closer_gone k hk
    rw [hticket, hknown (hticket ▸ hgone.1)] at hclose
    rw [Option.some.inj hclose] at hcall
    cases hcall

/-- A command that is rejected is rejected in the turn in which its call is looked at, or after
draining since then. The stream is not touched in the turn in which it is rejected. -/
private theorem met_before (hall : ∀ turns, (u.run turns).Sound ∧ (u.run turns).Decided)
    (hturns : .call call :: during = earlier ++ [last]) {e : LinkError}
    (hmem : Event.settled u.calls.length (.failed e) ∈ (u.run earlier).noted last)
    (he : e.isRejection = true) :
    ((u.run earlier).step last).connection.link = (u.run earlier).connection.link ∧
      ∃ found turn held, earlier ++ [last] = found ++ turn :: held ∧
        (u.run found).Meets turn u.calls.length ∧
        (u.run found).connection.link.map (·.codec) =
          (u.run earlier).connection.link.map (·.codec) := by
  obtain ⟨a, ha, hchange⟩ := (u.run earlier).change_turn last
  obtain ⟨call', rfl, hrefusal, hsame⟩ | ⟨k, rest, l, pre, hline, hticket, hlink, hlink', hfrom,
    hevents⟩ := hchange.of_rejection hmem he
  · obtain ⟨hlast, hlength⟩ := ha _ _ rfl
    refine ⟨by rw [hsame], earlier, last, [], rfl, .inr ⟨call', hlast, hlength, ?_⟩, rfl⟩
    simp [hrefusal]
  · refine ⟨hlink'.trans hlink.symm, ?_⟩
    cases hfrom with
    | atOnce =>
      refine ⟨earlier, last, [], rfl, .inl ?_, rfl⟩
      rw [hevents, hticket]
      exact List.mem_cons_self
    | drained hstage =>
      have hnew : ∀ k ∈ u.connection.line, k.ticket ≠ u.calls.length :=
        fun k hk ↦ Nat.ne_of_lt ((hall []).1.orderly.ticket_lt hk)
      obtain ⟨found, turn, held, rfl, hlocked, hcodec⟩ :=
        draining_since hall hnew earlier k rest hline hticket hstage
      exact ⟨found, turn, held ++ [last], by simp, .inl hlocked, hcodec⟩

end Passage

/-- **A failed stream is dropped, and no other.** A task sends or asks something, in any state that
a connection can get into, and its call ends. After a fault of the stream there is none. After any
other end the stream is there, or not there, as it has been all the time since the call was made. If
the command has been rejected, the codec expects what it expected when the call was looked at, the
last turn has not touched the stream at all, and not a byte of the command is ever put in front of
it. -/
theorem failsClosed_run (peer : String) (before during : List Turn) {call : Call}
    {command : Command} (hcall : call.command? = some command) {outcome : Outcome}
    (hends : ((fresh peer).run before).Ends (.call call :: during)
      ((fresh peer).run before).calls.length outcome) :
    let u := (fresh peer).run before
    let turns := .call call :: during
    (∀ e, outcome = .failed e → e.isTransport = true → (u.run turns).connection.link = none) ∧
    ((∀ e, outcome = .failed e → e.isTransport = false) → ∀ between, between <+: turns →
      (u.run between).connection.link.isSome = (u.run turns).connection.link.isSome) ∧
    (∀ e, outcome = .failed e → e.isRejection = true →
      (∃ found turn held, turns = found ++ turn :: held ∧ (u.run found).Meets turn u.calls.length ∧
        (u.run found).connection.link.map (·.codec.pending) =
          (u.run turns).connection.link.map (·.codec.pending)) ∧
      (∀ earlier last, turns = earlier ++ [last] →
        (u.run turns).connection.link = (u.run earlier).connection.link) ∧
      ∀ after, ∀ x ∈ ((u.run turns).run after).events.marked, x.1 ≠ u.calls.length) := by
  intro u turns
  have hall : ∀ more, (u.run more).Sound ∧ (u.run more).Decided := by
    intro more
    rw [← run_append]
    exact ⟨sound_run peer _, decided_run peer _⟩
  obtain ⟨earlier, last, hturns, hmem⟩ := hends
  have hturns' : turns = earlier ++ [last] := hturns
  have hrun : u.run (earlier ++ [last]) = (u.run earlier).step last := run_append u earlier [last]
  have hsettled : Event.settled u.calls.length outcome ∈ (u.run (earlier ++ [last])).events := by
    rw [hrun, events_step]
    exact List.mem_append_right _ hmem
  rw [hturns']
  refine ⟨fun e he htransport ↦ ?_, fun hok between hbetween ↦ ?_, fun e he hrejection ↦ ?_⟩
  · exact (hall _).2.transport _ e (he ▸ hsettled) htransport
  · rcases List.prefix_concat_iff.mp hbetween with rfl | hbetween
    · rfl
    · rw [hrun]
      exact open_between (fun more ↦ (hall more).1) hcall hturns hmem hok hbetween
  · rw [he] at hmem hsettled
    obtain ⟨hlink, found, turn, held, hsplit, hmeets, hcodec⟩ :=
      met_before hall hturns hmem hrejection
    refine ⟨⟨found, turn, held, hsplit, hmeets, ?_⟩, fun earlier' last' hsame ↦ ?_,
      fun after x hx ↦ ?_⟩
    · have hpending := congrArg (Option.map Codec.pending) hcodec
      rw [Option.map_map, Option.map_map] at hpending
      rw [hrun, hlink]
      exact hpending
    · obtain ⟨rfl, -⟩ := List.append_inj' hsame rfl
      rw [hrun, hlink]
    · obtain ⟨p, hp, hticket⟩ := Trace.encoded_of_marked hx
      rw [← run_append] at hp
      have hlater := (events_prefix_run (u.run (earlier ++ [last])) after).subset hsettled
      rw [← run_append] at hlater
      exact hticket ▸ (hall _).2.rejected _ e hlater hrejection p hp

/-- There is no tenth display. The task that wants to use it has waited for a lamp to be lit, and
leaves the stream to those who come after it. -/
theorem failsClosed_run_display :
    let u := (fresh "board").run [.call (.send (.lampOn 3)), .act .proceed]
    let turns : List Turn := [.call (.send (.showText 9 "A")), .act (.accept 2), .act .flush,
      .act .proceed]
    let e : LinkError := .protocol (.invalidDisplay "display 9 has no command code (max 6)")
    u.Ends turns 1 (.failed e) ∧ (u.run turns).connection.link.isSome = true ∧
      ∀ after, ∀ x ∈ ((u.run turns).run after).events.marked, x.1 ≠ 1 := by
  intro u turns e
  have hends : u.Ends turns 1 (.failed e) := ⟨turns.dropLast, .act .proceed, rfl, by decide +kernel⟩
  obtain ⟨-, hopen, hrejected⟩ := failsClosed_run "board"
    [.call (.send (.lampOn 3)), .act .proceed] [.act (.accept 2), .act .flush, .act .proceed]
    (by rfl) hends
  refine ⟨hends, ?_, (hrejected e rfl rfl).2.2⟩
  rw [← hopen (fun e' he ↦ by cases he; rfl) [] List.nil_prefix]
  rfl

end Usage

end PinballBoard
