import PinballBoard.Proofs.Link.Matching

/-!
# Connections without trouble

Nothing goes wrong on a connection as long as the stream takes bytes, passes them on and brings the
replies of the board, and as long as nobody gives anything up. `Action.isSmooth` are the actions of
such a life. They can come in any order and at any time; what is excluded is failure, not delay.

In such a life every call has its due end (`Call.EndsWell`): a question ends with a reply, and a
command without one is done when it has been written, or is refused if it has no frame. The stream
stays where it is, and who has made a call waits for it or has been told of its end.

The board contributes what `Usage.Expects` says: nothing is on its way but the reply to the question
of the task at the head, and it is not too long. So nothing that arrives is ever misread.
-/

namespace PinballBoard

/-- Whether an action can happen while nothing goes wrong. -/
def Action.isSmooth : Action → Bool
  | .proceed | .flush | .receive _ | .closerFlush _ | .shutdownEnds _ | .elapse _ => true
  | .accept count | .closerAccept _ count => count != 0
  | .enter _ _ | .writeFails _ | .ends | .readFails _ | .cancel _ | .abort
  | .closerWriteFails _ => false

namespace Call

/-- A call that sends a command and is not refused out of hand. -/
def IsOrder (call : Call) : Prop := call.command? ≠ none ∧ call.refusal = none

/-- How a call ends when nothing goes wrong. -/
def EndsWell : Call → Outcome → Prop
  | request _, outcome => ∃ reply, outcome = .reply reply
  | send command, outcome =>
    command.HasFrame ∧ outcome = .done ∨
      ∃ e, command.encode = .error e ∧ outcome = .failed (.protocol e)
  | probe, _ | close, _ => False

theorem IsOrder.hasFrame {command : Command} (h : (request command).IsOrder) :
    command.HasFrame := by
  refine (Command.hasFrame_of_replyKind fun hkind ↦ ?_).1
  simp [IsOrder, refusal, hkind] at h

end Call

namespace Connection

variable {c : Connection} {a : Action}

private theorem dropped_not_mem_leave (c : Connection) (outcome : Outcome) :
    .dropped ∉ (c.leave outcome).2 := by
  unfold leave
  split <;> simp

private theorem dropped_not_mem_submit (c : Connection) (l : Link) (caller : Caller)
    (command : Command) : .dropped ∉ (c.submit l caller command).2 := by
  unfold submit
  split
  · simp
  · exact dropped_not_mem_leave _ _

private theorem dropped_not_mem_deliver (c : Connection) (l : Link) :
    .dropped ∉ (c.deliver l).2 := by
  unfold deliver
  split
  · exact dropped_not_mem_leave _ _
  · simp
  · exact dropped_not_mem_leave _ _

private theorem dropped_not_mem_serve (c : Connection) (caller : Caller) :
    .dropped ∉ (c.serve caller).2 := by
  unfold serve
  split <;> first
    | exact dropped_not_mem_leave _ _
    | exact List.not_mem_nil
    | split <;> first | exact List.not_mem_nil | exact dropped_not_mem_submit _ _ _ _

private theorem dropped_not_mem_flushed (c : Connection) (l : Link) (caller : Caller) :
    .dropped ∉ (c.flushed l caller).2 := by
  unfold flushed
  split <;> first
    | exact dropped_not_mem_submit _ _ _ _
    | exact dropped_not_mem_leave _ _
    | exact dropped_not_mem_deliver _ _
    | exact List.not_mem_nil

theorem dropped_not_mem_step (ha : a.isSmooth) (hopen : c.aborted = false)
    (hcloser : c.closer = none) : .dropped ∉ (c.step a).2 := by
  cases a with
  | proceed =>
    have hheed : c.heedAbort = (c, []) := if_neg (by simp [hopen])
    rw [step, proceed]
    split
    · split
      · rename_i caller _ _ _
        simpa [hheed] using dropped_not_mem_serve c caller
      · simp
    · simp
  | accept count =>
    rw [step, accept]
    split
    · simp
    · split
      · simp
      · rw [if_neg (bne_iff_ne.mp ha)]
        simp
  | flush =>
    rw [step, flush]
    split
    · split
      · exact dropped_not_mem_flushed _ _ _
      · simp
    · simp
  | receive chunk =>
    rw [step, receive]
    split
    · split
      · simp
      · exact dropped_not_mem_deliver _ _
    · simp
  | closerAccept | closerFlush | shutdownEnds =>
    simp [step, closerAccept, closerFlush, shutdownEnds, updateCloser, hcloser]
  | elapse ms => simp [step, elapse, hcloser]
  | enter | writeFails | ends | readFails | cancel | abort | closerWriteFails => cases ha

/-- A command is refused while no reply is outstanding only if it has no frame. -/
theorem encode_of_submit_error {l : Link} {command : Command} {e : ProtocolError}
    (h : l.submit command = .error e) (hidle : l.codec.pending = none) :
    command.encode = .error e := by
  unfold Link.submit Codec.encode at h
  rw [hidle] at h
  cases hencode : command.encode with
  | ok frame =>
    rw [hencode] at h
    cases h
  | error e' =>
    rw [hencode] at h
    cases h
    rfl

end Connection

namespace Usage

open Connection

variable {u : Usage}

/-- A connection on which nothing has gone wrong, and whose tasks have done nothing but to send
commands. -/
structure Smooth (u : Usage) : Prop where
  /-- The stream is there, and nobody wants to end it. -/
  link_ne_none : u.connection.link ≠ none
  not_aborted : u.connection.aborted = false
  closer_eq : u.connection.closer = none
  order : ∀ call ∈ u.calls, call.IsOrder
  /-- Who has made a call waits for its end or has been told of it. -/
  present : ∀ t < u.calls.length,
    (∃ k ∈ u.connection.line, k.ticket = t) ∨ ∃ outcome, Event.settled t outcome ∈ u.events
  ended : ∀ t call outcome, u.calls[t]? = some call → Event.settled t outcome ∈ u.events →
    call.EndsWell outcome
  /-- Who reads has looked at all that has arrived. -/
  looked : ∀ k ∈ u.connection.line, k.stage = .reading → ∀ l, u.connection.link = some l →
    l.codec.decode l.incoming = .incomplete

theorem smooth_fresh (peer : String) : (fresh peer).Smooth where
  link_ne_none := Option.some_ne_none _
  not_aborted := rfl
  closer_eq := rfl
  order _ hcall := absurd hcall List.not_mem_nil
  present t ht := absurd ht (Nat.not_lt_zero t)
  ended _ _ _ _ hsettled := absurd hsettled List.not_mem_nil
  looked _ hk := absurd hk List.not_mem_nil

theorem Smooth.call (h : u.Smooth) (hsound : u.Sound) {call : Call} (hcall : call.IsOrder) :
    (u.step (.call call)).Smooth := by
  rw [step_call_of_not_refusal hcall.2]
  refine ⟨h.link_ne_none, h.not_aborted, h.closer_eq, fun other hother ↦ ?_, fun t ht ↦ ?_,
    fun t made outcome hmade hsettled ↦ ?_, fun k hk hstage ↦ ?_⟩
  · rcases List.mem_append.mp hother with hold | hnew
    · exact h.order other hold
    · exact List.mem_singleton.mp hnew ▸ hcall
  · rcases Nat.lt_or_ge t u.calls.length with hold | hnew
    · refine (h.present t hold).imp_left fun ⟨k, hk, hticket⟩ ↦ ⟨k, ?_, hticket⟩
      exact List.mem_append_left _ hk
    · have hlast : t = u.calls.length := by
        rw [List.length_append, List.length_singleton] at ht
        exact Nat.le_antisymm (Nat.le_of_lt_succ ht) hnew
      exact .inl ⟨_, List.mem_append_right _ (List.mem_singleton_self _), hlast.symm⟩
  · have hold := (hsound.settled_gone t outcome hsettled).1
    rw [List.getElem?_append_left hold] at hmade
    exact h.ended t made outcome hmade hsettled
  · rcases List.mem_append.mp hk with hold | hnew
    · exact h.looked k hold hstage
    · rw [List.mem_singleton.mp hnew] at hstage
      cases hstage

section Change

variable {a : Action} {c : Connection} {events : Trace} {k : Caller} {rest : List Caller}

/-- The task at the head is told of the end of its call, and leaves. -/
private theorem Smooth.leaves (h : u.Smooth) (hsound : u.Sound)
    (hline : u.connection.line = k :: rest) (hrest : c.line = rest) (hlink : c.link ≠ none)
    (haborted : c.aborted = u.connection.aborted) (hcloser : c.closer = u.connection.closer)
    (outcome : Outcome) (hevents : ∀ t o, Event.settled t o ∈ events ↔ t = k.ticket ∧ o = outcome)
    (hended : k.call.EndsWell outcome) :
    Smooth { u with connection := c, events := u.events ++ events } := by
  have hk : k ∈ u.connection.line := hline ▸ List.mem_cons_self
  refine ⟨hlink, haborted.trans h.not_aborted, hcloser.trans h.closer_eq, h.order, fun t ht ↦ ?_,
    fun t call o hcall hsettled ↦ ?_, fun k' hk' hstage ↦ ?_⟩
  · rcases h.present t ht with ⟨k', hk', rfl⟩ | ⟨o, hsettled⟩
    · rw [hline] at hk'
      rcases List.mem_cons.mp hk' with rfl | hbehind
      · exact .inr ⟨outcome, List.mem_append_right _ ((hevents _ _).mpr ⟨rfl, rfl⟩)⟩
      · exact .inl ⟨k', hrest ▸ hbehind, rfl⟩
    · exact .inr ⟨o, List.mem_append_left _ hsettled⟩
  · rcases List.mem_append.mp hsettled with hold | hnew
    · exact h.ended t call o hcall hold
    · obtain ⟨rfl, rfl⟩ := (hevents t o).mp hnew
      rw [hsound.orderly.call_of k hk] at hcall
      cases hcall
      exact hended
  · rw [hsound.behind_waiting hline k' (hrest ▸ hk')] at hstage
    cases hstage

/-- The task at the head gets on, and stays. -/
private theorem Smooth.stays (h : u.Smooth) (hsound : u.Sound)
    (hline : u.connection.line = k :: rest) (stage : Stage)
    (hrest : c.line = { k with stage } :: rest) (hlink : c.link ≠ none)
    (haborted : c.aborted = u.connection.aborted) (hcloser : c.closer = u.connection.closer)
    (hevents : events.settled = [])
    (hlooked : stage = .reading → ∀ l, c.link = some l →
      l.codec.decode l.incoming = .incomplete) :
    Smooth { u with connection := c, events := u.events ++ events } := by
  refine ⟨hlink, haborted.trans h.not_aborted, hcloser.trans h.closer_eq, h.order, fun t ht ↦ ?_,
    fun t call o hcall hsettled ↦ ?_, fun k' hk' hstage ↦ ?_⟩
  · rcases h.present t ht with ⟨k', hk', rfl⟩ | ⟨o, hsettled⟩
    · rw [hline] at hk'
      rcases List.mem_cons.mp hk' with rfl | hbehind
      · exact .inl ⟨{ k' with stage }, hrest ▸ List.mem_cons_self, rfl⟩
      · exact .inl ⟨k', hrest ▸ List.mem_cons_of_mem _ hbehind, rfl⟩
    · exact .inr ⟨o, List.mem_append_left _ hsettled⟩
  · rcases List.mem_append.mp hsettled with hold | hnew
    · exact h.ended t call o hcall hold
    · have hmem := Trace.mem_settled.mpr hnew
      rw [hevents] at hmem
      exact absurd hmem List.not_mem_nil
  · rw [hrest] at hk'
    rcases List.mem_cons.mp hk' with rfl | hbehind
    · exact hlooked hstage
    · rw [hsound.behind_waiting hline k' hbehind] at hstage
      cases hstage

private theorem Smooth.order_of (h : u.Smooth) (hsound : u.Sound)
    (hline : u.connection.line = k :: rest) : k.call.IsOrder := by
  have hcall := hsound.orderly.call_of k (hline ▸ List.mem_cons_self)
  exact h.order _ (List.mem_of_getElem? hcall)

/-- What is smooth leaves a connection without trouble. -/
theorem Smooth.change (h : u.Smooth) (hsound : u.Sound) (hframed : u.Framed) (ha : a.isSmooth)
    {heard : List (Command × Option Reply)} {unheard : List Command} {before after : Bytes}
    (hexpects : u.Expects heard unheard before) (hbefore : before = a.arrived ++ after)
    (hchange : u.connection.Change a c events) (hkept : .dropped ∉ events) :
    Smooth { u with connection := c, events := u.events ++ events } := by
  have hopen : ¬(u.connection.link = none ∨ u.connection.aborted = true) := by
    simp [h.link_ne_none, h.not_aborted]
  have hcloser : ∀ k, u.connection.closer ≠ some k := by simp [h.closer_eq]
  cases hchange with
  | idle =>
    refine ⟨h.link_ne_none, h.not_aborted, h.closer_eq, h.order, ?_, ?_, h.looked⟩ <;>
      rw [List.append_nil]
    exacts [h.present, h.ended]
  | refused | queued | deserts | retires | abortsFree | abortsBusy => cases ha
  | foundClosed hline hstage hclosed => exact absurd hclosed hopen
  | foundOpen hline hstage hlink hnot hcall | takesStream hline hstage hlink hnot hcall =>
    exact absurd (congrArg Call.command? hcall) (h.order_of hsound hline).1
  | breaks => exact absurd List.mem_cons_self hkept
  | closerAccepts hk | closerShuts hk | closerWaits hk | closerEnds hk =>
    exact absurd hk (hcloser _)
  | drains hline hstage hlink hnot hcall hroom =>
    exact h.stays hsound hline .draining rfl h.link_ne_none rfl rfl rfl nofun
  | @encodes a pre caller rest l l' command hline hlink hcall hfrom hsubmit =>
    refine h.stays hsound hline .writing rfl (Option.some_ne_none _) rfl rfl ?_ nofun
    cases hfrom <;> rfl
  | @rejects a pre caller rest l command e hline hlink hcall hfrom hsubmit =>
    obtain ⟨harrived, hstage⟩ := stage_of_admits hfrom
    obtain ⟨-, hidle, -⟩ := (hexpects l hlink).nothing_of_head hline hstage
    have hencode := encode_of_submit_error hsubmit hidle
    refine h.leaves hsound hline rfl h.link_ne_none rfl rfl (.failed (.protocol e)) ?_ ?_
    · intro t o
      cases hfrom <;> simp
    · have horder := h.order_of hsound hline
      cases hcase : caller.call with
      | send command' =>
        rw [hcase] at hcall
        cases hcall
        exact .inr ⟨e, hencode, rfl⟩
      | request command' =>
        rw [hcase] at hcall horder
        cases hcall
        have hframe := horder.hasFrame
        rw [Command.HasFrame, hencode] at hframe
        cases hframe
      | probe | close =>
        rw [hcase] at hcall
        cases hcall
  | @accepts caller rest l count hline hlink hstage hcount =>
    refine h.stays hsound hline caller.stage hline (Option.some_ne_none _) rfl rfl rfl ?_
    intro hreading
    simp [hreading] at hstage
  | @sent caller rest l command hline hlink hcall hstage hempty =>
    refine h.leaves hsound hline rfl h.link_ne_none rfl rfl .done (by simp) ?_
    obtain ⟨earlier, command', hcommand, hencoded⟩ :=
      hsound.orderly.encoded_last caller (hline ▸ List.mem_cons_self) (.inl hstage)
    rw [hcall] at hcommand ⊢
    cases hcommand
    refine .inl ⟨hframed.hasFrame (caller.ticket, command) ?_, rfl⟩
    rw [hencoded]
    exact List.mem_append_right _ (List.mem_singleton_self _)
  | @replied a caller rest l l' reply left hline hlink hfrom hdecode =>
    refine h.leaves hsound hline rfl (Option.some_ne_none _) rfl rfl (.reply reply) (by simp) ?_
    obtain ⟨-, -, -, earlier, command, hcall, -⟩ :=
      (reply_of_awaits hexpects hbefore hline hlink hfrom).2 reply left hdecode
    rw [hcall]
    exact ⟨reply, rfl⟩
  | @waits a caller rest l l' hline hlink hfrom hdecode =>
    refine h.stays hsound hline .reading rfl (Option.some_ne_none _) rfl rfl rfl ?_
    rintro - l'' hl''
    cases hl''
    exact hdecode
  | @misreads a caller rest l l' e hline hlink hfrom hdecode =>
    exact absurd hdecode ((reply_of_awaits hexpects hbefore hline hlink hfrom).1 e)

theorem Smooth.act (h : u.Smooth) (hsound : u.Sound) (hframed : u.Framed) (ha : a.isSmooth)
    {heard : List (Command × Option Reply)} {unheard : List Command} {before after : Bytes}
    (hexpects : u.Expects heard unheard before) (hbefore : before = a.arrived ++ after) :
    (u.act a).Smooth :=
  h.change hsound hframed ha hexpects hbefore (u.connection.change_step a)
    (dropped_not_mem_step ha h.not_aborted h.closer_eq)

end Change

end Usage

end PinballBoard
