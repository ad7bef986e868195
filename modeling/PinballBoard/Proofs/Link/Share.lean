import PinballBoard.Proofs.Link.Failure
import PinballBoard.Proofs.Link.Written

/-!
# What one task has written

Many tasks use a connection, and the bytes of one stand between those of the others. A task that
makes one call after the other can still be told what it has on the wire, from the ends of its calls
alone. Of a call that has ended well it is all of the frame, because the stream has taken everything
by then, and of a call that has not it is a beginning. So if all calls have ended well but perhaps
the last one, the bytes are the frames one after the other, and the last one perhaps in part
(`Usage.share_eq`).

## The last call

A send that fails is rejected or takes the stream with it (`Usage.Explained`). In the first case
nothing of it is ever encoded. In the second case nothing is encoded after it, by whomever
(`Usage.encoded_step`). In both of them it is the last call of its task of which anything is written
in part.
-/

namespace PinballBoard

/-! ## The bytes of some tickets -/

/-- The frames of some commands, byte by byte, each byte with the ticket of its command. -/
def tagged (encoded : List (Ticket × Command)) : List (Ticket × UInt8) :=
  encoded.flatMap fun p ↦ p.2.frame.map (p.1, ·)

theorem tagged_append (encoded more : List (Ticket × Command)) :
    tagged (encoded ++ more) = tagged encoded ++ tagged more := List.flatMap_append

theorem map_snd_tagged (encoded : List (Ticket × Command)) :
    (tagged encoded).map Prod.snd = Command.frames (encoded.map Prod.snd) := by
  rw [tagged, List.map_flatMap, Command.frames, List.flatMap_map]
  simp [Function.comp_def]

theorem mem_fst_of_tagged {encoded : List (Ticket × Command)} {x : Ticket × UInt8}
    (hx : x ∈ tagged encoded) : x.1 ∈ encoded.map Prod.fst := by
  obtain ⟨p, hp, hmem⟩ := List.mem_flatMap.mp hx
  obtain ⟨byte, -, rfl⟩ := List.mem_map.mp hmem
  exact List.mem_map_of_mem hp

theorem filter_tagged (encoded : List (Ticket × Command)) (tickets : List Ticket) :
    (tagged encoded).filter (fun x ↦ decide (x.1 ∈ tickets)) =
      tagged (encoded.filter fun p ↦ decide (p.1 ∈ tickets)) := by
  induction encoded with
  | nil => rfl
  | cons p encoded ih =>
    rw [tagged, List.flatMap_cons, List.filter_append, ← tagged, ih]
    by_cases hp : p.1 ∈ tickets <;> simp [tagged, hp, List.filter_map, Function.comp_def]

namespace Trace

/-- The bytes that the stream has taken of the calls with these tickets. -/
def share (t : Trace) (tickets : List Ticket) : Bytes :=
  (t.sent.filter fun x ↦ decide (x.1 ∈ tickets)).map Prod.snd

/-- What is due of a longer trace was marked after an earlier moment at which all had been taken. -/
theorem mem_marked_of_due {before after : Trace} (hall : before.written = before.frames)
    {x : Ticket × UInt8} (hx : x ∈ due (before ++ after)) : x ∈ after.marked := by
  have hlength : before.marked.length = before.written.length := by
    rw [hall, ← map_snd_marked, List.length_map]
  rw [due, marked_append, written_append, List.length_append, ← hlength,
    List.drop_length_add_append] at hx
  exact List.mem_of_mem_drop hx

end Trace

theorem Connection.Change.encoded_eq {c c' : Connection} {a : Action} {events : Trace}
    (h : Change c a c' events) : events.encoded = [] ∨ ∃ p, events.encoded = [p] := by
  cases h with
  | @encodes a pre k rest l l' command hline hlink hcall hfrom =>
    refine .inr ⟨(k.ticket, command), ?_⟩
    rw [Trace.encoded_append, (Usage.events_of_admits hfrom).1]
    rfl
  | rejects hline hlink hcall hfrom => exact .inl (by simp [(Usage.events_of_admits hfrom).1])
  | _ => exact .inl (by simp)

/-- What fails a send. It was turned away, or there is no stream any more, or the codec has rejected
it: then there is no frame for it, or a reply is outstanding. -/
inductive SendFault (command : Command) : LinkError → Prop where
  | refused {e : LinkError} (h : (Call.send command).refusal = some e) : SendFault command e
  | lost {e : LinkError} (h : e.isTransport = true) : SendFault command e
  | rejected {e : ProtocolError} (h : (LinkError.protocol e).isRejection = true)
      (hframe : command.HasFrame → ∃ expected actual, e = .unexpectedReply expected actual) :
      SendFault command (.protocol e)

namespace Usage

open Connection

variable {u : Usage}

theorem not_due_of_ended (hsound : u.Sound) (hsettled : u.Settled) {t : Ticket} {command : Command}
    {outcome : Outcome} (hcall : u.calls[t]?.bind Call.command? = some command)
    (hmem : Event.settled t outcome ∈ u.events) (hok : ∀ e, outcome ≠ .failed e) :
    (t, command) ∈ u.encoded ∧ ∀ x ∈ u.events.due, x.1 ≠ t := by
  obtain ⟨before, after, hevents⟩ := List.append_of_mem hmem
  obtain ⟨⟨earlier, hearlier⟩, hall⟩ :=
    hsettled.ended_well before t outcome after command hevents hok hcall
  have hlt := hsound.orderly.encoded_lt
  have hencoded : u.encoded = earlier ++ [(t, command)] ++
      Trace.encoded (.settled t outcome :: after) := by
    rw [encoded, hevents, Trace.encoded_append, hearlier]
  refine ⟨by rw [hencoded]; simp, fun x hx heq ↦ ?_⟩
  -- what is due was encoded after the call, so it is of a later one
  rw [hevents] at hx
  obtain ⟨p, hp, hticket⟩ := Trace.encoded_of_marked (Trace.mem_marked_of_due hall hx)
  rw [hencoded, List.map_append, List.pairwise_append] at hlt
  have hlater := hlt.2.2 t (by simp) p.1 (List.mem_map_of_mem hp)
  rw [hticket, heq] at hlater
  exact Nat.lt_irrefl t hlater

/-- What has been encoded of a task are the commands whose calls have ended well, and perhaps the
last one. -/
theorem filter_encoded_eq (hsound : u.Sound) {ended : List (Ticket × Command)}
    {last? : Option (Ticket × Command)}
    (hascending : ((ended ++ last?.toList).map Prod.fst).Pairwise (· < ·))
    (hcalls : ∀ p ∈ ended ++ last?.toList, u.calls[p.1]?.bind Call.command? = some p.2)
    (hended : ∀ p ∈ ended, p ∈ u.encoded) :
    u.encoded.filter (fun p ↦ decide (p.1 ∈ (ended ++ last?.toList).map Prod.fst)) =
      ended ++ last?.toList.filter fun p ↦ decide (p ∈ u.encoded) := by
  refine eq_of_ascending (hsound.orderly.encoded_lt.sublist (List.filter_sublist.map _))
    (hascending.sublist ((List.filter_sublist.append_left _).map _)) fun p ↦ ?_
  rw [List.mem_filter, List.mem_append, List.mem_filter, decide_eq_true_iff, decide_eq_true_iff]
  constructor
  · rintro ⟨hp, hticket⟩
    -- a ticket has one command
    obtain ⟨q, hq, heq⟩ := List.mem_map.mp hticket
    obtain ⟨call, hcall, hcommand⟩ := hsound.orderly.encoded_call p hp
    have hsame := hcalls q hq
    rw [heq, hcall, Option.bind_some, hcommand] at hsame
    obtain rfl : q = p := Prod.ext heq (Option.some.inj hsame).symm
    exact (List.mem_append.mp hq).imp_right fun hlast ↦ ⟨hlast, hp⟩
  · rintro (hp | ⟨hlast, hp⟩)
    · exact ⟨hended p hp, List.mem_map_of_mem (List.mem_append_left _ hp)⟩
    · exact ⟨hp, List.mem_map_of_mem (List.mem_append_right _ hlast)⟩

/-- **What one task has written.** All its calls have ended well, but perhaps the last one. -/
theorem share_eq (hsound : u.Sound) (hsettled : u.Settled)
    {ended : List (Ticket × Command)} {last? : Option (Ticket × Command)}
    (hascending : ((ended ++ last?.toList).map Prod.fst).Pairwise (· < ·))
    (hcalls : ∀ p ∈ ended ++ last?.toList, u.calls[p.1]?.bind Call.command? = some p.2)
    (hok : ∀ p ∈ ended, ∃ outcome, Event.settled p.1 outcome ∈ u.events ∧
      ∀ e, outcome ≠ .failed e) :
    ∃ part, u.events.share ((ended ++ last?.toList).map Prod.fst) =
        Command.frames (ended.map Prod.snd) ++ part ∧
      part <+: Command.frames (last?.toList.map Prod.snd) := by
  have hclear : ∀ p ∈ ended, p ∈ u.encoded ∧ ∀ x ∈ u.events.due, x.1 ≠ p.1 := by
    intro p hp
    obtain ⟨outcome, hmem, hwell⟩ := hok p hp
    exact not_due_of_ended hsound hsettled (hcalls p (List.mem_append_left _ hp)) hmem hwell
  have hown := filter_encoded_eq hsound hascending hcalls fun p hp ↦ (hclear p hp).1
  generalize (ended ++ last?.toList).map Prod.fst = tickets at hown ⊢
  have hextra :
      Command.frames ((last?.toList.filter fun p ↦ decide (p ∈ u.encoded)).map Prod.snd) <+:
        Command.frames (last?.toList.map Prod.snd) := by
    cases last? with
    | none => exact List.prefix_rfl
    | some p => by_cases hp : p ∈ u.encoded <;> simp [hp]
  generalize last?.toList.filter (fun p ↦ decide (p ∈ u.encoded)) = extra at hown hextra
  -- all that is marked is either sent or due
  have hsplit : (u.events.sent.filter fun x ↦ decide (x.1 ∈ tickets)) ++
      (u.events.due.filter fun x ↦ decide (x.1 ∈ tickets)) = tagged ended ++ tagged extra := by
    rw [← List.filter_append, Trace.sent, Trace.due, List.take_append_drop, ← tagged_append, ← hown,
      ← filter_tagged]
    rfl
  rw [Trace.share]
  obtain ⟨rest, hended, hdue⟩ | ⟨part, hsent, hrest⟩ := List.append_eq_append_iff.mp hsplit
  · obtain rfl : rest = [] := by
      refine List.eq_nil_iff_forall_not_mem.mpr fun x hx ↦ ?_
      obtain ⟨p, hp, hticket⟩ := List.mem_map.mp
        (mem_fst_of_tagged (hended ▸ List.mem_append_right _ hx))
      have hmem : x ∈ u.events.due.filter _ := hdue ▸ List.mem_append_left _ hx
      exact (hclear p hp).2 x (List.mem_filter.mp hmem).1 hticket.symm
    rw [List.append_nil] at hended
    exact ⟨[], by rw [← hended, map_snd_tagged, List.append_nil], List.nil_prefix⟩
  · refine ⟨part.map Prod.snd, by rw [hsent, List.map_append, map_snd_tagged], ?_⟩
    refine List.IsPrefix.trans ?_ hextra
    rw [← map_snd_tagged, hrest]
    exact (List.prefix_append _ _).map _

/-- If nobody else has made a call, all bytes are of the task. -/
theorem share_eq_written (hsound : u.Sound) (htaken : u.events.written <+: u.events.frames)
    {tickets : List Ticket} (hall : ∀ t < u.calls.length, t ∈ tickets) :
    u.events.share tickets = u.written := by
  have hsent : u.events.sent.filter (fun x ↦ decide (x.1 ∈ tickets)) = u.events.sent :=
    List.filter_eq_self.mpr fun x hx ↦ decide_eq_true (hall x.1 (hsound.sent_lt hx))
  rw [Trace.share, hsent]
  exact Trace.map_snd_sent htaken

/-! ## Sends that fail -/

theorem encoded_step (hdecided : u.Decided) (turn : Turn) :
    (u.step turn).encoded = u.encoded ∨ ∃ p, (u.step turn).encoded = u.encoded ++ [p] ∧
      ¬u.Gone p.1 ∧ u.connection.link ≠ none := by
  obtain ⟨a, -, hchange⟩ := u.change_turn turn
  have hsplit : (u.step turn).encoded = u.encoded ++ Trace.encoded (u.noted turn) := by
    rw [encoded, events_step, Trace.encoded_append]
    rfl
  rw [hsplit]
  obtain hnone | ⟨p, hone⟩ := hchange.encoded_eq
  · exact .inl (by rw [hnone, List.append_nil])
  · refine .inr ⟨p, by rw [hone], ?_⟩
    obtain ⟨k, hk, hticket, hopen⟩ := hchange.encoded_cases (hone ▸ List.mem_singleton_self p)
    refine ⟨fun hgone ↦ hgone.2 k hk hticket, ?_⟩
    rcases hopen with hstage | ⟨hlink, -⟩
    · exact hdecided.manned k hk (by simp [hstage])
    · exact hlink

theorem encoded_call (u : Usage) (call : Call) : (u.step (.call call)).encoded = u.encoded := by
  cases hcall : call.refusal with
  | some e =>
    rw [step_call_of_refusal hcall]
    simp [encoded]
  | none => rw [step_call_of_not_refusal hcall, encoded, encoded]

/-- All sends that have failed have failed in one of the ways in which a send can. -/
def Explained (u : Usage) : Prop :=
  ∀ t e command, Event.settled t (.failed e) ∈ u.events → u.calls[t]? = some (.send command) →
    SendFault command e

private theorem Explained.call (h : u.Explained) (hsound : u.Sound) (call : Call) :
    (u.step (.call call)).Explained := by
  intro t e command hmem hcall
  have hold : ∀ t, t < u.calls.length → (u.calls ++ [call])[t]? = u.calls[t]? :=
    fun t ht ↦ List.getElem?_append_left ht
  change (u.calls ++ [call])[t]? = _ at hcall
  rw [events_step, List.mem_append] at hmem
  rcases hmem with hmem | hmem
  · rw [hold t (hsound.settled_gone t _ hmem).1] at hcall
    exact h t e command hmem hcall
  · simp only [noted, Connection.step, Connection.enter] at hmem
    cases hrefusal : call.refusal with
    | none => simp [hrefusal] at hmem
    | some e' =>
      obtain ⟨rfl, rfl⟩ : t = u.calls.length ∧ e = e' := by simpa [hrefusal] using hmem
      obtain rfl : call = .send command := by simpa using hcall
      exact .refused hrefusal

private theorem Explained.change (h : u.Explained) (hsound : u.Sound) {a : Action} {c : Connection}
    {events : Trace} (ha : ∀ t call, a ≠ .enter t call)
    (hchange : u.connection.Change a c events) :
    Explained { u with connection := c, events := u.events ++ events } := by
  intro t e command hmem hcall
  rcases List.mem_append.mp hmem with hmem | hmem
  · exact h t e command hmem hcall
  · obtain ⟨call, hcall, -⟩ | ⟨htransport, -⟩ | ⟨e', rfl, -, -, k, hk, rfl, hhow⟩ :=
      hchange.cases_of_failed hmem
    · exact absurd hcall (ha t call)
    · exact .lost htransport
    · have hsend : k.call = .send command :=
        Option.some.inj ((hsound.orderly.call_of k hk).symm.trans hcall)
      rcases hhow with ⟨hreject, hunexpected⟩ | hreads
      · exact .rejected hreject (hunexpected command (by rw [hsend]; rfl))
      · -- who reads has asked
        obtain ⟨command', hrequest⟩ : ∃ command, k.call = .request command :=
          hreads.elim (hsound.orderly.reading_request k hk) id
        rw [hsend] at hrequest
        cases hrequest

theorem explained_run (peer : String) (turns : List Turn) : ((fresh peer).run turns).Explained :=
  change_induction peer (fun _ _ _ hmem ↦ absurd hmem List.not_mem_nil)
    (fun _ call hsound h ↦ h.call hsound call)
    (fun _ _ _ _ ha hsound hchange h ↦ h.change hsound ha hchange) turns

/-- If anything of a send that has failed was encoded, there is no stream any more. -/
theorem link_none_of_failed (hexplained : u.Explained) (hdecided : u.Decided) {t : Ticket}
    {e : LinkError} {command : Command} (hmem : Event.settled t (.failed e) ∈ u.events)
    (hcall : u.calls[t]? = some (.send command)) (hencoded : t ∈ u.encoded.map Prod.fst) :
    u.connection.link = none := by
  obtain ⟨p, hp, hticket⟩ := List.mem_map.mp hencoded
  cases hexplained t e command hmem hcall with
  | refused hrefusal =>
    have hreject := Call.isRejection_of_refusal hrefusal
    exact absurd hticket (hdecided.rejected t e hmem hreject p hp)
  | lost htransport => exact hdecided.transport t e hmem htransport
  | rejected hreject => exact absurd hticket (hdecided.rejected t _ hmem hreject p hp)

/-- A send of something that can be sent fails because there is no stream any more, or because the
connection is jammed. -/
theorem lost_or_jammed (hexplained : u.Explained) (hdecided : u.Decided) (htold : u.Told)
    {t : Ticket} {e : LinkError} {command : Command} (hkind : command.replyKind = none)
    (hframe : command.HasFrame) (hmem : Event.settled t (.failed e) ∈ u.events)
    (hcall : u.calls[t]? = some (.send command)) :
    (e.isTransport = true ∧ u.connection.link = none) ∨
      u.events.Jammed ∧ ∃ expected actual, e = .protocol (.unexpectedReply expected actual) := by
  cases hexplained t e command hmem hcall with
  | refused hrefusal => simp [Call.refusal, hkind] at hrefusal
  | lost htransport => exact .inl ⟨htransport, hdecided.transport t e hmem htransport⟩
  | rejected hreject hunexpected =>
    obtain ⟨expected, actual, rfl⟩ := hunexpected hframe
    obtain ⟨before, after, hevents⟩ := List.append_of_mem hmem
    have hjammed := htold.unexpected_after before t expected actual after hevents
    refine .inr ⟨?_, expected, actual, rfl⟩
    rw [hevents]
    exact Trace.jammed_append.mpr (.inl hjammed)

end Usage

end PinballBoard
