import PinballBoard.Proofs.Link.Framing

/-!
# Whose bytes are written

The stream takes bytes, not commands, and a frame can be taken in pieces long after its call has
gone. To say that a task has stopped writing, one has to know of each byte whose it is.

So the bytes are marked with the call that they are of. The marks of all that the codec has accepted
are a list (`Trace.marked`), the stream has taken its front (`Trace.sent`), and what is left is due
(`Trace.due`). No byte carries a mark on its way; what has been taken is told by its number alone,
because nothing is overtaken.

## What requests leave behind

Only a send can leave bytes behind when it goes. A request that goes before it has been answered
takes the stream with it, and an answer is not read before everything has been passed on. So what is
due is of a send, or of the request that is being written (`Usage.Billed`), and a request that has
gone never writes again (`Usage.sent_act`).
-/

namespace PinballBoard

/-! ## Marked bytes -/

namespace Trace

/-- The frames of the accepted commands, byte by byte, each byte with the call that it is of. -/
def marked (t : Trace) : List (Ticket × UInt8) :=
  t.encoded.flatMap fun p ↦ p.2.frame.map (p.1, ·)

/-- The bytes that the stream has taken, each with the call that it is of. -/
def sent (t : Trace) : List (Ticket × UInt8) := t.marked.take t.written.length

/-- The bytes that the stream has not taken, each with the call that it is of. -/
def due (t : Trace) : List (Ticket × UInt8) := t.marked.drop t.written.length

theorem marked_append (t s : Trace) : marked (t ++ s) = t.marked ++ s.marked := by
  rw [marked, encoded_append, List.flatMap_append]
  rfl

theorem map_snd_marked (t : Trace) : t.marked.map Prod.snd = t.frames := by
  rw [marked, List.map_flatMap, frames, Command.frames, List.flatMap_map]
  simp [Function.comp_def]

/-- Where nothing is overtaken, what is marked as sent are the bytes that have been written. -/
theorem map_snd_sent {t : Trace} (h : t.written <+: t.frames) :
    t.sent.map Prod.snd = t.written := by
  rw [sent, List.map_take, map_snd_marked]
  exact (List.prefix_iff_eq_take.mp h).symm

theorem marked_of_encoded_nil {t : Trace} (h : t.encoded = []) : t.marked = [] := by
  rw [marked, h, List.flatMap_nil]

theorem sent_append_of_not_encoded {t s : Trace} (h : s.encoded = []) :
    sent (t ++ s) = t.sent ++ t.due.take s.written.length := by
  rw [sent, marked_append, marked_of_encoded_nil h, List.append_nil, written_append,
    List.length_append, List.take_add]
  rfl

theorem due_append_of_not_encoded {t s : Trace} (h : s.encoded = []) :
    due (t ++ s) = t.due.drop s.written.length := by
  rw [due, marked_append, marked_of_encoded_nil h, List.append_nil, written_append,
    List.length_append, ← List.drop_drop]
  rfl

private theorem written_length_le {t : Trace} (h : t.written <+: t.frames) :
    t.written.length ≤ t.marked.length := by
  rw [← List.length_map Prod.snd, map_snd_marked]
  exact h.length_le

theorem sent_append_of_not_written {t s : Trace} (ht : t.written <+: t.frames)
    (h : s.written = []) : sent (t ++ s) = t.sent := by
  rw [sent, marked_append, written_append, h, List.append_nil,
    List.take_append_of_le_length (written_length_le ht)]
  rfl

theorem due_append_of_not_written {t s : Trace} (ht : t.written <+: t.frames)
    (h : s.written = []) : due (t ++ s) = t.due ++ s.marked := by
  rw [due, marked_append, written_append, h, List.append_nil,
    List.drop_append_of_le_length (written_length_le ht)]
  rfl

theorem sent_due_silent {t s : Trace} (ht : t.written <+: t.frames) (hwritten : s.written = [])
    (hencoded : s.encoded = []) : sent (t ++ s) = t.sent ∧ due (t ++ s) = t.due := by
  constructor
  · exact sent_append_of_not_written ht hwritten
  · rw [due_append_of_not_written ht hwritten, marked_of_encoded_nil hencoded, List.append_nil]

end Trace

namespace Usage

open Connection

variable {u : Usage}

private theorem map_snd_due (hframed : u.Framed) {b : Bytes}
    (hunsent : u.connection.unsent? = some b) : u.events.due.map Prod.snd = b := by
  rw [Trace.due, List.map_drop, Trace.map_snd_marked]
  have hall : u.events.written ++ b = u.events.frames := hframed.unsent b hunsent
  rw [← hall, List.drop_left]

/-! ## Steps -/

/-- What a step adds to the bytes that have been taken was due, and what it adds to those that are
due is of a command that it has accepted. -/
private theorem sent_due_change (hframed : u.Framed) {a : Action} {c : Connection} {events : Trace}
    (hchange : u.connection.Change a c events) :
    (∃ more, Trace.sent (u.events ++ events) = u.events.sent ++ more ∧
        ∀ x ∈ more, x ∈ u.events.due ∧ u.connection.unsent? ≠ none) ∧
      ∀ x ∈ Trace.due (u.events ++ events), c.unsent? ≠ none →
        (x ∈ u.events.due ∧ u.connection.unsent? ≠ none) ∨
          ∃ command, (x.1, command) ∈ events.encoded := by
  have hmovement := hchange.movement hframed.oneStream
  have hprefix : u.events.written <+: u.events.frames := hframed.inOrder u.events List.prefix_rfl
  generalize hbefore : u.connection.unsent? = before at hmovement
  generalize hafter : c.unsent? = after at hmovement
  cases hmovement with
  | stays _ hwritten hencoded =>
    obtain ⟨hsent, hdue⟩ := Trace.sent_due_silent hprefix hwritten hencoded
    rw [hsent, hdue]
    exact ⟨⟨[], (List.append_nil _).symm, by simp⟩, fun x hx hopen ↦ .inl ⟨hx, hopen⟩⟩
  | lost _ hwritten hencoded =>
    obtain ⟨hsent, hdue⟩ := Trace.sent_due_silent hprefix hwritten hencoded
    rw [hsent, hdue]
    exact ⟨⟨[], (List.append_nil _).symm, by simp⟩, fun x hx hopen ↦ absurd rfl hopen⟩
  | taken b count =>
    refine ⟨⟨_, Trace.sent_append_of_not_encoded rfl, fun x hx ↦ ?_⟩, fun x hx _ ↦ .inl ⟨?_, ?_⟩⟩
    · exact ⟨List.mem_of_mem_take hx, by simp⟩
    · rw [Trace.due_append_of_not_encoded rfl] at hx
      exact List.mem_of_mem_drop hx
    · simp
  | @grows b _ t command hframe hwritten hencoded =>
    refine ⟨⟨[], ?_, by simp⟩, fun x hx _ ↦ ?_⟩
    · rw [Trace.sent_append_of_not_written hprefix hwritten, List.append_nil]
    · rw [Trace.due_append_of_not_written hprefix hwritten] at hx
      rcases List.mem_append.mp hx with hx | hx
      · exact .inl ⟨hx, by simp⟩
      · obtain ⟨p, hp, hx⟩ := List.mem_flatMap.mp hx
        obtain ⟨byte, -, rfl⟩ := List.mem_map.mp hx
        exact .inr ⟨p.2, hp⟩

/-- Whose bytes are due: those of sends, and those of the request that is being written. -/
structure Billed (u : Usage) : Prop where
  due_of : u.connection.unsent? ≠ none → ∀ x ∈ u.events.due,
    (∃ command, u.calls[x.1]? = some (.send command)) ∨
      ∃ k ∈ u.connection.line, k.ticket = x.1 ∧ k.stage = .writing ∧ u.connection.link ≠ none

private theorem billed_fresh (peer : String) : (fresh peer).Billed :=
  ⟨fun _ _ hx ↦ absurd hx List.not_mem_nil⟩

private theorem Billed.call (h : u.Billed) (call : Call) : (u.step (.call call)).Billed := by
  have hkept : ∀ {x : Ticket × UInt8}, (∃ command, u.calls[x.1]? = some (.send command)) →
      ∃ command, (u.calls ++ [call])[x.1]? = some (.send command) :=
    fun ⟨command, hcalls⟩ ↦ ⟨command, getElem?_append_of_some hcalls _⟩
  cases hcall : call.refusal with
  | none =>
    rw [step_call_of_not_refusal hcall]
    refine ⟨fun hopen x hx ↦ (h.due_of hopen x hx).imp hkept fun ⟨k, hk, hrest⟩ ↦ ?_⟩
    exact ⟨k, List.mem_append_left _ hk, hrest⟩
  | some e =>
    rw [step_call_of_refusal hcall]
    refine ⟨fun hopen x hx ↦ (h.due_of hopen x ?_).imp hkept id⟩
    rw [Trace.due_append_of_not_encoded rfl] at hx
    exact List.mem_of_mem_drop hx

/-- Where nobody writes, only bytes of sends are due. -/
private theorem Billed.of_idle (h : u.Billed) {c : Connection} {events : Trace}
    (hdue : ∀ x ∈ Trace.due (u.events ++ events), c.unsent? ≠ none →
      x ∈ u.events.due ∧ u.connection.unsent? ≠ none)
    (hidle : ∀ k ∈ u.connection.line, k.stage = .writing → u.connection.link = none) :
    Billed { u with connection := c, events := u.events ++ events } := by
  refine ⟨fun hopen x hx ↦ .inl ?_⟩
  obtain ⟨hx, hopen⟩ := hdue x hx hopen
  rcases h.due_of hopen x hx with hsend | ⟨k, hk, -, hstage, hlink⟩
  · exact hsend
  · exact absurd (hidle k hk hstage) hlink

private theorem Billed.of_same (h : u.Billed) {c : Connection} {events : Trace}
    (hdue : ∀ x ∈ Trace.due (u.events ++ events), c.unsent? ≠ none →
      x ∈ u.events.due ∧ u.connection.unsent? ≠ none)
    (hline : c.line = u.connection.line) (hlink : u.connection.link ≠ none → c.link ≠ none) :
    Billed { u with connection := c, events := u.events ++ events } := by
  refine ⟨fun hopen x hx ↦ ?_⟩
  obtain ⟨hx, hopen⟩ := hdue x hx hopen
  refine (h.due_of hopen x hx).imp_right ?_
  rintro ⟨k, hk, hticket, hstage, hsome⟩
  exact ⟨k, hline ▸ hk, hticket, hstage, hlink hsome⟩

private theorem Billed.change (h : u.Billed) (hsound : u.Sound) (hframed : u.Framed) {a : Action}
    {c : Connection} {events : Trace} (ha : ∀ t call, a ≠ .enter t call)
    (hchange : u.connection.Change a c events) :
    Billed { u with connection := c, events := u.events ++ events } := by
  have hnew := (sent_due_change hframed hchange).2
  have hold : events.encoded = [] → ∀ x ∈ Trace.due (u.events ++ events), c.unsent? ≠ none →
      x ∈ u.events.due ∧ u.connection.unsent? ≠ none := by
    intro hencoded x hx hopen
    exact (hnew x hx hopen).resolve_right (by simp [hencoded])
  -- only the head can write, for the others wait
  have hhead : ∀ {caller rest}, u.connection.line = caller :: rest →
      ∀ k ∈ u.connection.line, k.stage = .writing → k = caller := by
    intro caller rest hline k hk hstage
    rw [hline] at hk
    rcases List.mem_cons.mp hk with rfl | hk
    · rfl
    · simp [hsound.behind_waiting hline k hk] at hstage
  have hidle : ∀ {caller rest}, u.connection.line = caller :: rest → caller.stage ≠ .writing →
      ∀ k ∈ u.connection.line, k.stage = .writing → u.connection.link = none := by
    intro caller rest hline hne k hk hstage
    exact absurd (hhead hline k hk hstage ▸ hstage) hne
  -- where the frame of a request has been passed on, nothing is due
  have hclear : ∀ {caller rest l l' a}, u.connection.line = caller :: rest →
      u.connection.link = some l → Awaits caller l a l' → u.events.due = [] := by
    intro caller rest l l' a hline hlink hfrom
    have hmap := map_snd_due hframed (unsent?_of_link hlink)
    rwa [hframed.outgoing_of_awaits hline hlink hfrom, List.map_eq_nil_iff] at hmap
  cases hchange with
  | refused | queued => exact absurd rfl (ha _ _)
  | idle | abortsBusy | closerAccepts | closerShuts | closerWaits | closerEnds =>
    exact h.of_same (hold rfl) rfl id
  | accepts => exact h.of_same (hold rfl) rfl fun _ ↦ by simp
  | foundClosed hline hstage => exact h.of_idle (hold (by simp)) (hidle hline (by simp [hstage]))
  | foundOpen hline hstage | takesStream hline hstage | drains hline hstage =>
    exact h.of_idle (hold rfl) (hidle hline (by simp [hstage]))
  | abortsFree hline =>
    refine h.of_idle (hold (by simp)) fun k hk ↦ ?_
    rw [hline] at hk
    exact absurd hk List.not_mem_nil
  | @rejects a pre k rest l command e hline hlink hcall hfrom hsubmit =>
    exact h.of_idle (hold (by simp [(events_of_admits hfrom).1]))
      (hidle hline fun hstage ↦ hfrom.not_isBusy (.inl hstage))
  | @encodes a pre k rest l l' command hline hlink hcall hfrom hsubmit =>
    have hstage : k.stage ≠ .writing := fun hstage ↦ hfrom.not_isBusy (.inl hstage)
    refine ⟨fun hopen x hx ↦ ?_⟩
    rcases hnew x hx hopen with ⟨hx, hopen⟩ | ⟨command', hmem⟩
    · rcases h.due_of hopen x hx with hsend | ⟨k', hk', -, hstage', hsome⟩
      · exact .inl hsend
      · exact absurd (hidle hline hstage k' hk' hstage') hsome
    · obtain ⟨hticket, -⟩ : x.1 = k.ticket ∧ command' = command := by
        simpa [(events_of_admits hfrom).1] using hmem
      exact .inr ⟨_, List.mem_cons_self, hticket.symm, rfl, by simp⟩
  | @sent k rest l command hline hlink hcall hstage hempty =>
    refine ⟨fun hopen x hx ↦ .inl ?_⟩
    obtain ⟨hx, hopen⟩ := hold rfl x hx hopen
    rcases h.due_of hopen x hx with hsend | ⟨k', hk', hticket, hstage', -⟩
    · exact hsend
    · obtain rfl := hhead hline k' hk' hstage'
      exact ⟨command, hticket ▸ hcall ▸ hsound.orderly.call_of k' hk'⟩
  | replied hline hlink hfrom | waits hline hlink hfrom | misreads hline hlink hfrom =>
    refine ⟨fun hopen x hx ↦ ?_⟩
    obtain ⟨hx, -⟩ := hold rfl x hx hopen
    rw [hclear hline hlink hfrom] at hx
    exact absurd hx List.not_mem_nil
  | @breaks a k rest l e hline hlink hstage herror =>
    refine ⟨fun hopen ↦ absurd ?_ hopen⟩
    rw [unsent?_of_no_link rfl, hframed.oneStream.closer_eq_none hlink, Option.map_none]
  | @deserts ticket k hk hticket howes =>
    by_cases hlink : u.connection.link = none
    · exact h.of_idle (hold (by simp)) fun _ _ _ ↦ hlink
    · obtain ⟨l, hlink⟩ := Option.ne_none_iff_exists'.mp hlink
      refine ⟨fun hopen ↦ absurd ?_ hopen⟩
      rw [unsent?_of_no_link rfl, hframed.oneStream.closer_eq_none hlink]
      rfl
  | @retires ticket howes =>
    refine ⟨fun hopen x hx ↦ ?_⟩
    obtain ⟨hx, hopen⟩ := hold (by simp) x hx hopen
    rcases h.due_of hopen x hx with hsend | ⟨k, hk, hticket, hstage, hsome⟩
    · exact .inl hsend
    by_cases hgone : k.ticket = ticket
    · obtain ⟨command, hcall⟩ := hsound.send_of_not_owes hk (.inl hstage) (howes k hk hgone)
      exact .inl ⟨command, hticket ▸ hcall ▸ hsound.orderly.call_of k hk⟩
    · exact .inr ⟨k, List.mem_filter.mpr ⟨hk, by simpa using hgone⟩, hticket, hstage, hsome⟩

theorem billed_run (peer : String) (turns : List Turn) : ((fresh peer).run turns).Billed := by
  have h : ((fresh peer).run turns).Framed ∧ ((fresh peer).run turns).Billed :=
    change_induction (P := fun u ↦ u.Framed ∧ u.Billed) peer
      ⟨framed_fresh peer, billed_fresh peer⟩
      (fun u call hsound h ↦ ⟨h.1.call hsound call, h.2.call call⟩)
      (fun u a c events ha hsound hchange h ↦
        ⟨h.1.change hsound hchange, h.2.change hsound h.1 ha hchange⟩) turns
  exact h.2

theorem Sound.sent_lt (h : u.Sound) {x : Ticket × UInt8} (hx : x ∈ u.events.sent) :
    x.1 < u.calls.length := by
  obtain ⟨p, hp, hmem⟩ := List.mem_flatMap.mp (List.mem_of_mem_take hx)
  obtain ⟨byte, -, rfl⟩ := List.mem_map.mp hmem
  exact h.orderly.encoded_bound hp

theorem sent_call (call : Call) : (u.step (.call call)).events.sent = u.events.sent := by
  cases hcall : call.refusal with
  | none => rw [step_call_of_not_refusal hcall]
  | some e =>
    rw [step_call_of_refusal hcall, Trace.sent_append_of_not_encoded rfl]
    exact List.append_nil _

/-- **A request that has gone writes no more.** What a step writes is of other calls. -/
theorem sent_act (hbilled : u.Billed) (hframed : u.Framed) (a : Action) :
    ∃ more, (u.act a).events.sent = u.events.sent ++ more ∧
      ∀ x ∈ more, ∀ command, u.calls[x.1]? = some (.request command) → ¬u.Gone x.1 := by
  obtain ⟨⟨more, hsent, hmore⟩, -⟩ := sent_due_change hframed (u.connection.change_step a)
  refine ⟨more, hsent, fun x hx command hcalls hgone ↦ ?_⟩
  obtain ⟨hdue, hopen⟩ := hmore x hx
  rcases hbilled.due_of hopen x hdue with ⟨command', hsend⟩ | ⟨k, hk, hticket, -⟩
  · rw [hcalls] at hsend
    cases hsend
  · exact hgone.2 k hk hticket

end Usage

end PinballBoard
