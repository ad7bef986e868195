import PinballBoard.Proofs.Link.Parting
import PinballBoard.Proofs.Platform.Progress
import PinballBoard.Proofs.Simulator.Rehearsal

/-!
# Nobody waits at a bench

A bench makes a bounded number of moves before it lets time pass (`Bench.restLimit`), and a host
waits up to a deadline. With a board that does well and a line without bounds neither matters. As
long as a call is in line there is something to do at once, and it brings the call nearer to its
end. `Bench.work` counts what there is to do: the stages that are to come, and in each of them at
most one move for all bytes to be written and one for each byte of a reply, of which there is one at
a time. So a call of the host ends in the moment in which it is made
(`Bench.Rehearses.settles`), and so does the stream, when nobody else uses it
(`Bench.Rehearses.parts`).
-/

namespace PinballBoard

open Connection

/-! ## Waiting -/

namespace Bench

section Waiting

variable {σ : Type} [ByteStream σ] {P : Bench σ → Prop} {enough : Bench σ → Bool}

/-- If every move leaves less to do, there is enough when nothing is left. -/
theorem enough_settleWithin (work : Bench σ → ℕ)
    (hnext : ∀ b, P b → enough b = false → ∃ b', b.next? = some b' ∧ P b' ∧ work b' < work b)
    {fuel : ℕ} {b : Bench σ} (h : P b) (hfuel : work b < fuel) :
    enough (settleWithin enough fuel b) = true := by
  induction fuel generalizing b with
  | zero => exact absurd hfuel (Nat.not_lt_zero _)
  | succ fuel ih =>
    rw [settleWithin]
    cases henough : enough b with
    | true => rwa [if_pos rfl]
    | false =>
      obtain ⟨b', hb', hlater, hless⟩ := hnext b h henough
      rw [if_neg Bool.false_ne_true, hb']
      exact ih hlater (Nat.lt_of_lt_of_le hless (Nat.le_of_lt_succ hfuel))

theorem enough_waitUntil (enough : Bench σ → Bool) {b : Bench σ}
    (h : enough (b.settleUntil enough) = true) (deadline : ℕ) :
    enough (b.waitUntil deadline enough) = true := by
  rw [waitUntil]
  cases deadline - b.session.clock with
  | zero => exact h
  | succ fuel =>
    rwa [waitWithin, if_pos (by rw [h, Bool.true_or])]

end Waiting

end Bench

/-! ## What comes next -/

namespace BoardLine

variable {line : BoardLine} {c : Connection} {k : Caller} {rest : List Caller} {l : Link}
  {command : Command}

/-- What an action leaves to do: fewer stages, or no bytes that are to be written, or fewer bytes
that are to arrive. -/
def Nears (line : BoardLine) (c : Connection) (k : Caller) (rest : List Caller) (l : Link)
    (a : Action) (stream : BoardLine) : Prop :=
  Progress k rest (c.step a).1.line ∨ ∃ l', (c.step a).1 = { c with link := some l' } ∧
    (l.outgoing ≠ [] ∧ l'.outgoing = [] ∨
      l'.outgoing = l.outgoing ∧ stream.toHost.length < line.toHost.length)

/-- On a line without bounds the task at the head gets on at once. -/
theorem Open.exists_next? (hopen : line.Open) (htoBoard : line.toBoard = [])
    (hline : c.line = k :: rest) (hlink : c.link = some l) (haborted : c.aborted = false)
    (hcloser : c.closer = none) (hcall : k.call.command? = some command)
    (hflushed : k.stage = .reading → l.outgoing = [])
    (hlimit : l.incoming.length < Link.storeSize)
    (hcoming : k.stage = .reading → line.toHost ≠ []) :
    ∃ a stream, c.next? line = some (a, stream) ∧ a.isProgress ∧ a.isSmooth ∧
      line.Nears c k rest l a stream := by
  have hnext : c.next? line = c.serving? line := by rw [next?, hcloser]; rfl
  rw [hnext, serving?, hline]
  dsimp only
  by_cases hwaiting : k.stage = .waiting
  · refine ⟨.proceed, line, if_pos hwaiting, rfl, rfl, .inl ?_⟩
    exact progress_proceed hline hlink haborted hwaiting hcall
  rw [if_neg hwaiting]
  by_cases hreading : k.stage = .reading
  · have hwriter : c.writer? = none := by simp [writer?, hline, hlink, hreading]
    have hreader : c.reader? = some (k, l) := by simp [reader?, hline, hlink, hreading]
    have hlimit := l.readLimit_pos hlimit
    rw [hwriter, hreader]
    dsimp only
    rw [hopen.read_eq htoBoard, if_pos (hcoming hreading)]
    refine ⟨_, _, rfl, rfl, rfl, ?_⟩
    refine (progress_or_stays hline hlink haborted hcloser hcall rfl).imp_right ?_
    rintro ⟨l', hstep, -, hless | ⟨hsame, -⟩⟩
    · rw [hflushed hreading] at hless
      exact absurd hless (Nat.not_lt_zero _)
    · refine ⟨l', hstep, .inr ⟨hsame, ?_⟩⟩
      have hpos := List.length_pos_iff.mpr (hcoming hreading)
      rw [List.length_drop]
      omega
  · have hwrites : k.stage = .draining ∨ k.stage = .writing := by
      cases hstage : k.stage <;> simp_all
    have hwriter : c.writer? = some (k, l) := by simp [writer?, hline, hlink, hwrites]
    rw [hwriter]
    dsimp only
    by_cases hempty : l.outgoing = []
    · rw [if_pos hempty]
      exact ⟨.flush, line, rfl, rfl, rfl, .inl (progress_flush hline hlink hempty hwrites hcall)⟩
    · rw [if_neg hempty, hopen.write_eq htoBoard hempty]
      have hstep : (c.step (.accept l.outgoing.length)).1 =
          { c with link := some (l.taken l.outgoing.length) } := by
        simp [step, accept, hwriter, hempty]
      refine ⟨_, _, rfl, rfl, by simpa [Action.isSmooth] using hempty, .inr ⟨_, hstep, .inl ?_⟩⟩
      exact ⟨hempty, List.drop_length⟩

end BoardLine

namespace HostAndBoard

variable {β : Type} {good : β → Prop} {i : Identity} {g : HostAndBoard β} {l : Link}

/-- Only one reply is ever on its way. -/
theorem Calm.length_arriving_le (h : g.Calm good i)
    (hlink : g.watch.usage.connection.link = some l) :
    l.incoming.length + g.toHost.length ≤ Limit.stringReply + 1 := by
  obtain ⟨unheard, -, hexpects⟩ := h.expects
  have hexpecting := hexpects l hlink
  rw [← List.length_append]
  generalize l.incoming ++ g.toHost = arriving at hexpecting
  cases hexpecting with
  | nothing | unasked => exact Nat.zero_le _
  | @coming _ _ _ _ reply _ _ _ _ hfits =>
    cases reply with
    | byte => exact Nat.le_add_left ..
    | string data =>
      simp only [Reply.fits, Bool.and_eq_true, decide_eq_true_eq] at hfits
      simpa [Reply.wire] using hfits.1

end HostAndBoard

namespace Bench

variable {start : Board} {waits : Option Ticket} {i : Identity} {b : Bench BoardLine}
  {g : HostAndBoard CarefulBoard} {t : Ticket}

/-- What there is to do up to the end of a call. -/
def work (t : Ticket) (b : Bench BoardLine) : ℕ :=
  1024 * left t b.session.connection.line +
    (if b.session.connection.unsent?.getD [] = [] then 0 else 512) + b.stream.toHost.length

private theorem exists_read (hcalm : g.Calm (CarefulBoard.Is i) i)
    (hcompliant : Responder.Compliant (CarefulBoard.Is i) i) :
    ∃ g' : HostAndBoard CarefulBoard, g'.Calm (CarefulBoard.Is i) i ∧ g'.watch = g.watch ∧
      g'.toHost = g.line.toHost ∧
        ∀ command : Command, command.HasFrame → ¬command.frame <+: g'.toBoard := by
  obtain ⟨commands, hwatch, -, htoHost, hread⟩ := hcalm.hear_all hcompliant.faithful
  refine ⟨_, hcalm.run hcompliant fun step hstep ↦ ?_, hwatch, htoHost, hread⟩
  obtain ⟨command, -, rfl⟩ := List.mem_map.mp hstep
  rfl

private theorem Rehearses.stream_eq_line (h : b.Rehearses start waits g)
    (hcalm : g.Calm (CarefulBoard.Is i) i) : b.stream = g.line := by
  refine h.stream_eq fun hdropped ↦ ?_
  exact hcalm.smooth.link_ne_none (hcalm.linked.dropped_iff.mp hdropped).1

private theorem Rehearses.connection_move (h : b.Rehearses start waits g)
    (hlinked : g.watch.Linked) {a : Action} (ha : a.isProgress) (stream : BoardLine) :
    (Bench.move { b with stream } (.link a)).session.connection =
      (g.watch.usage.connection.step a).1 := by
  have henter : ∀ t call, a ≠ .enter t call := by
    rintro t call rfl
    cases ha
  have husage : (g.watch.step (.link a)).usage = g.watch.usage.act a := by
    rw [Watch.step, Session.turn?, if_pos ha, Option.map_some, Option.getD_some,
      Usage.step_act henter]
  rw [session_move, h.session_eq]
  exact (hlinked.run [.link a]).connection_eq.trans (congrArg Usage.connection husage)

private theorem Rehearses.stream_move (h : b.Rehearses start waits g) {a : Action}
    (ha : a.isProgress) (stream : BoardLine)
    (hkept : Event.dropped ∉ (g.watch.session.connection.step a).2) :
    (Bench.move { b with stream } (.link a)).stream = stream := by
  refine stream_foldl_note (fun hdropped ↦ hkept ?_) _
  have hnoted := Session.mem_noted hdropped
  rwa [h.session_eq, Session.noted_link ha] at hnoted

private theorem Rehearses.length_toHost_le (h : b.Rehearses start waits g)
    (hcalm : g.Calm (CarefulBoard.Is i) i)
    (hcompliant : Responder.Compliant (CarefulBoard.Is i) i) :
    b.stream.toHost.length ≤ Limit.stringReply + 1 := by
  obtain ⟨l, hlink⟩ := Option.ne_none_iff_exists'.mp hcalm.smooth.link_ne_none
  obtain ⟨g', hcalm', hwatch, htoHost, -⟩ := exists_read hcalm hcompliant
  have hle := hcalm'.length_arriving_le (hwatch ▸ hlink)
  rw [htoHost, ← h.stream_eq_line hcalm] at hle
  omega

/-- What gets the task at the head on leaves less to do for everybody in line. -/
private theorem work_lt {b' : Bench BoardLine} {k : Caller} {rest : List Caller} {l : Link}
    {a : Action} (hline : b.session.connection.line = k :: rest)
    (hlink : b.session.connection.link = some l) (hle : k.ticket ≤ t)
    (hlater : b'.session.connection = (b.session.connection.step a).1)
    (hnears : b.stream.Nears b.session.connection k rest l a b'.stream)
    (hbound : b'.stream.toHost.length ≤ Limit.stringReply + 1) : b'.work t < b.work t := by
  have hunsent : b.session.connection.unsent?.getD [] = l.outgoing := by
    rw [unsent?_of_link hlink, Option.getD_some]
  have hlimit : Limit.stringReply + 1 = 257 := rfl
  rw [work, work, hlater, hunsent]
  rcases hnears with hfewer | ⟨l', hstep, hless⟩
  · have hless := hfewer.left_lt hle
    rw [← hline] at hless
    split <;> split <;> omega
  · rw [hstep, unsent?_of_link rfl, Option.getD_some]
    dsimp only
    rcases hless with ⟨hfull, hempty⟩ | ⟨hsame, hless⟩
    · rw [if_pos hempty, if_neg hfull]
      omega
    · rw [hsame]
      exact Nat.add_lt_add_left hless _

/-- Whose call is in line has something to do, and has less to do then. -/
private theorem Rehearses.nears (h : b.Rehearses start waits g)
    (hcalm : g.Calm (CarefulBoard.Is i) i)
    (hcompliant : Responder.Compliant (CarefulBoard.Is i) i)
    (hwaits : ∃ k ∈ g.watch.usage.connection.line, k.ticket = t) :
    ∃ b', b.next? = some b' ∧ (b'.stream.toHost.length ≤ Limit.stringReply + 1 →
      b'.work t < b.work t) := by
  obtain ⟨k', hk', rfl⟩ := hwaits
  obtain ⟨l, hlink⟩ := Option.ne_none_iff_exists'.mp hcalm.smooth.link_ne_none
  obtain ⟨k, rest, hline⟩ := List.exists_cons_of_ne_nil (List.ne_nil_of_mem hk')
  obtain ⟨command, hcall⟩ := hcalm.command_of_head hline
  have hk : k ∈ g.watch.usage.connection.line := hline ▸ List.mem_cons_self
  have hle : k.ticket ≤ k'.ticket := hcalm.linked.sound.orderly.head_le hline hk'
  have hstream := h.stream_eq_line hcalm
  have hconnection : b.session.connection = g.watch.usage.connection := by
    rw [h.session_eq, hcalm.linked.connection_eq]
  -- once the board has read everything, what a task waits for is on its way
  obtain ⟨g', hcalm', hwatch, htoHost, hread⟩ := exists_read hcalm hcompliant
  have hcoming : k.stage = .reading → b.stream.toHost ≠ [] := by
    intro hstage
    rw [← hwatch] at hline hlink
    rw [hstream, ← htoHost]
    refine hcalm'.toHost_ne_nil hline hstage hlink fun hbehind ↦ ?_
    obtain ⟨command, hframe, hfront⟩ :=
      hcalm'.exists_front (hcalm'.written_eq hline hstage hlink) hbehind
    exact hread command hframe hfront
  have harriving := hcalm'.length_arriving_le (hwatch ▸ hlink)
  have hlimit : l.incoming.length < Link.storeSize :=
    Nat.lt_of_le_of_lt (Nat.le_of_add_right_le harriving) (by decide)
  obtain ⟨a, stream, hnext, hprogress, hsmooth, hnears⟩ :=
    (hstream ▸ hcalm.open_line : b.stream.Open).exists_next? h.quiet.1 hline hlink
      hcalm.smooth.not_aborted hcalm.smooth.closer_eq hcall
      (fun hstage ↦ hcalm.linked.framed.flushed k hk hstage l hlink) hlimit hcoming
  refine ⟨Bench.move { b with stream } (.link a), ?_, fun hbound ↦ ?_⟩
  · rw [Bench.next?, hconnection, hnext]
  have hkept : Event.dropped ∉ (g.watch.session.connection.step a).2 := by
    rw [hcalm.linked.connection_eq]
    exact dropped_not_mem_step hsmooth hcalm.smooth.not_aborted hcalm.smooth.closer_eq
  have hlater := h.connection_move hcalm.linked hprogress stream
  have hbrought := h.stream_move hprogress stream hkept
  rw [← hconnection] at hline hlink hlater hnears
  exact work_lt hline hlink hle hlater (by rwa [hbrought]) hbound

private theorem Rehearses.unsettled (h : b.Rehearses start (some t) g)
    (hunheard : (b.outcome? t).isSome = false) :
    ¬∃ outcome, Event.settled t outcome ∈ g.watch.usage.events := by
  rintro ⟨outcome, hsettled⟩
  have hsome : (b.outcome? t).isSome :=
    List.lookup_isSome_iff.mpr ⟨_, h.tells t rfl outcome hsettled, beq_self_eq_true t⟩
  rw [hunheard] at hsome
  cases hsome

/-- A call ends in the moment in which it is made, if there are not too many before it. -/
theorem Rehearses.settles (h : b.Rehearses start (some t) g)
    (hcalm : g.Calm (CarefulBoard.Is i) i)
    (hcompliant : Responder.Compliant (CarefulBoard.Is i) i)
    (hleft : left t g.watch.usage.connection.line ≤ 900) :
    ((b.settleUntil fun b ↦ (b.outcome? t).isSome).outcome? t).isSome = true := by
  let enough (b : Bench BoardLine) : Bool := (b.outcome? t).isSome
  change enough (settleWithin enough restLimit b) = true
  refine enough_settleWithin (P := Follows start (some t) g) (work t) ?_ ⟨[], nofun, h⟩ ?_
  · rintro b ⟨steps, hsmooth, hrehearses⟩ hunheard
    have hlater := hcalm.run hcompliant hsmooth
    obtain ⟨call, hcall, -⟩ := hrehearses.own t rfl
    have hwaits := (hlater.smooth.present t (List.getElem?_eq_some_iff.mp hcall).1).resolve_right
      (hrehearses.unsettled hunheard)
    obtain ⟨b', hnext, hless⟩ := hrehearses.nears hlater hcompliant hwaits
    obtain ⟨more, hmore, hrehearses'⟩ :=
      hrehearses.next? hlater.toInStep hcompliant.faithful hnext
    have hbound := hrehearses'.length_toHost_le (hlater.run hcompliant hmore) hcompliant
    rw [← HostAndBoard.run_append] at hrehearses'
    exact ⟨b', hnext, ⟨steps ++ more, List.forall_mem_append.mpr ⟨hsmooth, hmore⟩, hrehearses'⟩,
      hless hbound⟩
  · have hbound : b.stream.toHost.length ≤ 257 := h.length_toHost_le hcalm hcompliant
    have hwork : b.work t < restLimit := by
      rw [work, h.session_eq, hcalm.linked.connection_eq, restLimit]
      split <;> omega
    exact hwork

end Bench

/-! ## The end of the stream -/

/-- What there is to do up to the end of a stream that nobody else uses. -/
def Connection.partingWork (c : Connection) : ℕ :=
  match c.line, c.closer with
  | _ :: _, _ => 4
  | [], some k =>
    match k.stage with
    | .flushing => if k.link.outgoing = [] then 2 else 3
    | .shuttingDown => 1
  | [], none => 0

private theorem Connection.partingWork_lt {c : Connection} (hline : c.line = []) :
    c.partingWork < 4 := by
  rw [partingWork, hline]
  cases c.closer with
  | none => decide
  | some k => cases hstage : k.stage <;> grind

/-- On a line without bounds a stream that is to be ended ends at once. -/
private theorem BoardLine.Open.exists_closing {line : BoardLine} {c : Connection} {k : Closer}
    (hopen : line.Open) (htoBoard : line.toBoard = []) (hline : c.line = [])
    (hcloser : c.closer = some k) :
    ∃ a stream, c.next? line = some (a, stream) ∧ a.isProgress ∧
      (c.step a).1.partingWork < c.partingWork := by
  have hnext : ∀ served, closing? k line = some served → c.next? line = some served := by
    intro served hserved
    rw [next?, hcloser, Option.bind_some, hserved]
    rfl
  rw [partingWork.eq_def c, hline, hcloser]
  dsimp only
  cases hstage : k.stage with
  | flushing =>
    by_cases hempty : k.link.outgoing = []
    · refine ⟨.closerFlush k.ticket, line, hnext _ ?_, rfl, ?_⟩
      · rw [closing?, hstage]
        exact if_pos hempty
      · simp [step, closerFlush, updateCloser, hcloser, hline, hstage, hempty, Closer.shutDown,
          partingWork]
    · refine ⟨.closerAccept k.ticket k.link.outgoing.length,
        (ByteStream.write line k.link.outgoing).2, hnext _ ?_, rfl, ?_⟩
      · rw [closing?, hstage]
        dsimp only
        rw [if_neg hempty, hopen.write_eq htoBoard hempty]
      · simp [step, closerAccept, updateCloser, hcloser, hline, hstage, hempty, Link.taken,
          partingWork]
  | shuttingDown =>
    refine ⟨.shutdownEnds k.ticket, (ByteStream.shutdown line).2, hnext _ ?_, rfl, ?_⟩
    · rw [closing?, hstage]
      rfl
    · simp [step, shutdownEnds, updateCloser, hcloser, hline, hstage, partingWork]

namespace Bench

variable {start : Board} {waits : Option Ticket} {i : Identity} {b : Bench BoardLine}
  {g : HostAndBoard CarefulBoard} {t : Ticket} {failure : Option DeviceError}

/-- Who ends the stream has something to do, and has less to do then. -/
private theorem Rehearses.parts_nearer (h : b.Rehearses start waits g)
    (hinStep : g.InStep (CarefulBoard.Is i)) (hparting : g.watch.usage.Parting t)
    (hunsettled : ¬∃ outcome, Event.settled t outcome ∈ g.watch.usage.events) :
    ∃ b', b.next? = some b' ∧
      b'.session.connection.partingWork < b.session.connection.partingWork := by
  have hlinked := hinStep.linked
  have hconnection : b.session.connection = g.watch.usage.connection := by
    rw [h.session_eq, hlinked.connection_eq]
  obtain ⟨a, stream, hnext, ha, hless⟩ : ∃ a stream,
      g.watch.usage.connection.next? b.stream = some (a, stream) ∧ a.isProgress ∧
        (g.watch.usage.connection.step a).1.partingWork <
          g.watch.usage.connection.partingWork := by
    cases hparting with
    | queued hline hcloser =>
      refine ⟨.proceed, b.stream, ?_, rfl, ?_⟩
      · rw [Connection.next?, hcloser, serving?, hline]
        rfl
      · have hnow : g.watch.usage.connection.partingWork = 4 := by rw [partingWork, hline]
        rw [hnow]
        exact partingWork_lt (line_proceed_close hline)
    | under_way hline _ hcloser =>
      have hheld : Event.dropped ∉ g.watch.usage.events := by
        rw [hlinked.dropped_iff, hcloser]
        simp
      have hopen : b.stream.Open := h.stream_eq hheld ▸ hinStep.open_line
      exact hopen.exists_closing h.quiet.1 hline hcloser
    | parted _ _ _ hsettled => exact absurd hsettled hunsettled
  refine ⟨Bench.move { b with stream } (.link a), ?_, ?_⟩
  · rw [Bench.next?, hconnection, hnext]
  · rwa [h.connection_move hlinked ha, hconnection]

private theorem parting_run (hinStep : g.InStep (CarefulBoard.Is i))
    (hfaithful : Responder.Faithful (CarefulBoard.Is i))
    (hended : g.watch.session.phase? = some (.ended failure)) (hparting : g.watch.usage.Parting t)
    {steps : List (HostAndBoard.Step CarefulBoard)} (hsmooth : ∀ step ∈ steps, step.isSmooth) :
    (g.run steps).watch.session.phase? = some (.ended failure) ∧
      (g.run steps).watch.usage.Parting t := by
  induction steps generalizing g with
  | nil => exact ⟨hended, hparting⟩
  | cons step steps ih =>
    obtain ⟨hfirst, hrest⟩ := List.forall_mem_cons.mp hsmooth
    obtain ⟨moves, hmoves⟩ := g.watch_run [step]
    change (g.step step).watch = _ at hmoves
    have hended' : (g.step step).watch.session.phase? = some (.ended failure) := by
      rw [hmoves]
      exact (Watch.ended_run hinStep.linked hended moves).1
    refine ih (hinStep.step hfaithful step) hended' ?_ hrest
    obtain hsame | ⟨hready, -⟩ | ⟨a, ha, hact⟩ := g.usage_step_of_isSmooth hfirst
    · rwa [hsame]
    · rw [hended] at hready
      cases hready
    · rw [hact]
      exact hparting.act hinStep.linked.sound ha

/-- A stream that nobody else uses ends in the moment in which the host ends it. -/
theorem Rehearses.parts (h : b.Rehearses start (some t) g) (hinStep : g.InStep (CarefulBoard.Is i))
    (hfaithful : Responder.Faithful (CarefulBoard.Is i))
    (hended : g.watch.session.phase? = some (.ended failure))
    (hparting : g.watch.usage.Parting t) :
    ((b.settleUntil fun b ↦ (b.outcome? t).isSome).outcome? t).isSome = true := by
  let enough (b : Bench BoardLine) : Bool := (b.outcome? t).isSome
  change enough (settleWithin enough restLimit b) = true
  refine enough_settleWithin (P := Follows start (some t) g)
    (fun b ↦ b.session.connection.partingWork) ?_ ⟨[], nofun, h⟩ ?_
  · rintro b ⟨steps, hsmooth, hrehearses⟩ hunheard
    have hinStep' := hinStep.run hfaithful steps
    obtain ⟨-, hparting'⟩ := parting_run hinStep hfaithful hended hparting hsmooth
    obtain ⟨b', hnext, hless⟩ :=
      hrehearses.parts_nearer hinStep' hparting' (hrehearses.unsettled hunheard)
    obtain ⟨more, hmore, hrehearses'⟩ := hrehearses.next? hinStep' hfaithful hnext
    rw [← HostAndBoard.run_append] at hrehearses'
    exact ⟨b', hnext, ⟨steps ++ more, List.forall_mem_append.mpr ⟨hsmooth, hmore⟩, hrehearses'⟩,
      hless⟩
  · refine Nat.lt_of_le_of_lt ?_ (by decide : 4 < restLimit)
    cases hline : b.session.connection.line with
    | nil => exact Nat.le_of_lt (partingWork_lt hline)
    | cons => rw [partingWork, hline]

end Bench

end PinballBoard
