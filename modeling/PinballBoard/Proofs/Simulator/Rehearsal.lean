import PinballBoard.Proofs.Platform.Path
import PinballBoard.Proofs.Platform.Record
import PinballBoard.Proofs.Simulator.Compliance
import PinballBoard.Proofs.Simulator.Line

/-!
# Rehearsals as runs

A bench gives the host a line on which the board reads and answers at once. A host and a board go
other ways (`HostAndBoard`): what has been written may lie before the board for any time, and what
the board has answered may be on its way for any time. So a bench is one of the ways in which things
can go, and what is true of all of them is true of the bench.

`Bench.Rehearses` says what a bench has in common with a host and a board. Both hosts are in the
same state. As long as the host holds the stream, the line is what becomes of the board, and of the
bytes on their way to the host, if the board reads at once whatever lies before it
(`HostAndBoard.line`). This does not depend on what the board has read already
(`HostAndBoard.InStep.line_hear`). So a move of the bench is a move of the host, and then, before
the stream brings anything, the board reads (`Bench.Rehearses.next?`).
-/

namespace PinballBoard

/-! ## The board that reads at once -/

namespace HostAndBoard

/-- The line on which the board has read and answered at once whatever has been written. -/
def line (g : HostAndBoard CarefulBoard) : BoardLine where
  board := (g.board.board.receiveAll g.toBoard).1
  capacity := none
  toHost := g.toHost ++ (g.board.board.receiveAll g.toBoard).2

variable {i : Identity} {g : HostAndBoard CarefulBoard}

theorem InStep.open_line (h : g.InStep (CarefulBoard.Is i)) : g.line.Open where
  capacity_eq := rfl
  held := ⟨rfl, rfl, rfl⟩
  stays := Board.receiveAll_of_stays h.good.inOrder.stays _
  unsent_eq := rfl

theorem toBoard_hear {β : Type} [Responder β] {g : HostAndBoard β} {command : Command}
    (hfront : command.HasFrame ∧ command.frame <+: g.toBoard) :
    g.toBoard = command.frame ++ (g.step (.hear command)).toBoard := by
  obtain ⟨rest, hrest⟩ := hfront.2
  have hlater : (g.step (.hear command)).toBoard = g.toBoard.drop command.frame.length := by
    rw [step_hear hfront, toBoard, toBoard, List.drop_drop]
    simp
  rw [hlater, ← hrest, List.drop_left]

/-- **It does not matter when the board reads.** -/
theorem InStep.line_hear (h : g.InStep (CarefulBoard.Is i)) (command : Command) :
    (g.step (.hear command)).line = g.line := by
  by_cases hfront : command.HasFrame ∧ command.frame <+: g.toBoard
  · have hgood := h.good.inOrder
    rw [line, line, toBoard_hear hfront, Board.receiveAll_append,
      Board.receiveAll_frame hfront.1 hgood.between hgood.stays]
    generalize (g.step (.hear command)).toBoard = rest
    rw [step_hear hfront, List.append_assoc]
    rfl
  · have hstep : g.step (.hear command) = g := if_neg hfront
    rw [hstep]

theorem watch_hear {β : Type} [Responder β] (g : HostAndBoard β) (command : Command) :
    (g.step (.hear command)).watch = g.watch := by
  rw [step]
  split <;> rfl

/-- The board can read whatever has been written. Its answers are then on their way. -/
theorem InStep.hear_all (h : g.InStep (CarefulBoard.Is i))
    (hfaithful : Responder.Faithful (CarefulBoard.Is i)) :
    ∃ commands : List Command, (g.run (commands.map .hear)).watch = g.watch ∧
      (g.run (commands.map .hear)).line = g.line ∧
        (g.run (commands.map .hear)).toHost = g.line.toHost ∧
          ∀ command : Command, command.HasFrame →
            ¬command.frame <+: (g.run (commands.map .hear)).toBoard := by
  obtain ⟨unheard, horder⟩ := h.heard_in_order
  induction unheard generalizing g with
  | nil =>
    obtain ⟨hunheard, -⟩ := h.linked.framed.prefix_unheard h.heard_written horder
    have hnothing : g.toBoard = [] := List.prefix_nil.mp hunheard
    refine ⟨[], rfl, rfl, ?_, fun command hframe hfront ↦ ?_⟩
    · rw [line, hnothing]
      exact (List.append_nil _).symm
    · exact hframe.frame_ne_nil (List.prefix_nil.mp (hnothing ▸ hfront))
  | cons command unheard ih =>
    obtain ⟨hunheard, hall⟩ := h.linked.framed.prefix_unheard h.heard_written horder
    have hframe := hall command List.mem_cons_self
    by_cases hfront : command.frame <+: g.toBoard
    · have hheard : (g.step (.hear command)).heard.map Prod.fst ++ unheard =
          (g.step (.hear command)).watch.usage.encoded.map Prod.snd := by
        rw [watch_hear, ← horder, step_hear ⟨hframe, hfront⟩]
        simp
      obtain ⟨commands, hwatch, hline, htoHost, hnone⟩ :=
        ih (h.step hfaithful (.hear command)) hheard
      rw [watch_hear] at hwatch
      rw [h.line_hear] at hline htoHost
      exact ⟨command :: commands, hwatch, hline, htoHost, hnone⟩
    · -- what is there is only the beginning of a frame
      have hbegun : g.toBoard <+: command.frame :=
        (List.prefix_or_prefix_of_prefix hunheard (List.prefix_append _ _)).resolve_right hfront
      have hne : g.toBoard ≠ command.frame := fun heq ↦ hfront (heq ▸ List.prefix_rfl)
      have hgood := h.good.inOrder
      refine ⟨[], rfl, rfl, ?_, fun other hother hfirst ↦ hfront ?_⟩
      · rw [line, Board.receiveAll_of_prefix hframe hgood.between hbegun hne, List.append_nil]
        rfl
      · rwa [Command.eq_of_encode_prefix hother hframe (hfirst.trans hbegun)] at hfirst

theorem InStep.toBoard_of_written (h : g.InStep (CarefulBoard.Is i)) {w : Watch}
    {bytes toHost : Bytes} (hwritten : w.usage.written = g.watch.usage.written ++ bytes) :
    toBoard { g with watch := w, toHost } = g.toBoard ++ bytes := by
  rw [toBoard, toBoard, hwritten, List.drop_append_of_le_length h.heard_written.length_le]

end HostAndBoard

/-! ## What a move does -/

namespace Session

variable {s : Session} {m : Move}

/-- What happens to the connection in a move. -/
def noted (s : Session) (m : Move) : Trace :=
  match s.turn? m with
  | none => []
  | some (.act a) => (s.connection.step a).2
  | some (.call call) => (s.connection.step (.enter s.nextTicket call)).2

theorem noted_link {a : Action} (ha : a.isProgress) :
    s.noted (.link a) = (s.connection.step a).2 := by
  rw [noted, turn?, if_pos ha]

theorem act_of_turn? {a : Action} (h : s.turn? m = some (.act a)) :
    m = .link a ∧ a.isProgress ∨ (∃ t, a = .cancel t) ∨ a = .abort ∨ ∃ ms, a = .elapse ms := by
  cases m with
  | link a' =>
    obtain ⟨ha, hsame⟩ := Option.ite_none_right_eq_some.mp h
    cases hsame
    exact .inl ⟨rfl, ha⟩
  | giveUp t =>
    obtain ⟨-, hsame⟩ := Option.ite_none_left_eq_some.mp h
    cases hsame
    exact .inr (.inl ⟨t, rfl⟩)
  | cancelPolling =>
    obtain ⟨t, -, hsame⟩ := Option.map_eq_some_iff.mp h
    cases hsame
    exact .inr (.inl ⟨t, rfl⟩)
  | advance =>
    obtain ⟨-, hsame⟩ := Option.ite_none_right_eq_some.mp h
    cases hsame
  | call | take | abandon => cases h
  | abort =>
    cases h
    exact .inr (.inr (.inl rfl))
  | elapse ms =>
    cases h
    exact .inr (.inr (.inr ⟨ms, rfl⟩))

theorem told_step (s : Session) (m : Move) :
    (s.step m).2 = s.noted m ∨
      ∃ s' : Session, s'.poll = s.poll ∧ (s.step m).2 = (s'.settle (s.noted m)).2 := by
  have hidle : s.turn? m = none → (s.step m).2 = [] → (s.step m).2 = s.noted m := by
    intro hturn hnothing
    rw [noted, hturn, hnothing]
  have hact : ∀ (s' : Session) (a : Action), s'.poll = s.poll →
      s.noted m = (s'.connection.step a).2 → s.step m = s'.stepLink a →
        ∃ s' : Session, s'.poll = s.poll ∧ (s.step m).2 = (s'.settle (s.noted m)).2 := by
    intro s' a hpoll hnoted hstep
    refine ⟨{ s' with connection := (s'.connection.step a).1 }, hpoll, ?_⟩
    rw [hnoted, hstep]
    rfl
  cases m with
  | call call =>
    let later : Session := { s with nextTicket := s.nextTicket + 1 }
    exact .inr (hact later (.enter s.nextTicket call) rfl rfl rfl)
  | abort => exact .inr (hact s .abort rfl rfl rfl)
  | elapse ms => exact .inr (hact { s with clock := s.clock + ms } (.elapse ms) rfl rfl rfl)
  | giveUp t =>
    by_cases hticket : s.pollTicket? = some t
    · have hstep : s.step (.giveUp t) = (s, []) := if_pos hticket
      exact .inl (hidle (if_pos hticket) (by rw [hstep]))
    · have hnoted : s.noted (.giveUp t) = (s.connection.step (.cancel t)).2 := by
        rw [noted, turn?, if_neg hticket]
      exact .inr (hact s (.cancel t) rfl hnoted (if_neg hticket))
  | link a =>
    by_cases ha : a.isProgress
    · exact .inr (hact s a rfl (noted_link ha) (if_pos ha))
    · have hstep : s.step (.link a) = (s, []) := if_neg ha
      exact .inl (hidle (if_neg ha) (by rw [hstep]))
  | advance =>
    by_cases hready : s.phase? = some .ready
    · rw [noted, turn?, if_pos hready, step_advance_of_ready hready]
      exact .inl rfl
    · exact .inl (hidle (if_neg hready) (step_advance_of_not_ready hready).2.2)
  | cancelPolling =>
    rw [noted, turn?, pollTicket?, step, cancelPolling]
    cases s.poll with
    | none => exact .inl rfl
    | some loop => cases hphase : loop.phase <;> simp [PollLoop.ticket?, hphase, Connection.step]
  | take =>
    refine .inl (hidle rfl ?_)
    rw [step]
    split <;> rfl
  | abandon => exact .inl rfl

theorem mem_noted {e : Event} (h : e ∈ (s.step m).2) : e ∈ s.noted m := by
  rcases s.told_step m with hall | ⟨s', -, hall⟩ <;> rw [hall] at h
  · exact h
  · exact mem_of_mem_settle h

/-- The poll loop keeps nothing to itself but how its own call has ended. -/
private theorem mem_settle {events : Trace} {t : Ticket} {outcome : Outcome}
    (hother : s.pollTicket? ≠ some t) (h : Event.settled t outcome ∈ events) :
    Event.settled t outcome ∈ (s.settle events).2 := by
  induction events generalizing s with
  | nil => cases h
  | cons event events ih =>
    have hrest : Event.settled t outcome ∈ event :: (s.settle events).2 :=
      (List.mem_cons.mp h).elim (fun heq ↦ heq ▸ List.mem_cons_self)
        fun hmem ↦ List.mem_cons_of_mem _ (ih hother hmem)
    cases event with
    | settled t' outcome' =>
      rw [settle]
      split
      · rename_i loop hloop
        by_cases hticket : loop.ticket? = some t'
        · rw [if_pos hticket]
          have hown : s.pollTicket? = some t' := by rw [pollTicket?, hloop]; exact hticket
          have hhear : s.hearEnd (t', outcome') = s.hear loop outcome' := by
            rw [hearEnd, hloop]
            exact if_pos hticket
          have hnone : (s.hear loop outcome').pollTicket? = none :=
            hhear ▸ (hearEnd_own hown outcome').1
          refine ih (by simp [hnone]) ((List.mem_cons.mp h).resolve_left ?_)
          rintro heq
          cases heq
          exact hother hown
        · rw [if_neg hticket]
          exact hrest
      · exact hrest
    | _ => exact hrest

theorem settled_mem_step {t : Ticket} {outcome : Outcome} (hother : s.pollTicket? ≠ some t)
    (h : Event.settled t outcome ∈ s.noted m) : Event.settled t outcome ∈ (s.step m).2 := by
  rcases s.told_step m with hall | ⟨s', hpoll, hall⟩ <;> rw [hall]
  · exact h
  · refine mem_settle ?_ h
    rwa [pollTicket?, hpoll]

end Session

/-- Nothing is written unless the stream takes bytes. -/
theorem Session.written_noted {s : Session} {m : Move}
    (haccept : ∀ count, m ≠ .link (.accept count))
    (hcloser : ∀ t count, m ≠ .link (.closerAccept t count)) : (s.noted m).written = [] := by
  rw [noted]
  split
  · rfl
  · rename_i a hturn
    refine Usage.written_of_change (s.connection.change_step a) ?_ ?_
    all_goals
      obtain ⟨rfl, -⟩ | ⟨t, rfl⟩ | rfl | ⟨ms, rfl⟩ := act_of_turn? hturn
    · exact fun count heq ↦ haccept count (congrArg _ heq)
    · exact nofun
    · exact nofun
    · exact nofun
    · exact fun t count heq ↦ hcloser t count (congrArg _ heq)
    · exact nofun
    · exact nofun
    · exact nofun
  · exact Usage.written_of_change (s.connection.change_step _) nofun nofun

namespace Watch

variable {w : Watch}

theorem Linked.events_step (h : w.Linked) (m : Move) :
    (w.step m).usage.events = w.usage.events ++ w.session.noted m := by
  rw [step, Session.noted]
  cases hturn : w.session.turn? m with
  | none => exact (List.append_nil _).symm
  | some turn =>
    rw [h.connection_eq, h.nextTicket_eq]
    cases turn with
    | call call => rfl
    | act a =>
      refine congrArg Usage.events (Usage.step_act ?_)
      obtain ⟨-, ha⟩ | ⟨t, rfl⟩ | rfl | ⟨ms, rfl⟩ := Session.act_of_turn? hturn
      · rintro t call rfl
        cases ha
      all_goals simp

/-- There is no stream any more when it has been dropped. -/
theorem Linked.dropped_iff (h : w.Linked) : Event.dropped ∈ w.usage.events ↔
    w.usage.connection.link = none ∧ w.usage.connection.closer = none := by
  obtain ⟨peer, turns, husage⟩ := h.usage_eq
  have hone := Usage.one_stream peer turns
  rw [← husage, Connection.streams] at hone
  rw [← List.count_pos_iff]
  cases hlink : w.usage.connection.link <;> cases hcloser : w.usage.connection.closer <;>
    simp only [hlink, hcloser, Option.toList_none, Option.toList_some, List.length_nil,
      List.length_singleton, reduceCtorEq, and_self, and_false, false_and, iff_true,
      iff_false] at hone ⊢ <;> omega

theorem Linked.written_step (h : w.Linked) (m : Move) :
    (w.step m).usage.written = w.usage.written ++ (w.session.noted m).written := by
  rw [Usage.written, h.events_step, Trace.written_append]
  rfl

end Watch

theorem HostAndBoard.exists_step_link {β : Type} [Responder β] {g : HostAndBoard β} {a : Action}
    {rest : Bytes} (hsmooth : a.isSmooth) (hbefore : g.toHost = a.arrived ++ rest)
    (hreader : ∀ chunk, a = .receive chunk → g.watch.session.connection.reader?.isSome) :
    ∃ step : Step β, step.isSmooth ∧
      g.step step = { g with watch := g.watch.step (.link a), toHost := rest } := by
  have hother : a.arrived = [] → (Move.link a).isFree = true → ∃ step : Step β, step.isSmooth ∧
      g.step step = { g with watch := g.watch.step (.link a), toHost := rest } := by
    intro hnothing hfree
    rw [hnothing, List.nil_append] at hbefore
    refine ⟨.move (.link a), hsmooth, ?_⟩
    rw [← hbefore]
    exact if_pos hfree
  cases a with
  | receive chunk =>
    have hbefore : g.toHost = chunk ++ rest := hbefore
    have hstep : g.step (.bring chunk.length) =
        { g with
          watch := g.watch.step (.link (.receive (g.toHost.take chunk.length)))
          toHost := g.toHost.drop chunk.length } := if_pos (hreader chunk rfl)
    rw [hbefore, List.take_left, List.drop_left] at hstep
    exact ⟨.bring chunk.length, rfl, hstep⟩
  | _ => exact hother rfl rfl

namespace Bench

section Notes

variable {σ : Type} [ByteStream σ]

theorem mem_outcomes_foldl_note {events : List Event} {b : Bench σ} {p : Ticket × Outcome} :
    p ∈ (events.foldl note b).outcomes ↔
      p ∈ b.outcomes ∨ Event.settled p.1 p.2 ∈ events := by
  induction events generalizing b with
  | nil => simp
  | cons event events ih =>
    rw [List.foldl_cons, ih, List.mem_cons, ← or_assoc]
    refine or_congr_left ?_
    cases event with
    | settled t outcome =>
      change p ∈ (t, outcome) :: b.outcomes ↔ _
      rw [List.mem_cons, or_comm, Event.settled.injEq, Prod.ext_iff]
    | _ => simp [note]

end Notes

/-- Hanging up is nothing to a board that has read and answered everything. -/
theorem quiet_foldl_note {b : Bench BoardLine} (events : List Event)
    (hquiet : b.stream.toBoard = [] ∧ b.stream.unsent = []) :
    (events.foldl note b).stream.board = b.stream.board ∧
      (events.foldl note b).stream.toBoard = [] ∧ (events.foldl note b).stream.unsent = [] := by
  induction events generalizing b with
  | nil => exact ⟨rfl, hquiet⟩
  | cons event events ih =>
    have hnoted : (b.note event).stream.board = b.stream.board ∧
        (b.note event).stream.toBoard = [] ∧ (b.note event).stream.unsent = [] := by
      cases event with
      | dropped =>
        exact BoardLine.serve_of_quiet { b.stream with hostGone := true, toHost := [] }
          hquiet.1 hquiet.2
      | _ => exact ⟨rfl, hquiet⟩
    obtain ⟨hboard, hrest⟩ := ih hnoted.2
    exact ⟨hboard.trans hnoted.1, hrest⟩

variable {start : Board} {waits : Option Ticket} {i : Identity} {b : Bench BoardLine}
  {g : HostAndBoard CarefulBoard}

/-- A bench at which a host and its board do what these do, while the host waits for the end of a
call, or for none. -/
structure Rehearses (start : Board) (waits : Option Ticket) (b : Bench BoardLine)
    (g : HostAndBoard CarefulBoard) : Prop where
  session_eq : b.session = g.watch.session
  /-- The host is told what has happened, -/
  told : ∀ p ∈ b.outcomes, Event.settled p.1 p.2 ∈ g.watch.usage.events
  /-- and he is told how the call has ended for which he waits. -/
  tells : ∀ t ∈ waits, ∀ outcome, Event.settled t outcome ∈ g.watch.usage.events →
    (t, outcome) ∈ b.outcomes
  /-- It is his own. -/
  own : ∀ t ∈ waits, ∃ call, g.watch.usage.calls[t]? = some call ∧ call.IsFree
  /-- The board has read all that has been written, -/
  board_eq : b.stream.board = (start.receiveAll g.watch.usage.written).1
  /-- and has answered it. -/
  quiet : b.stream.toBoard = [] ∧ b.stream.unsent = []
  /-- As long as there is a stream, it brings what the stream brings. -/
  stream_eq : Event.dropped ∉ g.watch.usage.events → b.stream = g.line

private theorem Rehearses.pollTicket?_ne (h : b.Rehearses start waits g) (hlinked : g.watch.Linked)
    {t : Ticket} (ht : t ∈ waits) : g.watch.session.pollTicket? ≠ some t := by
  intro hticket
  obtain ⟨call, hcall, hfree⟩ := h.own t ht
  have hpoll := hlinked.polled t (hlinked.under_way t hticket)
  obtain rfl := Option.some.inj (hcall.symm.trans hpoll)
  exact hfree rfl

private theorem Rehearses.move_to (h : b.Rehearses start waits g) (hlinked : g.watch.Linked)
    {m : Move} {stream : BoardLine} {toHost : Bytes}
    (hboard : stream.board = (b.stream.board.receiveAll (g.watch.session.noted m).written).1)
    (hquiet : stream.toBoard = [] ∧ stream.unsent = [])
    (hstream : Event.dropped ∉ (g.watch.step m).usage.events →
      stream = HostAndBoard.line { g with watch := g.watch.step m, toHost }) :
    (Bench.move { b with stream } m).Rehearses start waits
      { g with watch := g.watch.step m, toHost } := by
  obtain ⟨hsame, hstays⟩ := quiet_foldl_note
    (b := { b with stream, session := (b.session.step m).1 }) (b.session.step m).2 hquiet
  have hevents := hlinked.events_step m
  have htells : ∀ {e}, e ∈ (b.session.step m).2 → e ∈ (g.watch.step m).usage.events := by
    intro e he
    rw [hevents, ← h.session_eq]
    exact List.mem_append_right _ (Session.mem_noted he)
  refine ⟨?_, fun p hp ↦ ?_, fun t ht outcome hsettled ↦ ?_, fun t ht ↦ ?_, ?_, hstays,
    fun hkept ↦ ?_⟩
  · rw [session_move, h.session_eq]
    rfl
  · rcases mem_outcomes_foldl_note.mp hp with hold | hnew
    · exact (g.watch.prefixes_run [m]).1.subset (h.told p hold)
    · exact htells hnew
  · refine mem_outcomes_foldl_note.mpr ?_
    rw [hevents] at hsettled
    refine (List.mem_append.mp hsettled).imp (h.tells t ht outcome) fun hnew ↦ ?_
    rw [h.session_eq]
    exact Session.settled_mem_step (h.pollTicket?_ne hlinked ht) hnew
  · obtain ⟨call, hcall, hfree⟩ := h.own t ht
    obtain ⟨hlt, rfl⟩ := List.getElem?_eq_some_iff.mp hcall
    exact ⟨_, List.prefix_iff_getElem?.mp (g.watch.prefixes_run [m]).2 t hlt, hfree⟩
  · refine hsame.trans ?_
    rw [hlinked.written_step, Board.receiveAll_append, ← h.board_eq]
    exact hboard
  · exact (stream_foldl_note (fun hmem ↦ hkept (htells hmem)) _).trans (hstream hkept)

theorem Rehearses.move (h : b.Rehearses start waits g) (hinStep : g.InStep (CarefulBoard.Is i))
    {m : Move} (hfree : m.isFree = true) (haccept : ∀ count, m ≠ .link (.accept count))
    (hcloser : ∀ t count, m ≠ .link (.closerAccept t count)) :
    (b.move m).Rehearses start waits (g.step (.move m)) := by
  have hstep : g.step (.move m) = { g with watch := g.watch.step m } := if_pos hfree
  have hnothing := Session.written_noted (s := g.watch.session) haccept hcloser
  rw [hstep]
  refine h.move_to hinStep.linked (by rw [hnothing]; rfl) h.quiet fun hkept ↦ ?_
  have hheld : Event.dropped ∉ g.watch.usage.events :=
    fun hmem ↦ hkept ((g.watch.prefixes_run [m]).1.subset hmem)
  rw [h.stream_eq hheld, HostAndBoard.line, HostAndBoard.line,
    hinStep.toBoard_of_written (hinStep.linked.written_step m), hnothing, List.append_nil]

theorem Rehearses.call (h : b.Rehearses start none g) (hinStep : g.InStep (CarefulBoard.Is i))
    {call : Call} (hfree : call.IsFree) :
    (b.move (.call call)).Rehearses start (some g.watch.session.nextTicket)
      (g.step (.move (.call call))) := by
  have hlinked := hinStep.linked
  have hmoved := h.move hinStep (m := .call call) (bne_iff_ne.mpr hfree) nofun nofun
  have hstep : g.step (.move (.call call)) = { g with watch := g.watch.step (.call call) } :=
    if_pos (bne_iff_ne.mpr hfree)
  rw [hstep] at hmoved ⊢
  refine { hmoved with tells := ?_, own := ?_ }
  · rintro t ht outcome hsettled
    obtain rfl := Option.mem_some.mp ht
    rw [hlinked.events_step] at hsettled
    rcases List.mem_append.mp hsettled with hold | hnew
    · have hlt := (hlinked.sound.settled_gone _ outcome hold).1
      rw [hlinked.nextTicket_eq] at hlt
      exact absurd hlt (Nat.lt_irrefl _)
    · have hother : g.watch.session.pollTicket? ≠ some g.watch.session.nextTicket := by
        intro hticket
        have hpoll := hlinked.polled _ (hlinked.under_way _ hticket)
        rw [hlinked.nextTicket_eq, List.getElem?_eq_none (Nat.le_refl _)] at hpoll
        cases hpoll
      refine mem_outcomes_foldl_note.mpr (.inr ?_)
      rw [h.session_eq]
      exact Session.settled_mem_step hother hnew
  · rintro t ht
    obtain rfl := Option.mem_some.mp ht
    refine ⟨call, ?_, hfree⟩
    have hcalls : (g.watch.step (.call call)).usage.calls = g.watch.usage.calls ++ [call] := rfl
    rw [hcalls, hlinked.nextTicket_eq, List.getElem?_concat_length]

theorem Rehearses.of_watch_eq (h : b.Rehearses start waits g) {g' : HostAndBoard CarefulBoard}
    (hwatch : g'.watch = g.watch) (hline : g'.line = g.line) : b.Rehearses start waits g' := by
  constructor <;> try rw [hwatch]
  · exact h.session_eq
  · exact h.told
  · exact h.tells
  · exact h.own
  · exact h.board_eq
  · exact h.quiet
  · exact hline ▸ h.stream_eq

private theorem Rehearses.serves (h : b.Rehearses start waits g)
    (hinStep : g.InStep (CarefulBoard.Is i)) (hheld : Event.dropped ∉ g.watch.usage.events)
    (hanswered : g.toHost = g.line.toHost) {a : Action} {stream : BoardLine}
    (hserves : b.stream.Serves b.session.connection a stream) :
    ∃ step : HostAndBoard.Step CarefulBoard, step.isSmooth ∧
      (Bench.move { b with stream } (.link a)).Rehearses start waits (g.step step) := by
  have hstream := h.stream_eq hheld
  rw [h.session_eq] at hserves
  cases hserves with
  | @transfers _ rest hprogress hsmooth hbefore hreader =>
    have hnoted := Session.noted_link (s := g.watch.session) hprogress
    rw [hstream, ← hanswered] at hbefore
    obtain ⟨step, hstep, hsame⟩ := HostAndBoard.exists_step_link hsmooth hbefore hreader
    refine ⟨step, hstep, ?_⟩
    rw [hsame]
    refine h.move_to hinStep.linked (by rw [hnoted]) h.quiet fun _ ↦ ?_
    -- all that is there has been answered before
    have hnothing : (g.board.board.receiveAll g.toBoard).2 = [] :=
      List.append_right_eq_self.mp hanswered.symm
    rw [hstream, HostAndBoard.line, HostAndBoard.line,
      hinStep.toBoard_of_written (hinStep.linked.written_step _), Board.receiveAll_append, hnothing,
      List.nil_append, hnoted]
  | @parts t hdropped =>
    have hmem : Event.dropped ∈ (g.watch.step (.link (.shutdownEnds t))).usage.events := by
      rw [hinStep.linked.events_step, Session.noted_link rfl]
      exact List.mem_append_right _ hdropped
    have hnothing := Session.written_noted (s := g.watch.session)
      (m := .link (.shutdownEnds t)) (by simp) (by simp)
    obtain ⟨hboard, hquiet⟩ :=
      BoardLine.serve_of_quiet { b.stream with hostDone := true } h.quiet.1 h.quiet.2
    refine ⟨.move (.link (.shutdownEnds t)), rfl, ?_⟩
    exact h.move_to hinStep.linked (by rw [hnothing]; exact hboard) hquiet
      fun hkept ↦ absurd hmem hkept

/-- Without a stream nothing can be done but to run a task. -/
private theorem next?_of_dropped {w : Watch} (hlinked : w.Linked)
    (hdropped : Event.dropped ∈ w.usage.events) {line stream : BoardLine} {a : Action}
    (hnext : w.session.connection.next? line = some (a, stream)) :
    a = .proceed ∧ stream = line := by
  obtain ⟨hlink, hcloser⟩ := hlinked.dropped_iff.mp hdropped
  rw [← hlinked.connection_eq] at hlink hcloser
  rw [Connection.next?, hcloser] at hnext
  have hwriter : w.session.connection.writer? = none := by
    rw [Connection.writer?, hlink]
    split <;> simp_all
  have hreader : w.session.connection.reader? = none := by
    rw [Connection.reader?, hlink]
    split <;> simp_all
  change Connection.serving? _ _ = _ at hnext
  rw [Connection.serving?, hwriter, hreader] at hnext
  split at hnext
  · cases hnext
  · split at hnext
    · cases hnext
      exact ⟨rfl, rfl⟩
    · cases hnext

/-- **What a bench does by itself can happen to a host and a board.** -/
theorem Rehearses.next? (h : b.Rehearses start waits g) (hinStep : g.InStep (CarefulBoard.Is i))
    (hfaithful : Responder.Faithful (CarefulBoard.Is i)) {b' : Bench BoardLine}
    (hnext : b.next? = some b') :
    ∃ steps : List (HostAndBoard.Step CarefulBoard), (∀ step ∈ steps, step.isSmooth) ∧
      b'.Rehearses start waits (g.run steps) := by
  rw [Bench.next?] at hnext
  split at hnext
  · rename_i a stream haction
    cases hnext
    by_cases hdropped : Event.dropped ∈ g.watch.usage.events
    · rw [h.session_eq] at haction
      obtain ⟨rfl, rfl⟩ := next?_of_dropped hinStep.linked hdropped haction
      exact ⟨[.move (.link .proceed)], List.forall_mem_singleton.mpr rfl,
        h.move hinStep rfl (by simp) (by simp)⟩
    · have hopen : b.stream.Open := h.stream_eq hdropped ▸ hinStep.open_line
      obtain ⟨commands, hwatch, hline, htoHost, -⟩ := hinStep.hear_all hfaithful
      obtain ⟨step, hsmooth, hlater⟩ := (h.of_watch_eq hwatch hline).serves
        (hinStep.run hfaithful _) (by rwa [hwatch]) (by rw [htoHost, hline])
        (hopen.serves_next? h.quiet.1 haction)
      refine ⟨commands.map .hear ++ [step], fun other hother ↦ ?_, ?_⟩
      · rcases List.mem_append.mp hother with hhear | hlast
        · obtain ⟨command, -, rfl⟩ := List.mem_map.mp hhear
          rfl
        · exact List.mem_singleton.mp hlast ▸ hsmooth
      · rw [HostAndBoard.run_append]
        exact hlater
  · obtain ⟨later, hadvance, rfl⟩ := Option.map_eq_some_iff.mp hnext
    have hmove : b.resume later = b.move .advance := by
      rw [Bench.move, Session.step, hadvance, Option.getD_some]
    rw [hmove]
    exact ⟨[.move .advance], List.forall_mem_singleton.mpr rfl,
      h.move hinStep rfl (by simp) (by simp)⟩

/-- Something can happen to a host and a board that makes them do what a bench does now. -/
def Follows (start : Board) (waits : Option Ticket) (g : HostAndBoard CarefulBoard)
    (b : Bench BoardLine) : Prop :=
  ∃ steps : List (HostAndBoard.Step CarefulBoard), (∀ step ∈ steps, step.isSmooth) ∧
    b.Rehearses start waits (g.run steps)

private theorem Follows.next? (h : Follows start waits g b) (hinStep : g.InStep (CarefulBoard.Is i))
    (hfaithful : Responder.Faithful (CarefulBoard.Is i)) {b' : Bench BoardLine}
    (hnext : b.next? = some b') : Follows start waits g b' := by
  obtain ⟨steps, hsmooth, hrehearses⟩ := h
  obtain ⟨more, hmore, hlater⟩ :=
    hrehearses.next? (hinStep.run hfaithful steps) hfaithful hnext
  rw [← HostAndBoard.run_append] at hlater
  exact ⟨steps ++ more, List.forall_mem_append.mpr ⟨hsmooth, hmore⟩, hlater⟩

private theorem Follows.elapse (h : Follows start waits g b)
    (hinStep : g.InStep (CarefulBoard.Is i)) (hfaithful : Responder.Faithful (CarefulBoard.Is i))
    (ms : ℕ) : Follows start waits g (b.move (.elapse ms)) := by
  obtain ⟨steps, hsmooth, hrehearses⟩ := h
  have hlater := hrehearses.move (hinStep.run hfaithful steps) (m := .elapse ms) rfl nofun nofun
  refine ⟨steps ++ [.move (.elapse ms)],
    List.forall_mem_append.mpr ⟨hsmooth, List.forall_mem_singleton.mpr rfl⟩, ?_⟩
  rw [HostAndBoard.run_append]
  exact hlater

/-- **A bench that waits goes one of the ways in which things can go.** -/
theorem Rehearses.waitUntil (h : b.Rehearses start waits g) (hinStep : g.InStep (CarefulBoard.Is i))
    (hfaithful : Responder.Faithful (CarefulBoard.Is i)) (deadline : ℕ)
    (enough : Bench BoardLine → Bool) : Follows start waits g (b.waitUntil deadline enough) := by
  refine waitWithin_invariant (P := Follows start waits g) ?_ ?_ _ ⟨[], nofun, h⟩
  · exact fun b b' hb hnext ↦ hb.next? hinStep hfaithful hnext
  · exact fun b ms hb ↦ hb.elapse hinStep hfaithful ms

theorem Rehearses.settle (h : b.Rehearses start waits g) (hinStep : g.InStep (CarefulBoard.Is i))
    (hfaithful : Responder.Faithful (CarefulBoard.Is i)) : Follows start waits g b.settle := by
  change Follows start waits g (settleWithin (fun _ ↦ false) restLimit b)
  exact settleWithin_invariant (P := Follows start waits g)
    (fun _ _ hb hnext ↦ hb.next? hinStep hfaithful hnext) restLimit ⟨[], nofun, h⟩

theorem rehearses_ofStream (peer : String) (start : Board) :
    (ofStream peer { board := start, capacity := none }).Rehearses start none
      (.fresh peer ⟨start⟩) where
  session_eq := rfl
  told := nofun
  tells := nofun
  own := nofun
  board_eq := rfl
  quiet := ⟨rfl, rfl⟩
  stream_eq _ := rfl

end Bench

end PinballBoard
