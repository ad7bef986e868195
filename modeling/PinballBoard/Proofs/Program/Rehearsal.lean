import PinballBoard.Proofs.Program.Completion
import PinballBoard.Proofs.Simulator.Promptness

/-!
# The rehearsed program

A rehearsal runs the program at a bench, with a simulated board and a patient host. A bench goes one
of the ways in which things can go (`Bench.Rehearses`), and so a program that follows its plan at a
bench makes one of its runs (`Bench.Rehearses.follow`). What is true of all runs is true of this
one: the board has received the frames of the handshake and of the order and no others, and the
program has printed what it has to and left nothing open (`Scene.shows_rehearse`).
-/

namespace PinballBoard

/-! ## Runs of so many steps -/

namespace CommandRun

variable {β α : Type} [Responder β] {options : PlatformOptions} {good : β → Prop} {i : Identity}
  {P : List Call → ProgramEnd α → Prop}

/-- One step after the other. -/
def run (options : PlatformOptions) (m : CommandRun β α) (steps : List (Step β)) : CommandRun β α :=
  steps.foldl (step options) m

theorem run_append (m : CommandRun β α) (steps more : List (Step β)) :
    m.run options (steps ++ more) = (m.run options steps).run options more :=
  List.foldl_append

theorem GoesWell.run {m : CommandRun β α} (h : m.GoesWell options good i P)
    (hcompliant : Responder.Compliant good i) (steps : List (Step β)) :
    (m.run options steps).GoesWell options good i P := by
  induction steps generalizing m with
  | nil => exact h
  | cons step steps ih => exact ih (h.step hcompliant step)

/-- The beginning of a schedule can be anything. -/
theorem exists_schedule (options : PlatformOptions) (m : CommandRun β α) (steps : List (Step β)) :
    ∃ schedule n, m.after options schedule n = m.run options steps := by
  let schedule (n : ℕ) : Step β := steps.getD n .go
  have hafter : ∀ n ≤ steps.length, m.after options schedule n = m.run options (steps.take n) := by
    intro n hn
    induction n with
    | zero => rfl
    | succ n ih =>
      have hnext : schedule n = steps[n] := (List.getElem_eq_getD Step.go).symm
      rw [after, ih (Nat.le_of_succ_le hn), hnext, List.take_succ_eq_append_getElem hn, run_append]
      rfl
  exact ⟨schedule, steps.length, by rw [hafter _ (Nat.le_refl _), List.take_length]⟩

theorem run_world (options : PlatformOptions) {steps : List (HostAndBoard.Step β)}
    (hsmooth : ∀ step ∈ steps, step.isSmooth) :
    ∃ steps', ∀ m : CommandRun β α,
      m.run options steps' = { m with system := m.system.run steps } := by
  induction steps with
  | nil => exact ⟨[], fun _ ↦ rfl⟩
  | cons step steps ih =>
    obtain ⟨hfirst, hrest⟩ := List.forall_mem_cons.mp hsmooth
    obtain ⟨steps', hrun⟩ := ih hrest
    exact ⟨.world step hfirst :: steps', fun m ↦ hrun { m with system := m.system.step step }⟩

end CommandRun

/-! ## A plan at a bench is a run -/

theorem Watch.Linked.lookup_settled {w : Watch} (h : w.Linked) {t : Ticket} {outcome : Outcome}
    (hsettled : Event.settled t outcome ∈ w.usage.events) :
    w.usage.events.settled.lookup t = some outcome := by
  obtain ⟨peer, turns, husage⟩ := h.usage_eq
  have hnodup := (Usage.settledOnce_run peer turns).nodup
  rw [← husage] at hnodup
  have hmem : (t, outcome) ∈ w.usage.events.settled := Trace.mem_settled.mpr hsettled
  obtain ⟨other, hother⟩ := Option.isSome_iff_exists.mp
    (List.lookup_isSome_iff.mpr ⟨_, hmem, beq_self_eq_true t⟩)
  have hsame : (t, other) = (t, outcome) := List.inj_on_of_nodup_map hnodup
    (Trace.mem_settled.mpr (Trace.mem_of_lookup hother)) hmem rfl
  cases hsame
  exact hother

/-- While the program waits for a call, only its call and one of the poll loop are in line. -/
theorem CommandRun.Working.length_line_le {β α : Type} {good : β → Prop} {i : Identity}
    {P : List Call → ProgramEnd α → Prop} {m : CommandRun β α} (h : m.Working good i P)
    {t : Ticket} (hwaits : m.waits = some t) :
    m.system.watch.usage.connection.line.length ≤ 2 := by
  have hlinked := h.calm.linked
  have hsound := hlinked.sound
  let own : List Ticket := t :: m.system.watch.session.pollTicket?.toList
  have hown : ∀ k ∈ m.system.watch.usage.connection.line, k.ticket ∈ own := by
    intro k hk
    have hcall := hsound.orderly.call_of k hk
    by_cases hfree : k.call.IsFree
    · rcases h.settled k.ticket k.call hcall hfree with hsame | ⟨outcome, hsettled⟩
      · exact List.mem_cons.mpr (.inl (Option.some.inj (hsame.symm.trans hwaits)))
      · exact absurd rfl ((hsound.settled_gone _ outcome hsettled).2 k hk)
    · have hpoll := h.calm.polls_of k.ticket (by rw [hcall]; exact not_not.mp hfree)
      rcases hlinked.gone k.ticket hpoll with hticket | hgone
      · exact List.mem_cons_of_mem _ (Option.mem_toList.mpr hticket)
      · exact absurd rfl (hgone.2 k hk)
  have hnodup : (m.system.watch.usage.connection.line.map (·.ticket)).Nodup :=
    hsound.orderly.line_lt.imp Nat.ne_of_lt
  have hsubset : m.system.watch.usage.connection.line.map (·.ticket) ⊆ own := by
    intro t' ht'
    obtain ⟨k, hk, rfl⟩ := List.mem_map.mp ht'
    exact hown k hk
  have hlength := (List.subperm_of_subset hnodup hsubset).length_le
  have hlast : m.system.watch.session.pollTicket?.toList.length ≤ 1 := by
    cases m.system.watch.session.pollTicket? <;> simp
  rw [List.length_map] at hlength
  exact hlength.trans (Nat.succ_le_succ hlast)

section Follow

variable {α : Type} {options : PlatformOptions} {i : Identity} {start : Board}
  {waits : Option Ticket} {P : List Call → ProgramEnd α → Prop} {b b' : Bench BoardLine}
  {m : CommandRun CarefulBoard α}

/-- What can happen to the host and the board can happen during a run. -/
theorem Bench.Follows.run (h : Bench.Follows start waits m.system b)
    (options : PlatformOptions) :
    ∃ steps, (m.run options steps).plan = m.plan ∧ (m.run options steps).waits = m.waits ∧
      b.Rehearses start waits (m.run options steps).system := by
  obtain ⟨steps, hsmooth, hrehearses⟩ := h
  obtain ⟨steps', hrun⟩ := CommandRun.run_world (α := α) options hsmooth
  refine ⟨steps', ?_⟩
  rw [hrun]
  exact ⟨rfl, rfl, hrehearses⟩

namespace Bench

private theorem Rehearses.beginPolling? {g : HostAndBoard CarefulBoard}
    (h : b.Rehearses start waits g) (discovery : Discovery) (options : PlatformOptions) :
    Option.Rel (Rehearses start waits) (b.beginPolling? discovery options)
      (g.beginPolling? discovery options) := by
  rw [Bench.beginPolling?, HostAndBoard.beginPolling?, h.session_eq]
  cases g.watch.session.beginPolling? discovery.switches options.eventCapacity
    options.pollInterval with
  | none => exact .none
  | some session => exact .some ⟨rfl, h.told, h.tells, h.own, h.board_eq, h.quiet, h.stream_eq⟩

private theorem Rehearses.hears {call : Call} {next : Outcome → Plan α} {t : Ticket}
    (h : b.Rehearses start (some t) m.system)
    (hgoes : m.GoesWell options (CarefulBoard.Is i) i P)
    (hcompliant : Responder.Compliant (CarefulBoard.Is i) i) (hplan : m.plan = .call call next)
    (hwaits : m.waits = some t) :
    ((b.settleUntil fun b ↦ (b.outcome? t).isSome).outcome? t).isSome = true := by
  obtain hworking | ⟨own, result, -, hclosing⟩ | ⟨own, -, -, hhalted⟩ := hgoes.course
  · refine h.settles hworking.calm hcompliant ((Connection.left_le _ _).trans ?_)
    have hlength := hworking.length_line_le hwaits
    omega
  · obtain ⟨failure, hended⟩ := hclosing.ended
    refine h.parts hgoes.inStep hcompliant.faithful hended ?_
    cases hclosing.leaving with
    | begins => cases hwaits
    | parts hparting =>
      cases hwaits
      exact hparting
    | finished => cases hplan
  · cases hhalted.plan_eq.symm.trans hplan

private theorem Rehearses.await {call : Call} {next : Outcome → Plan α} {t : Ticket}
    (h : b.Rehearses start (some t) m.system)
    (hgoes : m.GoesWell options (CarefulBoard.Is i) i P)
    (hcompliant : Responder.Compliant (CarefulBoard.Is i) i) (hplan : m.plan = .call call next)
    (hwaits : m.waits = some t) (deadline : ℕ) :
    ∃ outcome b' steps, b.await deadline t = (some outcome, b') ∧
      (m.run options steps).plan = next outcome ∧ (m.run options steps).waits = none ∧
        b'.Rehearses start none (m.run options steps).system := by
  have hfollows := h.waitUntil hgoes.inStep hcompliant.faithful deadline
    fun b ↦ (b.outcome? t).isSome
  have hheard := enough_waitUntil (fun b ↦ (b.outcome? t).isSome)
    (h.hears hgoes hcompliant hplan hwaits) deadline
  rw [Bench.await]
  generalize b.waitUntil deadline (fun b ↦ (b.outcome? t).isSome) = waited at hheard hfollows
  obtain ⟨outcome, houtcome⟩ := Option.isSome_iff_exists.mp hheard
  obtain ⟨steps, hplan', hwaits', hwaited⟩ := hfollows.run options
  have hsettled : Event.settled t outcome ∈ (m.run options steps).system.watch.usage.events := by
    obtain ⟨before, after, hsplit, -⟩ := List.lookup_eq_some_iff.mp houtcome
    exact hwaited.told (t, outcome) (by simp [hsplit])
  have hlookup := (hgoes.run hcompliant steps).inStep.linked.lookup_settled hsettled
  have hgo : (m.run options steps).run options [.go] =
      { m.run options steps with plan := next outcome, waits := none } :=
    CommandRun.go_of_lookup (hplan'.trans hplan) (hwaits'.trans hwaits) hlookup
  refine ⟨outcome, { waited with outcomes := waited.outcomes.filter (·.1 != t) },
    steps ++ [.go], by rw [houtcome], ?_⟩
  rw [CommandRun.run_append, hgo]
  exact ⟨rfl, rfl, hwaited.session_eq, fun p hp ↦ hwaited.told p (List.mem_of_mem_filter hp),
    by simp, by simp, hwaited.board_eq, hwaited.quiet, hwaited.stream_eq⟩

/-- **A program that follows its plan at a bench makes one of its runs, and comes to its end.** -/
theorem Rehearses.follow {plan : Plan α} (h : b.Rehearses start none m.system)
    (hgoes : m.GoesWell options (CarefulBoard.Is i) i P)
    (hcompliant : Responder.Compliant (CarefulBoard.Is i) i) (hplan : m.plan = plan)
    (hwaits : m.waits = none) (deadline : ℕ) :
    ∃ ending b' steps, b.follow options deadline plan = (some ending, b') ∧
      (m.run options steps).plan = .ended ending ∧
        b'.Rehearses start none (m.run options steps).system := by
  induction plan generalizing b m deadline with
  | ended ending => exact ⟨ending, b, [], rfl, hplan, h⟩
  | call call next ih =>
    obtain ⟨g, _, _⟩ := m
    obtain rfl := hplan
    obtain rfl := hwaits
    let called : CommandRun CarefulBoard α :=
      ⟨g.step (.move (.call call)), .call call next, some g.watch.session.nextTicket⟩
    have hcalled : (b.move (.call call)).Rehearses start (some g.watch.session.nextTicket)
        called.system := h.call hgoes.inStep hgoes.isFree_of_call
    have hgoesOn : called.GoesWell options (CarefulBoard.Is i) i P := hgoes.step hcompliant .go
    obtain ⟨outcome, later, steps, hawait, hplan, hwaits, hlater⟩ :=
      hcalled.await hgoesOn hcompliant rfl rfl deadline
    obtain ⟨ending, b', more, hfollow, hended⟩ :=
      ih outcome hlater (hgoesOn.run hcompliant steps) hplan hwaits deadline
    rw [← CommandRun.run_append] at hended
    refine ⟨ending, b', .go :: (steps ++ more), ?_, hended⟩
    rw [Bench.follow, Bench.enter, h.session_eq]
    dsimp only
    rw [hawait]
    exact hfollow
  | beginPolling discovery next ih =>
    obtain ⟨g, _, _⟩ := m
    obtain rfl := hplan
    obtain rfl := hwaits
    have hpolling := h.beginPolling? discovery options
    have hgoesOn := hgoes.run hcompliant [.go]
    have hgo : CommandRun.run options ⟨g, .beginPolling discovery next, none⟩ [.go] =
        (g.beginPolling? discovery options).elim ⟨g, .ended .crashed, none⟩
          fun system ↦ ⟨system, next, none⟩ :=
      CommandRun.go_of_beginPolling (m := ⟨g, .beginPolling discovery next, none⟩) rfl
    rw [Bench.follow]
    generalize b.beginPolling? discovery options = polling at hpolling
    generalize g.beginPolling? discovery options = polling' at hpolling hgo
    cases hpolling with
    | none =>
      refine ⟨.crashed, b, [.go], rfl, ?_⟩
      rw [hgo]
      exact ⟨rfl, h⟩
    | some hlater =>
      rw [hgo] at hgoesOn
      obtain ⟨ending, b', steps, hfollow, hended⟩ := ih hlater hgoesOn rfl rfl _
      rw [← hgo] at hended
      exact ⟨ending, b', .go :: steps, hfollow, hended⟩
  | cancelPolling next ih =>
    obtain ⟨g, _, _⟩ := m
    obtain rfl := hplan
    obtain rfl := hwaits
    have hlater : (b.move .cancelPolling).Rehearses start none (g.step (.move .cancelPolling)) :=
      h.move hgoes.inStep rfl (by simp) (by simp)
    obtain ⟨ending, b', steps, hfollow, hended⟩ :=
      ih hlater (hgoes.step hcompliant .go) rfl rfl _
    exact ⟨ending, b', .go :: steps, hfollow, hended⟩

end Bench

end Follow

/-! ## What the board has received -/

/-- Frames do to a board what their commands say, one after the other. -/
theorem Board.frames_receiveAll {b : Board} (h : b.InOrder) {commands : List Command}
    (hframes : ∀ command ∈ commands, command.HasFrame) :
    (b.receiveAll (Command.frames commands)).1.frames =
      b.frames ++ (Command.withoutPolls commands).map Command.frame := by
  induction commands generalizing b with
  | nil => exact (List.append_nil _).symm
  | cons command commands ih =>
    obtain ⟨hframe, hrest⟩ := List.forall_mem_cons.mp hframes
    have hfirst : Command.frames (command :: commands) = command.frame ++ Command.frames commands :=
      rfl
    have hpolls : Command.withoutPolls (command :: commands) =
        Command.withoutPolls [command] ++ Command.withoutPolls commands :=
      Command.withoutPolls_append [command] commands
    rw [hfirst, receiveAll_append, receiveAll_frame hframe h.between h.stays,
      ih (h.obey command) hrest, frames_obey, hpolls, List.map_append, List.append_assoc]
    rfl

/-- Whole frames that have been written have been received. -/
theorem Bench.Rehearses.frames_eq {start : Board} {b : Bench BoardLine}
    {g : HostAndBoard CarefulBoard} {frames : List Bytes} (h : b.Rehearses start none g)
    (hstart : start.InOrder) (hwritten : g.HasWritten frames) :
    b.stream.board.frames = start.frames ++ frames := by
  obtain ⟨commands, hwritten, hwhole, rfl⟩ := hwritten
  rw [h.board_eq, hwritten, Board.frames_receiveAll hstart hwhole]

/-! ## What is seen of the program -/

/-- What is seen of a program that has been given an order for a board with this identity. -/
structure Order.Shows (i : Identity) (order : Order) (board : Board) (t : Transcript) : Prop where
  /-- The board has received the frames of the handshake, and then those of the order, if it can be
  carried out. -/
  frames_eq : t.frames = board.frames ++ (Handshake.frames ++ (order.frames? i.profile).getD [])
  /-- If it can be the program succeeds and prints what it has to, else it fails. -/
  verdict_eq : match order.frames? i.profile with
    | some _ => t.verdict = .success ∧ t.lines = order.lines i
    | none => (∃ f, t.verdict = .failure f) ∧ t.lines = []
  /-- The program has left no poll loop and no stream. -/
  closed : ∃ session, t.session = some session ∧ session.isPolling = false ∧
    session.connection.link = none ∧ session.connection.closer = none

/-- What is seen of a program that has crashed behind the handshake. -/
structure Order.ShowsCrash (board : Board) (t : Transcript) : Prop where
  frames_eq : t.frames = board.frames ++ Handshake.frames
  verdict_eq : t.verdict = .crashed ∧ t.lines = []

namespace Order

variable {i : Identity} {order : Order} {start : Board} {b : Bench BoardLine}
  {m : CommandRun CarefulBoard (Except Failure (List String))}

theorem Completed.shows {result : Except Failure (List String)} (h : order.Completed i result m)
    (hstart : start.InOrder) (hrehearses : b.Rehearses start none m.system) :
    order.Shows i start (.ofEnd b (.finished result)) := by
  obtain ⟨hwritten, hresult, hunpolled, hclosed⟩ := h
  have hframes := hrehearses.frames_eq hstart hwritten
  rw [← hrehearses.session_eq] at hunpolled hclosed
  have hshown : ∃ verdict lines, Transcript.ofEnd b (.finished result) = .ofBench verdict lines b ∧
      match order.frames? i.profile with
      | some _ => verdict = .success ∧ lines = order.lines i
      | none => (∃ f, verdict = .failure f) ∧ lines = [] := by
    cases hcase : order.frames? i.profile with
    | some frames =>
      rw [hcase] at hresult
      exact ⟨.success, order.lines i, by rw [show result = _ from hresult]; rfl, rfl, rfl⟩
    | none =>
      rw [hcase] at hresult
      obtain ⟨f, rfl⟩ := hresult
      exact ⟨.failure f, [], rfl, ⟨f, rfl⟩, rfl⟩
  obtain ⟨verdict, lines, hseen, hverdict⟩ := hshown
  rw [hseen]
  exact ⟨hframes, hverdict, b.session, rfl, hunpolled, hclosed⟩

theorem Crashed.shows (h : Crashed m) (hstart : start.InOrder)
    (hrehearses : b.Rehearses start none m.system) : ShowsCrash start (.ofEnd b .crashed) where
  frames_eq := hrehearses.frames_eq hstart h.written
  verdict_eq := ⟨rfl, rfl⟩

end Order

namespace Scene

variable {i : Identity} {order : Order} {board : Board}

/-- **The rehearsed program makes one of its runs**, up to the end. -/
theorem exists_run (s : Scene) (settings : Settings) (endpoint : Endpoint)
    (horder : order ≠ .monitor) (hconnect : s.connect endpoint = .ok { board, capacity := none })
    (hboard : CarefulBoard.Is i ⟨board⟩)
    (hcompliant : Responder.Compliant (CarefulBoard.Is i) i) :
    ∃ schedule n ending b,
      let m := (CommandRun.fresh endpoint.text ⟨board⟩ order.plan).after settings.options schedule n
      m.plan = .ended ending ∧ b.Rehearses board none m.system ∧
        s.attend settings endpoint order = .ofEnd b ending := by
  have hgoes := order.goesWell_fresh i settings.options endpoint.text hboard horder
  obtain ⟨ending, b, steps, hfollow, hended, hrehearses⟩ :=
    (Bench.rehearses_ofStream endpoint.text board).follow hgoes hcompliant rfl rfl Bench.patience
  obtain ⟨later, hlater, hattend⟩ := s.attend_eq_follow settings endpoint horder hconnect hfollow
  obtain ⟨steps, hended, hrehearses⟩ : ∃ steps,
      let m := (CommandRun.fresh endpoint.text ⟨board⟩ order.plan).run settings.options steps
      m.plan = .ended ending ∧ later.Rehearses board none m.system := by
    rcases hlater with rfl | rfl
    · exact ⟨steps, hended, hrehearses⟩
    · have hsettled := hrehearses.settle (hgoes.run hcompliant steps).inStep hcompliant.faithful
      obtain ⟨more, hplan, -, hlater⟩ := hsettled.run settings.options
      rw [← CommandRun.run_append] at hplan hlater
      exact ⟨steps ++ more, hplan.trans hended, hlater⟩
  obtain ⟨schedule, n, hafter⟩ := CommandRun.exists_schedule settings.options
    (CommandRun.fresh endpoint.text ⟨board⟩ order.plan) steps
  rw [← hafter] at hended hrehearses
  exact ⟨schedule, n, ending, later, hended, hrehearses, hattend⟩

/-- **The rehearsed program carries its order out, or fails without a trace.** -/
theorem shows_rehearse (s : Scene) {words : List String} {overrides : Overrides}
    {settings : Settings} {endpoint : Endpoint}
    (hwords : Invocation.ofWords words = .ok (.run overrides order)) (horder : order ≠ .monitor)
    (hsettings : overrides.settings (s.readFile (overrides.config.getD "")) =
      .ok (settings, endpoint))
    (hconnect : s.connect endpoint = .ok { board, capacity := none })
    (hboard : CarefulBoard.Is i ⟨board⟩) (hfirmware : Reply.fits (.string i.firmware))
    (hapi : Reply.fits (.string i.api)) :
    if settings.options.HasChannel then order.Shows i board (s.rehearse words)
    else Order.ShowsCrash board (s.rehearse words) := by
  have hcompliant : Responder.Compliant (CarefulBoard.Is i) i :=
    CarefulBoard.compliant hfirmware hapi
  have hrehearse : s.rehearse words = s.attend settings endpoint order := by
    rw [rehearse, hwords]
    dsimp only
    rw [hsettings]
  obtain ⟨schedule, n, ending, b, hended, hrehearses, hattend⟩ :=
    s.exists_run settings endpoint horder hconnect hboard hcompliant
  have hgoes := (order.goesWell_fresh i settings.options endpoint.text hboard horder).after
    hcompliant schedule n
  rw [hrehearse, hattend]
  cases ending with
  | finished result =>
    obtain ⟨hchannel, own, hends, hclosing, hlink, hcloser⟩ := hgoes.of_finished hended
    rw [if_pos hchannel]
    exact (Order.completed_of_closing hends hclosing hlink hcloser).shows hboard.inOrder hrehearses
  | crashed =>
    obtain ⟨own, hends, hchannel, hhalted⟩ := hgoes.of_crashed hended
    rw [if_neg hchannel]
    exact (Order.crashed_of_halted hends hhalted).shows hboard.inOrder hrehearses

example :
    let s : Scene := { board := some { changes := [133] }, port := 5963 }
    (s.rehearse ["--host", "localhost", "lamp", "7", "on"]).frames =
      Handshake.frames ++ [[11, 7]] := by
  decide +kernel

end Scene

end PinballBoard
