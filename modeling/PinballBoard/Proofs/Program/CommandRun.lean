import PinballBoard.Proofs.Link.Parting
import PinballBoard.Proofs.Platform.Suspension
import PinballBoard.Proofs.Program.Plan

/-!
# Runs of a program

A program follows its plan with a board, in a world in which nothing goes wrong: `CommandRun.step`
lets the world or the program get on, and any sequence of steps is a schedule. Nobody has to take
turns. The poll loop asks and the board reports while the program starts, waits, works or shuts
down.

Two things are true at every moment. As long as the program works, nothing has gone wrong, and the
plan that is left serves with the calls that have been made (`Working`). From the moment at which it
stops polling nobody else uses the connection, and all that can happen is its end (`Closing`). In
between there is nothing, since the poll loop goes at once, and a poll that is under way takes the
stream with it (`GoesWell.after`).

There is one other end. A program that asks for a channel that there cannot be crashes where it
stands, behind the handshake (`Halted`). Whether it does is a matter of the options alone
(`HasChannel`).
-/

namespace PinballBoard

/-- There can be a channel for the events. -/
def PlatformOptions.HasChannel (options : PlatformOptions) : Prop :=
  0 < options.eventCapacity ∧ options.eventCapacity ≤ Channel.greatestCapacity

instance (options : PlatformOptions) : Decidable options.HasChannel :=
  inferInstanceAs (Decidable (_ ∧ _))

namespace HostAndBoard

variable {β : Type}

/-- Start to poll, unless there can be no channel for the events. -/
def beginPolling? (g : HostAndBoard β) (discovery : Discovery) (options : PlatformOptions) :
    Option (HostAndBoard β) :=
  (g.watch.session.beginPolling? discovery.switches options.eventCapacity
    options.pollInterval).map fun session ↦ { g with watch := { g.watch with session } }

theorem beginPolling?_eq (g : HostAndBoard β) (discovery : Discovery) (options : PlatformOptions) :
    g.beginPolling? discovery options =
      if options.HasChannel then
        some (g.beginPolling discovery.switches options.eventCapacity options.pollInterval)
      else none := by
  rw [beginPolling?, Session.beginPolling?_eq]
  change Option.map _ (if options.HasChannel then _ else _) = _
  split <;> rfl

end HostAndBoard

/-- A program that follows a plan with a board. -/
structure CommandRun (β α : Type) where
  system : HostAndBoard β
  /-- What is left of the plan. -/
  plan : Plan α
  /-- The call of the program that is under way. -/
  waits : Option Ticket

namespace CommandRun

variable {β α : Type}

section Steps

variable [Responder β] (options : PlatformOptions)

/-- A program that has not begun. -/
def fresh (peer : String) (board : β) (plan : Plan α) : CommandRun β α :=
  ⟨.fresh peer board, plan, none⟩

/-- What can happen while nothing goes wrong. -/
inductive Step (β : Type) [Responder β] where
  /-- Something happens to the host or the board. -/
  | world (step : HostAndBoard.Step β) (hsmooth : step.isSmooth)
  /-- The program gets on. -/
  | go

/-- The program gets on, if it can. -/
def go (m : CommandRun β α) : CommandRun β α :=
  match m.plan, m.waits with
  | .ended _, _ => m
  | .call call _, none =>
    { m with
      system := m.system.step (.move (.call call))
      waits := some m.system.watch.session.nextTicket }
  | .call _ next, some ticket =>
    match m.system.watch.usage.events.settled.lookup ticket with
    | some outcome => { m with plan := next outcome, waits := none }
    | none => m
  | .beginPolling discovery next, _ =>
    match m.system.beginPolling? discovery options with
    | some system => { m with system, plan := next }
    | none => { m with plan := .ended .crashed }
  | .cancelPolling next, _ =>
    { m with system := m.system.step (.move .cancelPolling), plan := next }

/-- One step. -/
def step (m : CommandRun β α) : Step β → CommandRun β α
  | .world step _ => { m with system := m.system.step step }
  | .go => m.go options

/-- What has become of a run after so many steps of a schedule. -/
def after (m : CommandRun β α) (schedule : ℕ → Step β) : ℕ → CommandRun β α
  | 0 => m
  | n + 1 => (m.after schedule n).step options (schedule n)

variable {options} {m : CommandRun β α}

theorem go_of_lookup {call : Call} {next : Outcome → Plan α} {t : Ticket} {outcome : Outcome}
    (hplan : m.plan = .call call next) (hwaits : m.waits = some t)
    (hlookup : m.system.watch.usage.events.settled.lookup t = some outcome) :
    m.go options = { m with plan := next outcome, waits := none } := by
  rw [go, hplan, hwaits]
  dsimp only
  rw [hlookup]

theorem go_of_beginPolling {discovery : Discovery} {next : Plan α}
    (hplan : m.plan = .beginPolling discovery next) :
    m.go options = (m.system.beginPolling? discovery options).elim
      { m with plan := .ended .crashed } fun system ↦ { m with system, plan := next } := by
  rw [go, hplan]
  dsimp only
  cases m.system.beginPolling? discovery options <;> rfl

end Steps

/-! ## What the world leaves alone -/

end CommandRun

theorem Watch.Linked.isSome_phase?_run {w : Watch} (h : w.Linked) (moves : List Move) :
    (w.run moves).session.phase?.isSome = w.session.phase?.isSome := by
  induction moves using List.reverseRecOn with
  | nil => rfl
  | append_singleton moves move ih =>
    obtain ⟨heard, took, asked, hmoved⟩ := (h.run moves).moved_step move
    rw [Watch.run_append, ← ih]
    have hshift := hmoved.shift
    generalize hd : (w.run moves).session.pollState = d at hshift
    generalize hd' : (((w.run moves).step move)).session.pollState = d' at hshift
    have hphase : d'.phase.isSome = d.phase.isSome := by cases hshift <;> rfl
    rw [← hd, ← hd'] at hphase
    exact hphase

theorem Watch.Linked.beginPolling {w : Watch} (h : w.Linked) (hphase : w.session.phase? = none)
    (switches : SwitchTable) (capacity interval : Nat) :
    (w.beginPolling switches capacity interval).Linked where
  usage_eq := h.usage_eq
  connection_eq := h.connection_eq
  nextTicket_eq := h.nextTicket_eq
  polled := h.polled
  gone t ht := .inr <| (h.gone t ht).resolve_left fun hticket ↦ by
    rw [Session.pollTicket?_eq_some, hphase] at hticket
    cases hticket
  under_way _ ht := nomatch ht

namespace HostAndBoard

theorem InStep.beginPolling {β : Type} {good : β → Prop} {g : HostAndBoard β}
    (h : g.InStep good) (hphase : g.watch.session.phase? = none) (switches : SwitchTable)
    (capacity interval : Nat) : (g.beginPolling switches capacity interval).InStep good :=
  { h with linked := h.linked.beginPolling hphase switches capacity interval }

variable {β : Type} [Responder β] {g : HostAndBoard β} {step : Step β}

/-- Only the poll loop makes calls by itself. -/
theorem hosts_step_of_isSmooth (g : HostAndBoard β) (hsmooth : step.isSmooth) :
    Call.hosts (g.step step).watch.usage.calls = Call.hosts g.watch.usage.calls := by
  rcases g.usage_step_of_isSmooth hsmooth with hsame | ⟨-, hpoll⟩ | ⟨a, -, hact⟩
  · rw [hsame]
  · rw [hpoll]
    change Call.hosts (g.watch.usage.calls ++ [.request .pollChanges]) = _
    rw [Call.hosts_append]
    exact List.append_nil _
  · rw [hact]
    rfl

/-- What is no poll has been called before. -/
theorem call_of_step {t : Ticket} {call : Call} (hsmooth : step.isSmooth) (hfree : call.IsFree)
    (hcall : (g.step step).watch.usage.calls[t]? = some call) :
    g.watch.usage.calls[t]? = some call := by
  rcases g.usage_step_of_isSmooth hsmooth with hsame | ⟨-, hpoll⟩ | ⟨a, -, hact⟩
  · rwa [hsame] at hcall
  · rw [hpoll] at hcall
    change (g.watch.usage.calls ++ [.request .pollChanges])[t]? = some call at hcall
    rcases Nat.lt_or_ge t g.watch.usage.calls.length with hlt | hge
    · rwa [List.getElem?_append_left hlt] at hcall
    · rw [List.getElem?_append_right hge, List.getElem?_singleton] at hcall
      obtain ⟨-, hcall⟩ := Option.ite_none_right_eq_some.mp hcall
      exact absurd (congrArg Call.command? (Option.some.inj hcall).symm) hfree
  · rwa [hact] at hcall

theorem isSome_phase?_step (h : g.watch.Linked) (step : Step β) :
    (g.step step).watch.session.phase?.isSome = g.watch.session.phase?.isSome := by
  obtain ⟨moves, hmoves⟩ := g.watch_run [step]
  change (g.step step).watch = _ at hmoves
  rw [hmoves]
  exact h.isSome_phase?_run moves

theorem prefixes_step (g : HostAndBoard β) (step : Step β) :
    g.watch.usage.calls <+: (g.step step).watch.usage.calls ∧
      g.watch.usage.events <+: (g.step step).watch.usage.events := by
  obtain ⟨moves, hmoves⟩ := g.watch_run [step]
  change (g.step step).watch = _ at hmoves
  rw [hmoves]
  exact (g.watch.prefixes_run moves).symm

end HostAndBoard

namespace CommandRun

variable {β α : Type} {good : β → Prop} {i : Identity} {P : List Call → ProgramEnd α → Prop}

/-! ## At work -/

/-- What is left of the plan serves with the calls that have been made. -/
inductive Stands (i : Identity) (P : List Call → ProgramEnd α → Prop) : CommandRun β α → Prop where
  /-- The program is about to get on. -/
  | free {g : HostAndBoard β} {plan : Plan α}
      (hserves : plan.Serves i g.watch.session.phase?.isSome fun more ↦
        P (Call.hosts g.watch.usage.calls ++ more)) : Stands i P ⟨g, plan, none⟩
  /-- The program waits for its last call. -/
  | waiting {g : HostAndBoard β} {call : Call} {next : Outcome → Plan α} {earlier : List Call}
      {t : Ticket}
      (hmade : Call.hosts g.watch.usage.calls = earlier ++ [call])
      (hcall : g.watch.usage.calls[t]? = some call)
      (hserves : (Plan.call call next).Serves i g.watch.session.phase?.isSome fun more ↦
        P (earlier ++ more)) : Stands i P ⟨g, .call call next, some t⟩

/-- The program works, and nothing has gone wrong. -/
structure Working (good : β → Prop) (i : Identity) (P : List Call → ProgramEnd α → Prop)
    (m : CommandRun β α) : Prop where
  calm : m.system.Calm good i
  stands : m.Stands i P
  /-- The program waits for one call at most. -/
  settled : ∀ t call, m.system.watch.usage.calls[t]? = some call → call.IsFree →
    m.waits = some t ∨ ∃ outcome, Event.settled t outcome ∈ m.system.watch.usage.events

theorem working_fresh (peer : String) {board : β} {plan : Plan α} (hgood : good board)
    (hplan : plan.Serves i false P) : (fresh peer board plan).Working good i P where
  calm := HostAndBoard.calm_fresh peer hgood
  stands := .free hplan
  settled := nofun

/-- A program that works is somewhere in its plan. -/
def WorksAt (good : β → Prop) (i : Identity) (P : List Call → ProgramEnd α → Prop) (plan : Plan α)
    (waits : Option Ticket) (m : CommandRun β α) : Prop :=
  m.Working good i P ∧ m.plan = plan ∧ m.waits = waits

theorem Working.waits_eq_none {m : CommandRun β α} (h : m.Working good i P)
    (hplan : ∀ call next, m.plan ≠ .call call next) : m.waits = none := by
  have hstands := h.stands
  cases hstands with
  | free => rfl
  | waiting => exact absurd rfl (hplan _ _)

/-- The call of the program has ended. -/
theorem Working.told {g : HostAndBoard β} {call : Call} {next : Outcome → Plan α} {t : Ticket}
    {outcome : Outcome} (h : Working good i P ⟨g, .call call next, some t⟩)
    (hsettled : Event.settled t outcome ∈ g.watch.usage.events) :
    Working good i P ⟨g, next outcome, none⟩ := by
  refine ⟨h.calm, ?_, fun s made hmade hown ↦ .inr ?_⟩
  · cases h.stands with
    | waiting hmade hcall hserves =>
      refine .free ?_
      rw [hmade]
      simpa using hserves.2 outcome (h.calm.allows hcall hsettled)
  · obtain heq | hother := h.settled s made hmade hown
    · exact ⟨outcome, Option.some.inj heq ▸ hsettled⟩
    · exact hother

theorem Working.phase?_eq_none {g : HostAndBoard β} {discovery : Discovery} {next : Plan α}
    (h : Working good i P ⟨g, .beginPolling discovery next, none⟩) :
    g.watch.session.phase? = none := by
  obtain ⟨hserves⟩ : Stands i P ⟨g, .beginPolling discovery next, none⟩ := h.stands
  exact Option.isNone_iff_eq_none.mp (by simpa using hserves.1)

theorem Working.beginPolling {g : HostAndBoard β} {discovery : Discovery} {next : Plan α}
    (h : Working good i P ⟨g, .beginPolling discovery next, none⟩) (capacity interval : Nat) :
    Working good i P ⟨g.beginPolling discovery.switches capacity interval, next, none⟩ := by
  obtain ⟨hserves⟩ : Stands i P ⟨g, .beginPolling discovery next, none⟩ := h.stands
  have hcalm : g.Calm good i := h.calm
  have hinStep := hcalm.toInStep.beginPolling h.phase?_eq_none discovery.switches capacity interval
  exact ⟨⟨hinStep, hcalm.smooth, hcalm.admitted, hcalm.expects⟩, .free hserves.2.2, h.settled⟩

section Working

variable [Responder β] {options : PlatformOptions} {m : CommandRun β α} {g : HostAndBoard β}

theorem Working.world (h : m.Working good i P) (hcompliant : Responder.Compliant good i)
    {step : HostAndBoard.Step β} (hsmooth : step.isSmooth) :
    Working good i P { m with system := m.system.step step } := by
  have hhosts := m.system.hosts_step_of_isSmooth hsmooth
  have hphase := HostAndBoard.isSome_phase?_step h.calm.linked step
  obtain ⟨⟨calls, hcalls⟩, hevents⟩ := m.system.prefixes_step step
  refine ⟨h.calm.step hcompliant hsmooth, ?_, fun t call hcall hfree ↦ ?_⟩
  · cases h.stands with
    | free hserves =>
      refine .free ?_
      rwa [hhosts, hphase]
    | waiting hmade hcall hserves =>
      refine .waiting (hhosts.trans hmade) ?_ ?_
      · rw [← hcalls]
        exact getElem?_append_of_some hcall calls
      · rwa [hphase]
  · refine (h.settled t call (HostAndBoard.call_of_step hsmooth hfree hcall) hfree).imp_right ?_
    rintro ⟨outcome, hmem⟩
    exact ⟨outcome, hevents.subset hmem⟩

theorem Working.call {call : Call} {next : Outcome → Plan α}
    (h : Working good i P ⟨g, .call call next, none⟩) (hcompliant : Responder.Compliant good i) :
    Working good i P ⟨g.step (.move (.call call)), .call call next,
      some g.watch.session.nextTicket⟩ := by
  obtain ⟨hserves⟩ : Stands i P ⟨g, .call call next, none⟩ := h.stands
  have hfree : (Move.call call).isFree = true := bne_iff_ne.mpr hserves.1.1
  have hstep : g.step (.move (.call call)) = { g with watch := g.watch.step (.call call) } :=
    if_pos hfree
  have hcalls :
      (g.step (.move (.call call))).watch.usage.calls = g.watch.usage.calls ++ [call] := by
    rw [hstep]
    rfl
  have hlinked : g.watch.Linked := h.calm.linked
  have hphase := HostAndBoard.isSome_phase?_step hlinked (.move (.call call))
  have hevents := (g.prefixes_step (.move (.call call))).2
  have hticket := hlinked.nextTicket_eq
  have hhosts : Call.hosts (g.step (.move (.call call))).watch.usage.calls =
      Call.hosts g.watch.usage.calls ++ [call] := by
    rw [hcalls, Call.hosts_append]
    exact congrArg _ (List.filter_cons_of_pos hfree)
  refine ⟨h.calm.call hcompliant.faithful hserves.1.1 hserves.1.2, ?_, fun t made hmade hown ↦ ?_⟩
  · refine .waiting hhosts ?_ ?_
    · rw [hcalls, hticket]
      exact List.getElem?_concat_length
    · rwa [hphase]
  · rw [hcalls] at hmade
    rcases Nat.lt_or_ge t g.watch.usage.calls.length with hlt | hge
    · rw [List.getElem?_append_left hlt] at hmade
      refine .inr ?_
      obtain hnone | ⟨outcome, hmem⟩ := h.settled t made hmade hown
      · cases hnone
      · exact ⟨outcome, hevents.subset hmem⟩
    · have hlt := (List.getElem?_eq_some_iff.mp hmade).1
      rw [List.length_append, List.length_singleton] at hlt
      exact .inl (congrArg some (hticket.trans (Nat.le_antisymm hge (Nat.le_of_lt_succ hlt))))

end Working

/-! ## Nothing more to say -/

/-- The program has made these calls, which have ended well. -/
structure Spoken (own : List Call) (g : HostAndBoard β) : Prop where
  linked : g.watch.Linked
  sent : g.watch.usage.EndedWell
  own_eq : Call.sendable (Call.hosts g.watch.usage.calls) = Call.sendable own

section Spoken

variable {own : List Call} {g g' : HostAndBoard β}

private theorem Spoken.of_calls_eq (h : Spoken own g) (hlinked : g'.watch.Linked)
    (hcalls : g'.watch.usage.calls = g.watch.usage.calls)
    (hevents : g.watch.usage.events <+: g'.watch.usage.events) : Spoken own g' := by
  refine ⟨hlinked, fun t call command hcall hcommand hpoll ↦ ?_, by rw [hcalls, h.own_eq]⟩
  rw [hcalls] at hcall
  obtain ⟨outcome, hmem, hwell⟩ := h.sent t call command hcall hcommand hpoll
  exact ⟨outcome, hevents.subset hmem, hwell⟩

/-- While the program waits for nothing, all its calls have ended. -/
private theorem Working.spoken {plan : Plan α} (h : Working good i P ⟨g, plan, none⟩) :
    Spoken (Call.hosts g.watch.usage.calls) g := by
  refine ⟨h.calm.linked, fun t call command hcall hcommand hpoll ↦ ?_, rfl⟩
  have hfree : call.IsFree := fun hcase ↦ hpoll (Option.some.inj (hcommand.symm.trans hcase))
  obtain hnone | ⟨outcome, hmem⟩ := h.settled t call hcall hfree
  · cases hnone
  · exact ⟨outcome, hmem, h.calm.smooth.ended t call outcome hcall hmem⟩

/-- The world gets on, and nobody makes a call. -/
private theorem Spoken.world [Responder β] {step : HostAndBoard.Step β} (h : Spoken own g)
    (hphase : g.watch.session.phase? ≠ some .ready) (hsmooth : step.isSmooth) :
    Spoken own (g.step step) ∧ (g.step step).watch.usage.calls = g.watch.usage.calls := by
  have hcalls : (g.step step).watch.usage.calls = g.watch.usage.calls := by
    obtain hsame | ⟨hready, -⟩ | ⟨a, -, hact⟩ := g.usage_step_of_isSmooth hsmooth
    · rw [hsame]
    · exact absurd hready hphase
    · rw [hact]
      rfl
  obtain ⟨moves, hmoves⟩ := g.watch_run [step]
  change (g.step step).watch = _ at hmoves
  have hlinked : (g.step step).watch.Linked := hmoves ▸ h.linked.run moves
  exact ⟨h.of_calls_eq hlinked hcalls (g.prefixes_step step).2, hcalls⟩

end Spoken

/-- The program has crashed after some calls, and there is no poll loop. -/
structure Halted (own : List Call) (m : CommandRun β α) : Prop extends Spoken own m.system where
  unpolled : m.system.watch.session.phase? = none
  plan_eq : m.plan = .ended .crashed

/-! ## Shutting down -/

/-- How far the program has got with the end of the stream. -/
inductive Leaving (result : α) : CommandRun β α → Prop where
  /-- The program is about to end the stream. -/
  | begins {g : HostAndBoard β} (hline : g.watch.usage.connection.line = [])
      (hcloser : g.watch.usage.connection.closer = none) :
      Leaving result ⟨g, .closing result, none⟩
  /-- The program waits for the end of the stream. -/
  | parts {g : HostAndBoard β} {t : Ticket} (hparting : g.watch.usage.Parting t) :
      Leaving result ⟨g, .closing result, some t⟩
  /-- The program has come to its end. -/
  | finished {g : HostAndBoard β} (hline : g.watch.usage.connection.line = [])
      (hlink : g.watch.usage.connection.link = none)
      (hcloser : g.watch.usage.connection.closer = none) :
      Leaving result ⟨g, .ended (.finished result), none⟩

/-- The program shuts down with a result, after some calls. -/
structure Closing (own : List Call) (result : α) (m : CommandRun β α) : Prop
    extends Spoken own m.system where
  /-- There is no poll loop any more. -/
  ended : ∃ failure, m.system.watch.session.phase? = some (.ended failure)
  leaving : m.Leaving result

/-- A program that shuts down is somewhere at the end of its plan. -/
def ClosesAt (own : List Call) (result : α) (waits : Option Ticket) (m : CommandRun β α) : Prop :=
  m.Closing own result ∧ m.plan = .closing result ∧ m.waits = waits

/-- Where a program can be that shuts down. -/
theorem Closing.finished_or_closesAt {m : CommandRun β α} {own : List Call} {result : α}
    (h : m.Closing own result) :
    m.plan = .ended (.finished result) ∨ ∃ waits, m.ClosesAt own result waits := by
  have hleaving := h.leaving
  cases hleaving with
  | begins | parts => exact .inr ⟨_, h, rfl, rfl⟩
  | finished => exact .inl rfl

/-- The program has been told that the stream has ended. -/
theorem Closing.told {own : List Call} {result : α} {g : HostAndBoard β} {t : Ticket}
    {outcome : Outcome}
    (h : Closing own result ⟨g, .closing result, some t⟩)
    (hsettled : Event.settled t outcome ∈ g.watch.usage.events) :
    Closing own result ⟨g, .ended (.finished result), none⟩ := by
  refine ⟨h.toSpoken, h.ended, ?_⟩
  cases h.leaving with
  | parts hparting =>
    obtain ⟨hline, hlink, hcloser⟩ := hparting.of_settled h.linked.sound hsettled
    exact .finished hline hlink hcloser

section Closing

variable [Responder β] {options : PlatformOptions} {m : CommandRun β α} {g : HostAndBoard β}
  {own : List Call} {result : α}

/-- Nobody uses the connection of a program that has stopped polling. -/
private theorem Working.unused (h : Working good i P ⟨g, .cancelPolling (.closing result), none⟩)
    (hcompliant : Responder.Compliant good i)
    (hcalls : (g.step (.move .cancelPolling)).watch.usage.calls = g.watch.usage.calls)
    (hticket : (g.step (.move .cancelPolling)).watch.session.pollTicket? = none) :
    (g.step (.move .cancelPolling)).watch.usage.connection.line = [] ∧
      (g.step (.move .cancelPolling)).watch.usage.connection.closer = none := by
  have hcalm : g.Calm good i := h.calm
  have hinStep := hcalm.toInStep.step hcompliant.faithful (.move .cancelPolling)
  have hsound := hinStep.linked.sound
  have hevents := (g.prefixes_step (.move .cancelPolling)).2
  constructor
  · refine List.eq_nil_iff_forall_not_mem.mpr fun k hk ↦ ?_
    have hmade := hsound.orderly.call_of k hk
    have hgone : (g.step (.move .cancelPolling)).watch.usage.Gone k.ticket := by
      by_cases hfree : k.call.IsFree
      · rw [hcalls] at hmade
        obtain hnone | ⟨outcome, hmem⟩ := h.settled k.ticket k.call hmade hfree
        · cases hnone
        · exact hsound.settled_gone k.ticket outcome (hevents.subset hmem)
      · have hpoll : k.call.command? = some .pollChanges := not_not.mp hfree
        have hmem := hinStep.polls_of k.ticket (by rw [hmade]; exact hpoll)
        exact (hinStep.linked.gone k.ticket hmem).resolve_left (by simp [hticket])
    exact hgone.2 k hk rfl
  · refine Option.eq_none_iff_forall_ne_some.mpr fun k hk ↦ ?_
    have hclose := (hsound.closer_gone k hk).2
    rw [hcalls] at hclose
    exact (hcalm.smooth.order .close (List.mem_of_getElem? hclose)).1 rfl

theorem Working.cancelPolling {next : Plan α}
    (h : Working good i P ⟨g, .cancelPolling next, none⟩)
    (hcompliant : Responder.Compliant good i) :
    ∃ result, P (Call.hosts g.watch.usage.calls) (.finished result) ∧
      Closing (Call.hosts g.watch.usage.calls) result
        ⟨g.step (.move .cancelPolling), next, none⟩ := by
  obtain ⟨hpolls, result, rfl, hP⟩ : (Plan.cancelPolling next).Serves i
      g.watch.session.phase?.isSome fun more ↦ P (Call.hosts g.watch.usage.calls ++ more) := by
    cases h.stands with
    | free hserves => exact hserves
  have hcalm : g.Calm good i := h.calm
  have hlinked := (hcalm.toInStep.step hcompliant.faithful (.move .cancelPolling)).linked
  have hcalls : (g.step (.move .cancelPolling)).watch.usage.calls = g.watch.usage.calls := by
    change (((g.watch.session.turn? .cancelPolling).map g.watch.usage.step).getD
      g.watch.usage).calls = _
    rw [Session.turn?]
    cases g.watch.session.pollTicket? <;> rfl
  obtain ⟨failure, hended⟩ := Session.phase?_cancelPolling
    (s := g.watch.session) (Option.isSome_iff_ne_none.mp hpolls)
  change (g.step (.move .cancelPolling)).watch.session.phase? = _ at hended
  have hticket := Watch.pollTicket?_of_phase hended (by simp)
  obtain ⟨hline, hcloser⟩ := h.unused hcompliant hcalls hticket
  have hspoken : Spoken (Call.hosts g.watch.usage.calls) (g.step (.move .cancelPolling)) :=
    h.spoken.of_calls_eq hlinked hcalls (g.prefixes_step (.move .cancelPolling)).2
  exact ⟨result, by simpa using hP, hspoken, ⟨failure, hended⟩, .begins hline hcloser⟩

theorem Closing.world (h : m.Closing own result) {step : HostAndBoard.Step β}
    (hsmooth : step.isSmooth) : Closing own result { m with system := m.system.step step } := by
  obtain ⟨failure, hended⟩ := h.ended
  have hphase : m.system.watch.session.phase? ≠ some .ready := by simp [hended]
  have husage : (m.system.step step).watch.usage = m.system.watch.usage ∨
      ∃ a, a.isSmooth ∧ (m.system.step step).watch.usage = m.system.watch.usage.act a :=
    (m.system.usage_step_of_isSmooth hsmooth).imp_right
      fun hcases ↦ hcases.resolve_left fun hready ↦ hphase hready.1
  have hunused : m.system.watch.usage.connection.line = [] →
      m.system.watch.usage.connection.closer = none →
        (m.system.step step).watch.usage.connection = m.system.watch.usage.connection := by
    intro hline hcloser
    rcases husage with hsame | ⟨a, ha, hact⟩
    · rw [hsame]
    · rw [hact]
      exact Usage.connection_act_of_unused hline hcloser ha
  obtain ⟨moves, hmoves⟩ := m.system.watch_run [step]
  change (m.system.step step).watch = _ at hmoves
  refine ⟨(h.toSpoken.world hphase hsmooth).1, ⟨failure, ?_⟩, ?_⟩
  · change (m.system.step step).watch.session.phase? = _
    rw [hmoves]
    exact (Watch.ended_run h.linked hended moves).1
  · cases h.leaving with
    | begins hline hcloser =>
      have hsame := hunused hline hcloser
      exact .begins (by rw [hsame, hline]) (by rw [hsame, hcloser])
    | parts hparting =>
      refine .parts ?_
      rcases husage with hsame | ⟨a, ha, hact⟩
      · rwa [hsame]
      · rw [hact]
        exact hparting.act h.linked.sound ha
    | finished hline hlink hcloser =>
      have hsame := hunused hline hcloser
      exact .finished (by rw [hsame, hline]) (by rw [hsame, hlink]) (by rw [hsame, hcloser])

theorem Closing.call (h : Closing own result ⟨g, .closing result, none⟩) :
    Closing own result ⟨g.step (.move (.call .close)), .closing result,
      some g.watch.session.nextTicket⟩ := by
  have hlinked : g.watch.Linked := h.linked
  obtain ⟨failure, hended⟩ := h.ended
  have hstep :
      g.step (.move (.call .close)) = { g with watch := g.watch.step (.call .close) } := rfl
  have husage : (g.watch.step (.call .close)).usage = g.watch.usage.step (.call .close) := rfl
  have hcalls : (g.watch.step (.call .close)).usage.calls = g.watch.usage.calls ++ [.close] := rfl
  have hevents := (g.prefixes_step (.move (.call .close))).2
  refine ⟨⟨hlinked.run [.call .close], fun t call command hcall hcommand hpoll ↦ ?_, ?_⟩,
    ⟨failure, (Watch.ended_run hlinked hended [.call .close]).1⟩, ?_⟩
  · change (g.watch.step (.call .close)).usage.calls[t]? = _ at hcall
    rw [hcalls] at hcall
    rcases Nat.lt_or_ge t g.watch.usage.calls.length with hlt | hge
    · rw [List.getElem?_append_left hlt] at hcall
      obtain ⟨outcome, hmem, hwell⟩ := h.sent t call command hcall hcommand hpoll
      exact ⟨outcome, hevents.subset hmem, hwell⟩
    · rw [List.getElem?_append_right hge, List.getElem?_singleton] at hcall
      obtain ⟨-, hcall⟩ := Option.ite_none_right_eq_some.mp hcall
      cases hcall
      cases hcommand
  · change Call.sendable (Call.hosts (g.watch.step (.call .close)).usage.calls) = _
    rw [hcalls, Call.hosts_append, Call.sendable_append, ← h.own_eq]
    exact List.append_nil _
  · refine .parts ?_
    obtain ⟨hline, hcloser⟩ : g.watch.usage.connection.line = [] ∧
        g.watch.usage.connection.closer = none := by
      cases h.leaving with
      | begins hline hcloser => exact ⟨hline, hcloser⟩
    rw [hlinked.nextTicket_eq, hstep]
    exact Usage.parting_call hline hcloser

end Closing

/-! ## Step by step -/

/-- Nothing has gone wrong, unless the program has crashed. -/
structure GoesWell (options : PlatformOptions) (good : β → Prop) (i : Identity)
    (P : List Call → ProgramEnd α → Prop) (m : CommandRun β α) : Prop where
  inStep : m.system.InStep good
  /-- There is a poll loop only where there can be a channel. -/
  hasChannel : m.system.watch.session.phase?.isSome → options.HasChannel
  /-- The program works, or shuts down with a result that is true of its calls, or has crashed. -/
  course : m.Working good i P ∨ (∃ own result, P own (.finished result) ∧ m.Closing own result) ∨
    ∃ own, P own .crashed ∧ ¬options.HasChannel ∧ m.Halted own

variable {options : PlatformOptions}

theorem goesWell_fresh (peer : String) {board : β} {plan : Plan α} (hgood : good board)
    (hplan : plan.Serves i false P) : (fresh peer board plan).GoesWell options good i P :=
  ⟨HostAndBoard.inStep_fresh peer hgood, nofun, .inl (working_fresh peer hgood hplan)⟩

theorem GoesWell.isFree_of_call {g : HostAndBoard β} {call : Call} {next : Outcome → Plan α}
    (h : GoesWell options good i P ⟨g, .call call next, none⟩) : call.IsFree := by
  obtain hworking | ⟨own, result, -, hclosing⟩ | ⟨own, -, -, hhalted⟩ := h.course
  · cases hworking.stands with
    | free hserves => exact hserves.1.1
  · cases hclosing.leaving
    exact nofun
  · cases hhalted.plan_eq

theorem GoesWell.working_of_beginPolling {g : HostAndBoard β} {discovery : Discovery}
    {next : Plan α} {waits : Option Ticket}
    (h : GoesWell options good i P ⟨g, .beginPolling discovery next, waits⟩) :
    Working good i P ⟨g, .beginPolling discovery next, none⟩ := by
  obtain hworking | ⟨own, result, -, hclosing⟩ | ⟨own, -, -, hhalted⟩ := h.course
  · obtain rfl : waits = none := hworking.waits_eq_none nofun
    exact hworking
  · cases hclosing.leaving
  · cases hhalted.plan_eq

/-- A program that has come to a result has shut down. -/
theorem GoesWell.of_finished {m : CommandRun β α} {result : α} (h : m.GoesWell options good i P)
    (hfinished : m.plan = .ended (.finished result)) :
    options.HasChannel ∧ ∃ own, P own (.finished result) ∧ m.Closing own result ∧
      m.system.watch.usage.connection.link = none ∧
        m.system.watch.usage.connection.closer = none := by
  obtain ⟨g, plan, waits⟩ := m
  obtain rfl : plan = .ended (.finished result) := hfinished
  obtain hworking | ⟨own, result', hP, hclosing⟩ | ⟨own, hP, -, hhalted⟩ := h.course
  · cases hworking.stands with
    | free hserves => cases hserves
  · obtain ⟨failure, hended⟩ := hclosing.ended
    have hchannel := h.hasChannel (Option.isSome_of_mem hended)
    cases hclosing.leaving with
    | finished hline hlink hcloser => exact ⟨hchannel, own, hP, hclosing, hlink, hcloser⟩
  · cases hhalted.plan_eq

/-- A program that has crashed has asked for a channel that there cannot be. -/
theorem GoesWell.of_crashed {m : CommandRun β α} (h : m.GoesWell options good i P)
    (hcrashed : m.plan = .ended .crashed) :
    ∃ own, P own .crashed ∧ ¬options.HasChannel ∧ m.Halted own := by
  obtain ⟨g, plan, waits⟩ := m
  obtain rfl : plan = .ended .crashed := hcrashed
  obtain hworking | ⟨own, result', hP, hclosing⟩ | hhalted := h.course
  · cases hworking.stands with
    | free hserves => cases hserves
  · cases hclosing.leaving
  · exact hhalted

section Steps

variable [Responder β] {m : CommandRun β α} {own : List Call} {result : α}

/-- Only the start of the poll loop makes one, and it asks for a channel. -/
private theorem hasChannel_step (hlinked : m.system.watch.Linked)
    (hchannel : m.system.watch.session.phase?.isSome → options.HasChannel) (step : Step β)
    (hpolls : (m.step options step).system.watch.session.phase?.isSome) : options.HasChannel := by
  have hstep : ∀ step : HostAndBoard.Step β,
      (m.system.step step).watch.session.phase?.isSome → options.HasChannel := by
    intro step hsome
    rw [HostAndBoard.isSome_phase?_step hlinked] at hsome
    exact hchannel hsome
  cases step with
  | world step hsmooth => exact hstep step hpolls
  | go =>
    rw [CommandRun.step, CommandRun.go] at hpolls
    split at hpolls
    · exact hchannel hpolls
    · exact hstep _ hpolls
    · split at hpolls <;> exact hchannel hpolls
    · rw [HostAndBoard.beginPolling?_eq] at hpolls
      by_contra hnone
      rw [if_neg hnone] at hpolls
      exact hnone (hchannel hpolls)
    · exact hstep _ hpolls

private theorem Working.go (h : m.Working good i P) (hcompliant : Responder.Compliant good i) :
    (m.go options).Working good i P ∨
      (∃ own result, P own (.finished result) ∧ (m.go options).Closing own result) ∨
        ∃ own, P own .crashed ∧ ¬options.HasChannel ∧ (m.go options).Halted own := by
  obtain ⟨g, plan, waits⟩ := m
  cases h.stands with
  | free hserves =>
    cases plan with
    | ended => cases hserves
    | call call next => exact .inl (h.call hcompliant)
    | beginPolling discovery next =>
      rw [go_of_beginPolling rfl, HostAndBoard.beginPolling?_eq]
      by_cases hchannel : options.HasChannel
      · rw [if_pos hchannel]
        exact .inl (h.beginPolling _ _)
      · rw [if_neg hchannel]
        obtain ⟨-, hP, -⟩ := hserves
        exact .inr (.inr ⟨_, by simpa using hP, hchannel, h.spoken, h.phase?_eq_none, rfl⟩)
    | cancelPolling next =>
      obtain ⟨result, hP, hclosing⟩ := h.cancelPolling hcompliant
      exact .inr (.inl ⟨_, result, hP, hclosing⟩)
  | @waiting _ call next _ t =>
    refine .inl ?_
    rw [CommandRun.go]
    dsimp only
    split
    · exact h.told (Trace.mem_of_lookup ‹_›)
    · exact h

private theorem Closing.go (h : m.Closing own result) : (m.go options).Closing own result := by
  cases h.leaving with
  | begins => exact h.call
  | finished => exact h
  | @parts g t hparting =>
    rw [CommandRun.go, Plan.closing]
    dsimp only
    split
    · exact h.told (Trace.mem_of_lookup ‹_›)
    · exact h

private theorem Halted.world (h : m.Halted own) {step : HostAndBoard.Step β}
    (hsmooth : step.isSmooth) : Halted own { m with system := m.system.step step } := by
  have hphase : m.system.watch.session.phase? ≠ some .ready := by simp [h.unpolled]
  refine ⟨(h.toSpoken.world hphase hsmooth).1, ?_, h.plan_eq⟩
  have hsame := HostAndBoard.isSome_phase?_step h.linked step
  rw [h.unpolled] at hsame
  exact Option.isNone_iff_eq_none.mp (by simpa using hsame)

private theorem GoesWell.inStep_step (h : m.GoesWell options good i P)
    (hcompliant : Responder.Compliant good i) (step : Step β) :
    (m.step options step).system.InStep good := by
  cases step with
  | world step hsmooth => exact h.inStep.step hcompliant.faithful step
  | go =>
    obtain ⟨g, plan, waits⟩ := m
    have hstep : ∀ step, (g.step step).InStep good :=
      fun step ↦ h.inStep.step hcompliant.faithful step
    cases plan with
    | ended => exact h.inStep
    | call call next =>
      cases waits with
      | none => exact hstep (.move (.call call))
      | some t =>
        rw [CommandRun.step, CommandRun.go]
        dsimp only
        split <;> exact h.inStep
    | beginPolling discovery next =>
      rw [CommandRun.step, CommandRun.go]
      dsimp only
      rw [HostAndBoard.beginPolling?_eq]
      by_cases hchannel : options.HasChannel
      · rw [if_pos hchannel]
        exact h.inStep.beginPolling h.working_of_beginPolling.phase?_eq_none _ _ _
      · rw [if_neg hchannel]
        exact h.inStep
    | cancelPolling next => exact hstep (.move .cancelPolling)

theorem GoesWell.step (h : m.GoesWell options good i P) (hcompliant : Responder.Compliant good i)
    (step : Step β) : (m.step options step).GoesWell options good i P := by
  refine ⟨h.inStep_step hcompliant step, hasChannel_step h.inStep.linked h.hasChannel step, ?_⟩
  cases step with
  | world step hsmooth =>
    refine h.course.imp (·.world hcompliant hsmooth) (Or.imp ?_ ?_)
    · rintro ⟨own, result, hP, hclosing⟩
      exact ⟨own, result, hP, hclosing.world hsmooth⟩
    · rintro ⟨own, hP, hchannel, hhalted⟩
      exact ⟨own, hP, hchannel, hhalted.world hsmooth⟩
  | go =>
    obtain hworking | ⟨own, result, hP, hclosing⟩ | ⟨own, hP, hchannel, hhalted⟩ := h.course
    · exact hworking.go hcompliant
    · exact .inr (.inl ⟨own, result, hP, hclosing.go⟩)
    · have hgo : m.step options .go = m := by rw [CommandRun.step, CommandRun.go, hhalted.plan_eq]
      rw [hgo]
      exact .inr (.inr ⟨own, hP, hchannel, hhalted⟩)

theorem GoesWell.after (h : m.GoesWell options good i P) (hcompliant : Responder.Compliant good i)
    (schedule : ℕ → Step β) (n : ℕ) : (m.after options schedule n).GoesWell options good i P := by
  induction n with
  | zero => exact h
  | succ n ih => exact ih.step hcompliant (schedule n)

end Steps

end CommandRun

end PinballBoard
