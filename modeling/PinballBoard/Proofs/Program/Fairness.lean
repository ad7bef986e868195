import PinballBoard.Proofs.Platform.Progress
import PinballBoard.Proofs.Program.CommandRun

/-!
# Fair schedules

A program with a compliant board comes to its end if everybody does his duty now and then: the
program and the tasks run, the stream takes, passes on and brings bytes, the board reads, and time
passes. Nobody has to be quick, and there is no order in which it has to be done. That is a fair
schedule (`CommandRun.Fair`).

The rule of all proofs is `Fair.leads`. A rank never rises and something is urgent. As long as the
rank stays where it is the same thing is urgent, and to do it brings the rank down. Since it cannot
go down for ever, what is to be reached is reached. For a call the rank is its remoteness, and for
the end of the stream the delay of it. A plan is then followed by recursion.

Fair schedules are nothing special: `exists_fair` makes one for any run, by turns.
-/

namespace PinballBoard

namespace CommandRun

variable {β α : Type} [Responder β] {options : PlatformOptions} {good : β → Prop} {i : Identity}
  {P : List Call → ProgramEnd α → Prop} {m : CommandRun β α} {schedule : ℕ → Step β}

/-- Whether a step does a duty. -/
def Does (m : CommandRun β α) (duty : Duty) : Step β → Prop
  | .world step _ => m.system.Does duty step
  | .go => duty = .go

/-- On a fair schedule everybody does his duty now and then. -/
def Fair (options : PlatformOptions) (m : CommandRun β α) (schedule : ℕ → Step β) : Prop :=
  ∀ duty n, ∃ k, n ≤ k ∧ (m.after options schedule k).Does duty (schedule k)

/-! ## From here to there -/

/-- What is urgent is done in the end, and so the rank goes down until there is nothing left. -/
theorem Fair.leads (hfair : m.Fair options schedule) (here there : CommandRun β α → Prop)
    {W : Type} [LT W] [WellFoundedLT W] (rank : CommandRun β α → W) (urgent : CommandRun β α → Duty)
    (hstep : ∀ m step, here m → there (m.step options step) ∨ here (m.step options step) ∧
      (rank (m.step options step) < rank m ∨ rank (m.step options step) = rank m ∧
        urgent (m.step options step) = urgent m ∧ ¬m.Does (urgent m) step))
    {n : ℕ} (h : here (m.after options schedule n)) : ∃ k, there (m.after options schedule k) := by
  induction hrank : rank (m.after options schedule n) using WellFoundedLT.induction
    generalizing n with
  | ind w ih =>
    obtain ⟨k, hk, hdoes⟩ := hfair (urgent (m.after options schedule n)) n
    by_contra hnever
    have hless : ∀ j, here (m.after options schedule j) →
        ¬rank (m.after options schedule j) < w :=
      fun j hj hlt ↦ hnever (ih _ hlt hj rfl)
    -- up to then nothing has changed that matters
    have hsame : ∀ j, n ≤ j → j ≤ k → here (m.after options schedule j) ∧
        rank (m.after options schedule j) = w ∧
          urgent (m.after options schedule j) = urgent (m.after options schedule n) := by
      intro j hj
      induction j, hj using Nat.le_induction with
      | base => exact fun _ ↦ ⟨h, hrank, rfl⟩
      | succ j hj ihj =>
        intro hle
        obtain ⟨hhere, hw, hurgent⟩ := ihj (Nat.le_of_succ_le hle)
        obtain hthere | ⟨hhere', hlt | ⟨heq, hurgent', -⟩⟩ := hstep _ (schedule j) hhere
        · exact absurd ⟨j + 1, hthere⟩ hnever
        · exact absurd (hw ▸ hlt) (hless (j + 1) hhere')
        · exact ⟨hhere', heq.trans hw, hurgent'.trans hurgent⟩
    obtain ⟨hhere, hw, hurgent⟩ := hsame k hk (Nat.le_refl k)
    obtain hthere | ⟨hhere', hlt | ⟨-, -, hidle⟩⟩ := hstep _ (schedule k) hhere
    · exact hnever ⟨k + 1, hthere⟩
    · exact hless (k + 1) hhere' (hw ▸ hlt)
    · rw [hurgent] at hidle
      exact hidle hdoes

theorem Fair.goes (hfair : m.Fair options schedule) (here there : CommandRun β α → Prop)
    (hworld : ∀ m step hsmooth, here m → here (m.step options (.world step hsmooth)))
    (hgo : ∀ m, here m → there (m.go options)) {n : ℕ} (h : here (m.after options schedule n)) :
    ∃ k, there (m.after options schedule k) := by
  refine hfair.leads here there (fun _ ↦ 0) (fun _ ↦ .go) (fun m step hm ↦ ?_) h
  cases step with
  | world step hsmooth => exact .inr ⟨hworld m step hsmooth hm, .inr ⟨rfl, rfl, id⟩⟩
  | go => exact .inl (hgo m hm)

section Calls

variable {g : HostAndBoard β} {call : Call} {next : Outcome → Plan α} {t : Ticket}

private theorem go_of_unsettled (options : PlatformOptions)
    (h : ¬∃ outcome, Event.settled t outcome ∈ g.watch.usage.events) :
    go options ⟨g, .call call next, some t⟩ = ⟨g, .call call next, some t⟩ := by
  rw [go]
  dsimp only
  split
  · exact absurd ⟨_, Trace.mem_of_lookup ‹_›⟩ h
  · rfl

private theorem go_of_settled (options : PlatformOptions) (call : Call) (next : Outcome → Plan α)
    (h : ∃ outcome, Event.settled t outcome ∈ g.watch.usage.events) :
    ∃ outcome, Event.settled t outcome ∈ g.watch.usage.events ∧
      go options ⟨g, .call call next, some t⟩ = ⟨g, next outcome, none⟩ := by
  obtain ⟨outcome, hmem⟩ := h
  have hsome : (g.watch.usage.events.settled.lookup t).isSome :=
    List.lookup_isSome_iff.mpr ⟨_, Trace.mem_settled.mpr hmem, beq_self_eq_true t⟩
  obtain ⟨outcome', hlookup⟩ := Option.isSome_iff_exists.mp hsome
  exact ⟨outcome', Trace.mem_of_lookup hlookup, go_of_lookup rfl rfl hlookup⟩

end Calls

/-! ## A program that works -/

section Working

variable {call : Call} {next : Outcome → Plan α} {t : Ticket} {n : ℕ}

/-- The call for which the program waits comes to its end. -/
private theorem Fair.call_settles (hfair : m.Fair options schedule)
    (hcompliant : Responder.Compliant good i)
    (h : (m.after options schedule n).WorksAt good i P (.call call next) (some t)) :
    ∃ k, (m.after options schedule k).WorksAt good i P (.call call next) (some t) ∧
      ∃ outcome, Event.settled t outcome ∈
        (m.after options schedule k).system.watch.usage.events := by
  by_cases hsettled : ∃ outcome, Event.settled t outcome ∈
      (m.after options schedule n).system.watch.usage.events
  · exact ⟨n, h, hsettled⟩
  refine hfair.leads
    (fun m ↦ m.WorksAt good i P (.call call next) (some t) ∧
      ¬∃ outcome, Event.settled t outcome ∈ m.system.watch.usage.events)
    (fun m ↦ m.WorksAt good i P (.call call next) (some t) ∧
      ∃ outcome, Event.settled t outcome ∈ m.system.watch.usage.events)
    (fun m ↦ m.system.remoteness t) (fun m ↦ m.system.urgent) ?_ ⟨h, hsettled⟩
  rintro ⟨g, _, _⟩ step ⟨⟨hworking, rfl, rfl⟩, hunsettled⟩
  have hcalm : g.Calm good i := hworking.calm
  cases step with
  | world step hsmooth =>
    have hlater := hworking.world hcompliant hsmooth
    by_cases hsettles : ∃ outcome, Event.settled t outcome ∈ (g.step step).watch.usage.events
    · exact .inl ⟨⟨hlater, rfl, rfl⟩, hsettles⟩
    · have hlt : t < g.watch.usage.calls.length := by
        cases hworking.stands with
        | waiting _ hcall => exact (List.getElem?_eq_some_iff.mp hcall).1
      have hwaits := (hcalm.smooth.present t hlt).resolve_right hunsettled
      exact .inr ⟨⟨⟨hlater, rfl, rfl⟩, hsettles⟩, hcalm.nears hwaits hsmooth⟩
  | go =>
    have hgo : step options ⟨g, .call call next, some t⟩ .go = ⟨g, .call call next, some t⟩ :=
      go_of_unsettled options hunsettled
    rw [hgo]
    exact .inr ⟨⟨⟨hworking, rfl, rfl⟩, hunsettled⟩, .inr ⟨rfl, rfl, g.urgent_ne_go⟩⟩

/-- The program makes a call, waits, and goes on. -/
private theorem Fair.call_ends (hfair : m.Fair options schedule)
    (hcompliant : Responder.Compliant good i)
    (h : (m.after options schedule n).Working good i P)
    (hplan : (m.after options schedule n).plan = .call call next) :
    ∃ k outcome, (m.after options schedule k).Working good i P ∧
      (m.after options schedule k).plan = next outcome := by
  have hwaits : ∃ k t,
      (m.after options schedule k).WorksAt good i P (.call call next) (some t) := by
    cases hcase : (m.after options schedule n).waits with
    | some t => exact ⟨n, t, h, hplan, hcase⟩
    | none =>
      refine hfair.goes (fun m ↦ m.WorksAt good i P (.call call next) none)
        (fun m ↦ ∃ t, m.WorksAt good i P (.call call next) (some t)) ?_ ?_ ⟨h, hplan, hcase⟩
      · rintro m step hsmooth ⟨hworking, hplan, hnone⟩
        exact ⟨hworking.world hcompliant hsmooth, hplan, hnone⟩
      · rintro ⟨g, _, _⟩ ⟨hworking, rfl, rfl⟩
        exact ⟨_, hworking.call hcompliant, rfl, rfl⟩
  obtain ⟨k, t, hwaiting⟩ := hwaits
  obtain ⟨k, hsettled⟩ := hfair.call_settles hcompliant hwaiting
  refine hfair.goes
    (fun m ↦ m.WorksAt good i P (.call call next) (some t) ∧
      ∃ outcome, Event.settled t outcome ∈ m.system.watch.usage.events)
    (fun m ↦ ∃ outcome, m.Working good i P ∧ m.plan = next outcome) ?_ ?_ hsettled
  · rintro m step hsmooth ⟨⟨hworking, hplan, hsome⟩, outcome, hmem⟩
    refine ⟨⟨hworking.world hcompliant hsmooth, hplan, hsome⟩, outcome, ?_⟩
    exact (m.system.prefixes_step step).2.subset hmem
  · rintro ⟨g, _, _⟩ ⟨⟨hworking, rfl, rfl⟩, htold⟩
    obtain ⟨outcome, hmem, hgo⟩ := go_of_settled options call next htold
    rw [hgo]
    exact ⟨outcome, hworking.told hmem, rfl⟩

end Working

/-! ## A program that shuts down -/

section Closing

variable {own : List Call} {result : α} {t : Ticket} {n : ℕ}

/-- A step brings the end of the stream nearer, or somebody has still the same to do. -/
private theorem nears_end {g : HostAndBoard β} {failure : Option DeviceError}
    (hended : g.watch.session.phase? = some (.ended failure)) (hparting : g.watch.usage.Parting t)
    {step : HostAndBoard.Step β} (hsmooth : step.isSmooth)
    (hunsettled : ¬∃ outcome, Event.settled t outcome ∈ (g.step step).watch.usage.events) :
    (g.step step).watch.usage.connection.delay < g.watch.usage.connection.delay ∨
      (g.step step).watch.usage.connection.delay = g.watch.usage.connection.delay ∧
        (g.step step).urgent = g.urgent ∧ ¬g.Does g.urgent step := by
  have hurgent : ∀ g' : HostAndBoard β,
      g'.watch.usage.connection.line = g.watch.usage.connection.line → g'.urgent = g.urgent := by
    intro g' hsame
    rw [HostAndBoard.urgent, HostAndBoard.urgent, hsame]
    cases hparting with
    | queued hline | under_way hline | parted hline => rw [hline]
  by_cases hdoes : g.Does g.urgent step
  · obtain ⟨a, ha, hact, hhastens⟩ : ∃ a, a.isSmooth ∧
        (g.step step).watch.usage = g.watch.usage.act a ∧ g.watch.usage.connection.Hastens a := by
      cases hparting with
      | queued hline =>
        have hproceed : g.urgent = .proceed := by rw [HostAndBoard.urgent, hline]
        rw [hproceed] at hdoes
        obtain rfl : step = .move (.link .proceed) := hdoes
        exact ⟨.proceed, rfl, rfl, by rw [Connection.Hastens, hline]⟩
      | under_way hline | parted hline =>
        have helapse : g.urgent = .elapse := by rw [HostAndBoard.urgent, hline]
        rw [helapse] at hdoes
        obtain ⟨ms, hms, rfl⟩ := hdoes
        exact ⟨.elapse ms, rfl, rfl, by rw [Connection.Hastens, hline]; exact ⟨ms, hms, rfl⟩⟩
    rw [hact] at hunsettled ⊢
    obtain hsettles | hless | ⟨-, -, hidle⟩ := hparting.nearsEnd ha
    · exact absurd hsettles hunsettled
    · exact .inl hless
    · exact absurd hhastens hidle
  · obtain hsame | ⟨hready, -⟩ | ⟨a, ha, hact⟩ := g.usage_step_of_isSmooth hsmooth
    · exact .inr ⟨by rw [hsame], hurgent _ (by rw [hsame]), hdoes⟩
    · rw [hended] at hready
      cases hready
    · have hline := hurgent (g.step step)
      rw [hact] at hunsettled hline ⊢
      obtain hsettles | hless | ⟨hdelay, hsame, -⟩ := hparting.nearsEnd ha
      · exact absurd hsettles hunsettled
      · exact .inl hless
      · exact .inr ⟨hdelay, hline hsame, hdoes⟩

private theorem Fair.stream_ends (hfair : m.Fair options schedule)
    (h : (m.after options schedule n).ClosesAt own result (some t)) :
    ∃ k, (m.after options schedule k).ClosesAt own result (some t) ∧
      ∃ outcome, Event.settled t outcome ∈
        (m.after options schedule k).system.watch.usage.events := by
  by_cases hsettled : ∃ outcome, Event.settled t outcome ∈
      (m.after options schedule n).system.watch.usage.events
  · exact ⟨n, h, hsettled⟩
  refine hfair.leads
    (fun m ↦ m.ClosesAt own result (some t) ∧
      ¬∃ outcome, Event.settled t outcome ∈ m.system.watch.usage.events)
    (fun m ↦ m.ClosesAt own result (some t) ∧
      ∃ outcome, Event.settled t outcome ∈ m.system.watch.usage.events)
    (fun m ↦ m.system.watch.usage.connection.delay) (fun m ↦ m.system.urgent) ?_ ⟨h, hsettled⟩
  rintro ⟨g, _, _⟩ step ⟨⟨hclosing, rfl, rfl⟩, hunsettled⟩
  cases step with
  | world step hsmooth =>
    have hlater := hclosing.world hsmooth
    by_cases hsettles : ∃ outcome, Event.settled t outcome ∈ (g.step step).watch.usage.events
    · exact .inl ⟨⟨hlater, rfl, rfl⟩, hsettles⟩
    · obtain ⟨failure, hended⟩ := hclosing.ended
      have hparting : g.watch.usage.Parting t := by
        cases hclosing.leaving with
        | parts hparting => exact hparting
      exact .inr ⟨⟨⟨hlater, rfl, rfl⟩, hsettles⟩, nears_end hended hparting hsmooth hsettles⟩
  | go =>
    have hgo : step options ⟨g, .closing result, some t⟩ .go = ⟨g, .closing result, some t⟩ :=
      go_of_unsettled options hunsettled
    rw [hgo]
    exact .inr ⟨⟨⟨hclosing, rfl, rfl⟩, hunsettled⟩, .inr ⟨rfl, rfl, g.urgent_ne_go⟩⟩

private theorem Fair.closing_ends (hfair : m.Fair options schedule)
    (h : (m.after options schedule n).Closing own result) :
    ∃ k, (m.after options schedule k).plan = .ended (.finished result) := by
  have hparts : ∀ {n t}, (m.after options schedule n).ClosesAt own result (some t) →
      ∃ k, (m.after options schedule k).plan = .ended (.finished result) := by
    intro n t h
    obtain ⟨k, hsettled⟩ := hfair.stream_ends h
    refine hfair.goes
      (fun m ↦ m.ClosesAt own result (some t) ∧
        ∃ outcome, Event.settled t outcome ∈ m.system.watch.usage.events)
      (fun m ↦ m.plan = .ended (.finished result)) ?_ ?_ hsettled
    · rintro m step hsmooth ⟨⟨hclosing, hplan, hsome⟩, outcome, hmem⟩
      refine ⟨⟨hclosing.world hsmooth, hplan, hsome⟩, outcome, ?_⟩
      exact (m.system.prefixes_step step).2.subset hmem
    · rintro ⟨g, _, _⟩ ⟨⟨hclosing, rfl, rfl⟩, htold⟩
      obtain ⟨outcome, -, hgo⟩ :=
        go_of_settled options .close (fun _ ↦ .ended (.finished result)) htold
      exact congrArg CommandRun.plan hgo
  obtain hfinished | ⟨_ | t, hcloses⟩ := h.finished_or_closesAt
  · exact ⟨n, hfinished⟩
  · obtain ⟨k, t, hwaiting⟩ := hfair.goes (fun m ↦ m.ClosesAt own result none)
      (fun m ↦ ∃ t, m.ClosesAt own result (some t))
      (fun m step hsmooth h ↦ ⟨h.1.world hsmooth, h.2.1, h.2.2⟩) (by
        rintro ⟨g, _, _⟩ ⟨hclosing, rfl, rfl⟩
        exact ⟨_, hclosing.call, rfl, rfl⟩) hcloses
    exact hparts hwaiting
  · exact hparts hcloses

end Closing

/-! ## The end of a program -/

/-- Who works shuts down in the end, or crashes. -/
private theorem Fair.working_ends (hfair : m.Fair options schedule)
    (hcompliant : Responder.Compliant good i) {n : ℕ} {plan : Plan α}
    (h : (m.after options schedule n).Working good i P)
    (hplan : (m.after options schedule n).plan = plan) :
    ∃ k ending, (m.after options schedule k).plan = .ended ending := by
  have hworld : ∀ {plan} (m : CommandRun β α) step hsmooth, m.WorksAt good i P plan none →
      (m.step options (.world step hsmooth)).WorksAt good i P plan none :=
    fun m step hsmooth h ↦ ⟨h.1.world hcompliant hsmooth, h.2.1, h.2.2⟩
  induction plan generalizing n with
  | ended ending => exact ⟨n, ending, hplan⟩
  | call call next ih =>
    obtain ⟨k, outcome, hworking, hnext⟩ := hfair.call_ends hcompliant h hplan
    exact ih outcome hworking hnext
  | beginPolling discovery next ih =>
    have hwaits := h.waits_eq_none (by simp [hplan])
    by_cases hchannel : options.HasChannel
    · obtain ⟨k, hworking, hnext⟩ := hfair.goes
        (fun m ↦ m.WorksAt good i P (.beginPolling discovery next) none)
        (fun m ↦ m.Working good i P ∧ m.plan = next) hworld (by
          rintro ⟨g, _, _⟩ ⟨hworking, rfl, rfl⟩
          rw [go]
          dsimp only
          rw [HostAndBoard.beginPolling?_eq, if_pos hchannel]
          exact ⟨hworking.beginPolling _ _, rfl⟩) ⟨h, hplan, hwaits⟩
      exact ih hworking hnext
    · obtain ⟨k, hcrashed⟩ := hfair.goes
        (fun m ↦ m.WorksAt good i P (.beginPolling discovery next) none)
        (fun m ↦ m.plan = .ended .crashed) hworld (by
          rintro ⟨g, _, _⟩ ⟨-, rfl, rfl⟩
          rw [go]
          dsimp only
          rw [HostAndBoard.beginPolling?_eq, if_neg hchannel]) ⟨h, hplan, hwaits⟩
      exact ⟨k, .crashed, hcrashed⟩
  | cancelPolling next =>
    have hwaits := h.waits_eq_none (by simp [hplan])
    obtain ⟨k, own, result, hclosing⟩ := hfair.goes
      (fun m ↦ m.WorksAt good i P (.cancelPolling next) none)
      (fun m ↦ ∃ own result, m.Closing own result) hworld (by
        rintro ⟨g, _, _⟩ ⟨hworking, rfl, rfl⟩
        obtain ⟨result, -, hclosing⟩ := hworking.cancelPolling hcompliant
        exact ⟨_, result, hclosing⟩) ⟨h, hplan, hwaits⟩
    obtain ⟨k, hk⟩ := hfair.closing_ends hclosing
    exact ⟨k, .finished result, hk⟩

/-- **On a fair schedule a program comes to its end.** -/
theorem GoesWell.ends (h : m.GoesWell options good i P) (hcompliant : Responder.Compliant good i)
    (hfair : m.Fair options schedule) :
    ∃ n ending, (m.after options schedule n).plan = .ended ending := by
  obtain hworking | ⟨own, result, -, hclosing⟩ | ⟨own, -, -, hhalted⟩ :=
    (h.after hcompliant schedule 0).course
  · exact hfair.working_ends hcompliant hworking rfl
  · obtain ⟨k, hk⟩ := hfair.closing_ends hclosing
    exact ⟨k, .finished result, hk⟩
  · exact ⟨0, .crashed, hhalted.plan_eq⟩

/-! ## There are fair schedules -/

/-- Whose turn it is. -/
def turn (n : ℕ) : Duty :=
  match n % 7 with
  | 0 => .go
  | 1 => .proceed
  | 2 => .accept
  | 3 => .flush
  | 4 => .hear
  | 5 => .bring
  | _ => .elapse

private theorem exists_turn (duty : Duty) (n : ℕ) : ∃ k, n ≤ k ∧ turn k = duty := by
  cases duty with
  | go => exact ⟨7 * n, by omega, by simp [turn]⟩
  | proceed => exact ⟨7 * n + 1, by omega, by simp [turn]⟩
  | accept => exact ⟨7 * n + 2, by omega, by simp [turn]⟩
  | flush => exact ⟨7 * n + 3, by omega, by simp [turn]⟩
  | hear => exact ⟨7 * n + 4, by omega, by simp [turn]⟩
  | bring => exact ⟨7 * n + 5, by omega, by simp [turn]⟩
  | elapse => exact ⟨7 * n + 6, by omega, by simp [turn]⟩

/-- Every duty can be done at any time. -/
private theorem exists_does (m : CommandRun β α) (duty : Duty) : ∃ step, m.Does duty step := by
  cases duty with
  | go => exact ⟨.go, rfl⟩
  | proceed => exact ⟨.world (.move (.link .proceed)) rfl, rfl⟩
  | accept => exact ⟨.world (.move (.link (.accept 1))) rfl, 1, Nat.one_ne_zero, rfl⟩
  | flush => exact ⟨.world (.move (.link .flush)) rfl, rfl⟩
  | bring => exact ⟨.world (.bring 1) rfl, 1, Nat.one_ne_zero, rfl⟩
  | elapse => exact ⟨.world (.move (.elapse 1)) rfl, 1, Nat.one_ne_zero, rfl⟩
  | hear =>
    by_cases hfront : ∃ command : Command, command.HasFrame ∧ command.frame <+: m.system.toBoard
    · obtain ⟨command, hframe, hprefix⟩ := hfront
      refine ⟨.world (.hear command) rfl, fun other hother hprefix' ↦ ?_⟩
      -- no frame is the beginning of another one
      obtain hfirst | hfirst := List.prefix_or_prefix_of_prefix hprefix hprefix'
      · rw [Command.eq_of_encode_prefix hframe hother hfirst]
      · rw [Command.eq_of_encode_prefix hother hframe hfirst]
    · exact ⟨.world (.hear .reset) rfl, fun other hother hprefix ↦
        absurd ⟨other, hother, hprefix⟩ hfront⟩

/-- What becomes of a run if everybody does in turn what has been picked for him. -/
def inTurn (options : PlatformOptions) (pick : CommandRun β α → Duty → Step β)
    (m : CommandRun β α) : ℕ → CommandRun β α
  | 0 => m
  | n + 1 => (m.inTurn options pick n).step options (pick (m.inTurn options pick n) (turn n))

theorem exists_fair (options : PlatformOptions) (m : CommandRun β α) :
    ∃ schedule, m.Fair options schedule := by
  choose pick hpick using fun (m : CommandRun β α) duty ↦ m.exists_does duty
  let schedule (n : ℕ) : Step β := pick (m.inTurn options pick n) (turn n)
  have hafter : ∀ n, m.after options schedule n = m.inTurn options pick n := by
    intro n
    induction n with
    | zero => rfl
    | succ n ih => rw [after, inTurn, ih]
  refine ⟨schedule, fun duty n ↦ ?_⟩
  obtain ⟨k, hk, rfl⟩ := exists_turn duty n
  refine ⟨k, hk, ?_⟩
  rw [hafter]
  exact hpick _ _

end CommandRun

end PinballBoard
