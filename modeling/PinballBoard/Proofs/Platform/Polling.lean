import PinballBoard.Proofs.Platform.Watch
import PinballBoard.Proofs.Switch.Report
import PinballBoard.Proofs.Switch.Table

/-!
# What the host hears of the poll loop

The board is asked again and again, and what it answers reaches the host through a channel that may
be full, or that nobody reads any more. A switch event that is lost on this way, or that comes twice
or too late, is a missed ball that nobody can reproduce. So the events are told by the answers, one
by one (`Notice.ofAnswer`), and `Watch.reported_run` says that they are what the host hears, however
board, poll loop and host interleave.

## The invariant

Between an answer and the channel there is one place: the event that the poll loop has in its hands
while it waits for room. What has been taken, what is on the channel and what is in this place are
together the events of all answers, in order (`Kept.reported`). Every move keeps this, because it
moves one event by one place, or reads one answer while the place is free.

The table is told by the answers as well (`Kept.cached`), whether or not somebody takes the events.
It learns of a change in the very move in which the event appears, so it is always ahead of the
channel.
-/

namespace PinballBoard

/-! ## What an answer means -/

/-- What the host has to hear of a status. -/
def Notice.ofStatus (status : UInt8) : List Notice :=
  match SwitchReport.change? status with
  | some (switch, active) => [.switchChanged switch.number active "LISY"]
  | none =>
    if status.toNat = 127 then []
    else
      [.pollFailed ("Protocol violation: " ++ s!"poll status {status.toNat}: " ++
        "Invalid switch number: " ++ s!"{status.toNat % 128} (row and column must both be 0-7)")]

/-- What the host has to hear of the end of a poll. -/
def Notice.ofAnswer : Outcome → List Notice
  | .reply (.byte status) => ofStatus status
  | .failed e => [.pollFailed (DeviceError.ofLink e).message]
  | _ => []

/-- A poll is answered with a byte, or it fails. -/
def Outcome.IsAnswer (outcome : Outcome) : Prop :=
  (∃ status, outcome = .reply (.byte status)) ∨ ∃ e, outcome = .failed e

namespace PollLoop

/-- The change that the end of a poll reports, if it reports one. -/
def change? : Outcome → Option (Switch × Bool)
  | .reply (.byte status) => SwitchReport.change? status
  | _ => none

/-- The event that the poll loop makes of the end of a poll, if it makes one. -/
def event? (outcome : Outcome) : Option PlatformEvent :=
  match judge outcome with
  | .ok .unchanged => none
  | .ok (.changed switch active) => some (.switchChanged switch active)
  | .error e => some (.pollFailed e)

private theorem judge_byte (status : UInt8) :
    judge (.reply (.byte status)) =
      match SwitchReport.change? status with
      | some (switch, active) => .ok (.changed switch active)
      | none =>
        if status.toNat = 127 then .ok .unchanged
        else
          .error (.violation
            s!"poll status {status.toNat}: {(SwitchReport.fault status).message}") := by
  have h : judge (.reply (.byte status)) = (SwitchReport.ofByte status).mapError fun e ↦
      .violation s!"poll status {status.toNat}: {e.message}" := rfl
  rw [h, SwitchReport.ofByte_eq]
  cases SwitchReport.change? status with
  | some change => rfl
  | none =>
    dsimp only
    split <;> rfl

theorem change?_eq_some {outcome : Outcome} {switch : Switch} {active : Bool} :
    change? outcome = some (switch, active) ↔ judge outcome = .ok (.changed switch active) := by
  cases outcome with
  | reply reply =>
    cases reply with
    | byte status =>
      rw [judge_byte, change?]
      cases SwitchReport.change? status with
      | some change => simp [Prod.ext_iff]
      | none =>
        dsimp only
        split <;> simp
    | string data => exact iff_of_false (fun h ↦ nomatch h) (fun h ↦ nomatch h)
  | done | isOpen | failed => exact iff_of_false (fun h ↦ nomatch h) (fun h ↦ nomatch h)

theorem change?_eq_none {outcome : Outcome}
    (h : ∀ switch active, judge outcome ≠ .ok (.changed switch active)) :
    change? outcome = none := by
  cases hchange : change? outcome with
  | none => rfl
  | some change => exact absurd (change?_eq_some.mp hchange) (h change.1 change.2)

private theorem notice_violation (detail : String) :
    PlatformEvent.notice (.pollFailed (.violation detail)) =
      .pollFailed ("Protocol violation: " ++ detail) := rfl

theorem notice_event? {outcome : Outcome} (h : outcome.IsAnswer) :
    (event? outcome).toList.map PlatformEvent.notice = Notice.ofAnswer outcome := by
  rcases h with ⟨status, rfl⟩ | ⟨e, rfl⟩
  · have hjudge := judge_byte status
    rw [Notice.ofAnswer, Notice.ofStatus]
    cases hchange : SwitchReport.change? status with
    | some change =>
      rw [hchange] at hjudge
      rw [event?, hjudge]
      rfl
    | none =>
      rw [hchange] at hjudge
      by_cases hsame : status.toNat = 127
      · rw [event?, hjudge.trans (if_pos hsame)]
        simp only [if_pos hsame, Option.toList_none, List.map_nil]
      · rw [event?, hjudge.trans (if_neg hsame)]
        simp only [if_neg hsame, Option.toList_some, List.map_cons, List.map_nil]
        simp only [notice_violation, SwitchReport.message_fault, String.append_assoc, toString]
  · rfl

end PollLoop

/-! ## The invariant -/

/-- The table, the channel and the poll loop, seen against how the polls have ended and what the
host has taken. -/
structure Kept (switches : SwitchTable) (d : PollState) (answers : List Outcome)
    (taken : List PlatformEvent) : Prop where
  cached : d.switches = switches.learn (answers.filterMap PollLoop.change?)
  /-- What has been taken, what is on the channel and what waits for room are the events of all
  answers, in order, as long as the host is there and the poll loop has not been cancelled. -/
  reported : d.channel.abandoned = false → d.phase ≠ some (.ended none) →
    taken ++ d.channel.queue ++ d.waiting = answers.filterMap PollLoop.event?
  /-- After a failure the poll loop does nothing but say so. -/
  failing : ∀ earlier outcome later e, answers = earlier ++ outcome :: later →
    PollLoop.judge outcome = .error e → later = [] ∧ (d.phase = some (.reporting e) ∨
      d.phase = some (.ended (some e)) ∨ d.phase = some (.ended none))
  /-- It says so because there has been one. -/
  failed : ∀ e, d.phase = some (.reporting e) ∨ d.phase = some (.ended (some e)) →
    ∃ earlier outcome, answers = earlier ++ [outcome] ∧ PollLoop.judge outcome = .error e
  /-- The table is ahead of the channel. -/
  ahead : ∀ switch active, d.phase = some (.delivering switch active) →
    d.switches.get? switch = some active

namespace Kept

variable {switches table table' : SwitchTable} {channel channel' : Channel}
  {phase phase' : Option PollPhase} {answers : List Outcome} {taken taken' : List PlatformEvent}

private theorem filterMap_concat {α β : Type} (f : α → Option β) (xs : List α) (x : α) :
    (xs ++ [x]).filterMap f = xs.filterMap f ++ (f x).toList := by
  rw [List.filterMap_append, List.filterMap_cons, List.filterMap_nil]
  cases f x <;> rfl

private theorem hear {t : Ticket} {outcome : Outcome}
    (h : Kept switches ⟨table, channel, some (.asking t)⟩ answers taken)
    (hcached : table' = (table.learn (PollLoop.change? outcome).toList))
    (hwaiting : (phase'.map PollPhase.waiting).getD [] = (PollLoop.event? outcome).toList)
    (hfailing : ∀ e, PollLoop.judge outcome = .error e → phase' = some (.reporting e))
    (hfailed : ∀ e, phase' = some (.reporting e) ∨ phase' = some (.ended (some e)) →
      PollLoop.judge outcome = .error e)
    (hahead : ∀ switch active, phase' = some (.delivering switch active) →
      table'.get? switch = some active) :
    Kept switches ⟨table', channel, phase'⟩ (answers ++ [outcome]) taken := by
  refine ⟨?_, fun hopen _ ↦ ?_, fun earlier o later e heq hjudge ↦ ?_, fun e hphase ↦ ?_, hahead⟩
  · have hold : table = switches.learn (answers.filterMap PollLoop.change?) := h.cached
    rw [filterMap_concat, SwitchTable.learn_append, ← hold]
    exact hcached
  · have hold := h.reported hopen (by simp)
    have hempty : PollState.waiting ⟨table, channel, some (.asking t)⟩ = [] := rfl
    rw [filterMap_concat, ← hold, hempty, List.append_nil, PollState.waiting, hwaiting]
  · -- no earlier answer was a failure, for the loop would not have asked again
    rcases List.eq_nil_or_concat later with rfl | ⟨before, last, rfl⟩
    · obtain ⟨-, hlast⟩ := List.append_inj' heq rfl
      obtain rfl := List.singleton_inj.mp hlast
      exact ⟨rfl, .inl (hfailing e hjudge)⟩
    · rw [List.concat_eq_append, ← List.cons_append, ← List.append_assoc] at heq
      obtain ⟨hanswers, -⟩ := List.append_inj' heq rfl
      obtain ⟨-, hphase | hphase | hphase⟩ := h.failing earlier o before e hanswers hjudge <;>
        cases hphase
  · exact ⟨answers, outcome, rfl, hfailed e hphase⟩

private theorem move (h : Kept switches ⟨table, channel, phase⟩ answers taken)
    (hreported : channel'.abandoned = false → phase' ≠ some (.ended none) →
      channel.abandoned = false ∧ phase ≠ some (.ended none) ∧
        taken' ++ channel'.queue ++ PollState.waiting ⟨table, channel', phase'⟩ =
          taken ++ channel.queue ++ PollState.waiting ⟨table, channel, phase⟩)
    (hfailing : ∀ e, phase = some (.reporting e) ∨ phase = some (.ended (some e)) ∨
        phase = some (.ended none) →
      phase' = some (.reporting e) ∨ phase' = some (.ended (some e)) ∨
        phase' = some (.ended none))
    (hfailed : ∀ e, phase' = some (.reporting e) ∨ phase' = some (.ended (some e)) →
      phase = some (.reporting e) ∨ phase = some (.ended (some e)))
    (hahead : ∀ switch active, phase' = some (.delivering switch active) →
      phase = some (.delivering switch active)) :
    Kept switches ⟨table, channel', phase'⟩ answers taken' := by
  refine ⟨h.cached, fun hopen hgoes ↦ ?_, fun earlier o later e heq hjudge ↦ ?_,
    fun e hphase ↦ h.failed e (hfailed e hphase),
    fun switch active hphase ↦ h.ahead switch active (hahead switch active hphase)⟩
  · obtain ⟨hopen, hgoes, hsame⟩ := hreported hopen hgoes
    exact hsame.trans (h.reported hopen hgoes)
  · obtain ⟨hlast, hphase⟩ := h.failing earlier o later e heq hjudge
    exact ⟨hlast, hfailing e hphase⟩

/-- **A move keeps the books.** -/
theorem shift {d d' : PollState} {heard : Option Outcome} {took : Option PlatformEvent}
    {asked : Option Ticket} (h : Kept switches d answers taken)
    (hshift : PollState.Shift d heard took asked d') :
    Kept switches d' (answers ++ heard.toList) (taken ++ took.toList) := by
  cases hshift with
  | stays => simpa using h
  | unchanged deadline hjudge =>
    rw [Option.toList_none, List.append_nil, Option.toList_some]
    refine h.hear ?_ ?_ ?_ (by simp) (by simp)
    · rw [PollLoop.change?_eq_none (by simp [hjudge])]
      rfl
    · rw [PollLoop.event?, hjudge]
      rfl
    · intro e he
      rw [hjudge] at he
      cases he
  | @changed _ _ _ _ switch active hjudge =>
    rw [Option.toList_none, List.append_nil, Option.toList_some]
    refine h.hear ?_ ?_ ?_ (by simp) ?_
    · rw [PollLoop.change?_eq_some.mpr hjudge]
      rfl
    · rw [PollLoop.event?, hjudge]
      rfl
    · intro e he
      rw [hjudge] at he
      cases he
    · intro switch' active' hphase
      cases hphase
      exact SwitchTable.get?_insert_self _ _ _
  | @fails _ _ _ _ e hjudge =>
    rw [Option.toList_none, List.append_nil, Option.toList_some]
    refine h.hear ?_ ?_ ?_ ?_ (by simp)
    · rw [PollLoop.change?_eq_none (by simp [hjudge])]
      rfl
    · rw [PollLoop.event?, hjudge]
      rfl
    · intro e' he
      rw [hjudge] at he
      cases he
      rfl
    · rintro e' (hphase | hphase) <;> cases hphase
      exact hjudge
  | asks | wakes =>
    simp only [Option.toList_none, List.append_nil]
    refine h.move
      (fun hopen hgoes ↦ ⟨hopen, by simp, by simp [PollState.waiting, PollPhase.waiting]⟩)
      ?_ ?_ ?_ <;> simp
  | posts hopen | reports hopen =>
    simp only [Option.toList_none, List.append_nil]
    refine h.move (fun _ _ ↦ ⟨hopen, by simp, by simp [PollState.waiting, PollPhase.waiting]⟩)
      ?_ ?_ ?_ <;> simp
  | skips hgone | ends hgone =>
    simp only [Option.toList_none, List.append_nil]
    refine h.move (fun hopen _ ↦ absurd hgone (by simp [hopen])) ?_ ?_ ?_ <;> simp
  | stops hrunning =>
    simp only [Option.toList_none, List.append_nil]
    refine h.move (fun _ hgoes ↦ absurd rfl hgoes) ?_ ?_ ?_ <;> simp
  | takes hqueue =>
    rw [Option.toList_none, List.append_nil, Option.toList_some]
    refine h.move (fun hopen hgoes ↦ ⟨hopen, hgoes, ?_⟩) (fun e h ↦ h) (fun e h ↦ h)
      fun switch active h ↦ h
    simp [hqueue, PollState.waiting]
  | leaves =>
    simp only [Option.toList_none, List.append_nil]
    refine h.move (fun hopen _ ↦ absurd hopen (by simp [Channel.abandon])) (fun e h ↦ h)
      (fun e h ↦ h) fun switch active h ↦ h

end Kept

/-! ## The law -/

namespace Watch

/-- The host has not gone away, and the poll loop has not been cancelled. -/
def IsServed (w : Watch) : Prop :=
  w.session.channel.abandoned = false ∧ w.session.phase? ≠ some (.ended none)

instance (w : Watch) : Decidable w.IsServed := inferInstanceAs (Decidable (_ ∧ _))

/-- A poll has failed, or its answer was not valid. -/
def HasFailed (w : Watch) : Prop :=
  ∃ text, Notice.pollFailed text ∈ w.answers.flatMap Notice.ofAnswer

/-- What a host can rely on that listens to a poll loop. -/
structure Reported (switches : SwitchTable) (w : Watch) : Prop where
  answered : ∀ outcome ∈ w.answers, outcome.IsAnswer
  /-- What has been put on the channel, and what waits for room, is what the host has to hear of
  the answers, in order. -/
  reported : w.IsServed →
    (w.posted ++ w.waiting).map PlatformEvent.notice = w.answers.flatMap Notice.ofAnswer
  /-- One event waits at most. -/
  behind : w.IsServed → (w.answers.flatMap Notice.ofAnswer).length ≤ w.posted.length + 1
  /-- The table holds what the answers have told, whether or not the host is there. -/
  cached : w.session.switches = switches.learn (w.answers.filterMap PollLoop.change?)
  /-- It holds the state of a switch when the host can take the event. -/
  receivable : ∀ move switch active,
    (w.step move).posted = w.posted ++ [.switchChanged switch active] →
      (w.step move).session.switches.get? switch = some active
  /-- The first failure is the last answer. -/
  last : ∀ earlier outcome later text, w.answers = earlier ++ outcome :: later →
    .pollFailed text ∈ Notice.ofAnswer outcome → later = []
  /-- The error with which the poll loop has ended is the last that the host has to hear, and the
  only failure. -/
  failed : w.IsServed → ∀ e, w.session.pollFailure? = some e →
    ∃ earlier, w.posted.map PlatformEvent.notice = earlier ++ [.pollFailed e.message] ∧
      ∀ text, .pollFailed text ∉ earlier
  /-- Only a failure ends the poll loop, unless it is cancelled. That nobody listens does not. -/
  lives : ¬w.HasFailed → w.session.phase? ≠ some (.ended none) → w.session.isPolling = true
  /-- Nothing is polled and nothing heard after a failure. -/
  halted : w.HasFailed → ∀ moves, (w.run moves).answers = w.answers ∧
    (w.run moves).polls = w.polls ∧ (w.run moves).pollBytes = w.pollBytes
  /-- No poll is written while an event waits for room. -/
  patient : w.waiting ≠ [] → ∀ move, (w.step move).pollBytes = w.pollBytes
  /-- As soon as there is room, the event that waits gets on the channel. -/
  posts : ∀ event, w.waiting = [event] → w.session.channel.abandoned = false →
    w.session.channel.queue.length < w.session.channel.capacity →
      (w.step .advance).posted = w.posted ++ [event] ∧ (w.step .advance).waiting = []
  /-- If nobody is there to take it, the poll loop goes on with the next poll. -/
  goes_on : w.session.channel.abandoned = true → ∀ switch active,
    w.session.phase? = some (.delivering switch active) →
      ((w.step .advance).step .advance).polls = w.polls ++ [w.session.nextTicket]

variable {w : Watch} {switches : SwitchTable}

theorem kept_run (peer : String) (earlier : List Move) (switches : SwitchTable)
    (capacity interval : Nat) (moves : List Move) :
    let w := (polling peer earlier switches capacity interval).run moves
    Kept switches w.session.pollState w.answers w.taken := by
  refine polling_induction (P := fun w ↦ Kept switches w.session.pollState w.answers w.taken)
    peer earlier switches capacity interval ?_ ?_ moves
  · obtain ⟨-, hanswers, -⟩ := nothing_polled peer earlier switches capacity interval
    have htaken : (polling peer earlier switches capacity interval).taken = [] :=
      (unpolled_run peer earlier).taken_eq
    rw [hanswers, htaken]
    refine ⟨rfl, fun _ _ ↦ rfl, ?_, ?_, ?_⟩
    · intro before o later e heq
      exact absurd heq.symm (by simp)
    · rintro e (hphase | hphase) <;> cases hphase
    · intro switch active hphase
      cases hphase
  · intro w heard took asked w' hlinked hmoved hkept
    rw [hmoved.answers_eq, hmoved.taken_eq]
    exact hkept.shift hmoved.shift

/-- A poll is answered with a byte, or it fails. -/
private theorem Linked.isAnswer (h : w.Linked) {outcome : Outcome} (hmem : outcome ∈ w.answers) :
    outcome.IsAnswer := by
  obtain ⟨p, hp, rfl⟩ := List.mem_map.mp hmem
  obtain ⟨hsettled, hpoll⟩ := List.mem_filter.mp hp
  have hcalls := h.polled p.1 (of_decide_eq_true hpoll)
  rcases h.told.answered p.1 _ p.2 hcalls (Trace.mem_settled.mp hsettled) with hfailed | hreply
  · exact .inr hfailed
  · obtain ⟨reply, hreply, hkind⟩ := hreply
    cases reply with
    | byte status => exact .inl ⟨status, hreply⟩
    | string data => cases hkind

private theorem Linked.notices (h : w.Linked) :
    (w.answers.filterMap PollLoop.event?).map PlatformEvent.notice =
      w.answers.flatMap Notice.ofAnswer := by
  have hall : ∀ outcome ∈ w.answers, outcome.IsAnswer := fun _ ↦ h.isAnswer
  generalize w.answers = answers at hall
  induction answers with
  | nil => rfl
  | cons outcome answers ih =>
    obtain ⟨hhead, htail⟩ := List.forall_mem_cons.mp hall
    rw [List.flatMap_cons, ← ih htail, ← PollLoop.notice_event? hhead, ← List.map_append,
      List.filterMap_cons]
    cases PollLoop.event? outcome <;> rfl

theorem pollTicket?_of_phase {s : Session} {phase : PollPhase}
    (h : s.phase? = some phase) (hphase : ∀ t, phase ≠ .asking t) : s.pollTicket? = none := by
  cases hticket : s.pollTicket? with
  | none => rfl
  | some t =>
    rw [Session.pollTicket?_eq_some, h] at hticket
    exact absurd (Option.some.inj hticket) (hphase t)

theorem poll_of_phase {s : Session} {phase : PollPhase} (h : s.phase? = some phase) :
    ∃ interval, s.poll = some ⟨interval, phase⟩ := by
  obtain ⟨loop, hpoll, rfl⟩ := Option.map_eq_some_iff.mp h
  exact ⟨loop.interval, hpoll⟩

/-- Who has an event that waits has a change to hand over, or a failure to report. -/
theorem phase_of_waiting {event : PlatformEvent} (h : w.waiting = [event]) :
    (∃ switch active, w.session.phase? = some (.delivering switch active) ∧
        event = .switchChanged switch active) ∨
      ∃ e, w.session.phase? = some (.reporting e) ∧ event = .pollFailed e := by
  have h : (w.session.phase?.map PollPhase.waiting).getD [] = [event] := h
  cases hphase : w.session.phase? with
  | none =>
    rw [hphase] at h
    cases h
  | some phase =>
    rw [hphase] at h
    cases phase with
    | delivering switch active =>
      cases h
      exact .inl ⟨switch, active, rfl, rfl⟩
    | reporting e =>
      cases h
      exact .inr ⟨e, rfl, rfl⟩
    | _ => cases h

private theorem waiting_cases (w : Watch) : w.waiting = [] ∨ ∃ event, w.waiting = [event] := by
  unfold waiting PollState.waiting
  cases w.session.pollState.phase with
  | none => exact .inl rfl
  | some phase =>
    cases phase with
    | delivering | reporting => exact .inr ⟨_, rfl⟩
    | _ => exact .inl rfl

/-! ### The table is ahead of the channel -/

private theorem get?_of_posted {d d' : PollState} {answers : List Outcome}
    {taken : List PlatformEvent} {heard : Option Outcome} {took : Option PlatformEvent}
    {asked : Option Ticket}
    {switch : Switch} {active : Bool} (hkept : Kept switches d answers taken)
    (hshift : PollState.Shift d heard took asked d')
    (hposted : taken ++ took.toList ++ d'.channel.queue =
      taken ++ d.channel.queue ++ [.switchChanged switch active]) :
    d'.switches.get? switch = some active := by
  cases hshift with
  | posts hopen hroom =>
    obtain ⟨rfl, rfl⟩ : _ = switch ∧ _ = active := by simpa using hposted
    exact hkept.ahead _ _ rfl
  | takes hqueue => simp [hqueue] at hposted
  | leaves => simp [Channel.abandon] at hposted
  | _ => simp at hposted

/-! ### After a failure -/

/-- The poll loop has found a failure, or is over. -/
private def IsHalted (phase : Option PollPhase) : Prop :=
  ∃ e, phase = some (.reporting e) ∨ phase = some (.ended (some e)) ∨ phase = some (.ended none)

private theorem halted_of_shift {d d' : PollState} {heard : Option Outcome}
    {took : Option PlatformEvent} {asked : Option Ticket} (h : IsHalted d.phase)
    (hshift : PollState.Shift d heard took asked d') :
    heard = none ∧ asked = none ∧ IsHalted d'.phase := by
  obtain ⟨e, hphase⟩ := h
  cases hshift with
  | stays | takes | leaves => exact ⟨rfl, rfl, e, hphase⟩
  | reports | ends => exact ⟨rfl, rfl, _, .inr (.inl rfl)⟩
  | stops => exact ⟨rfl, rfl, e, .inr (.inr rfl)⟩
  | _ => simp at hphase

private theorem halted_run (hlinked : w.Linked) (h : IsHalted w.session.phase?)
    (moves : List Move) : (w.run moves).answers = w.answers ∧ (w.run moves).polls = w.polls ∧
      (w.run moves).pollBytes = w.pollBytes := by
  have hrun : (w.run moves).answers = w.answers ∧ (w.run moves).polls = w.polls ∧
      (w.run moves).pollBytes = w.pollBytes ∧ IsHalted (w.run moves).session.phase? := by
    induction moves using List.reverseRecOn with
    | nil => exact ⟨rfl, rfl, rfl, h⟩
    | append_singleton moves move ih =>
      obtain ⟨hanswers, hpolls, hbytes, hhalted⟩ := ih
      obtain ⟨heard, took, asked, hmoved⟩ := (hlinked.run moves).moved_step move
      obtain ⟨rfl, rfl, hhalted'⟩ := halted_of_shift hhalted hmoved.shift
      have hidle : (w.run moves).session.pollTicket? = none := by
        obtain ⟨e, hphase | hphase | hphase⟩ := hhalted <;>
          exact pollTicket?_of_phase hphase (by simp)
      rw [run, List.foldl_append]
      refine ⟨?_, ?_, ?_, hhalted'⟩
      · exact hmoved.answers_eq.trans ((List.append_nil _).trans hanswers)
      · exact hmoved.polls_eq.trans ((List.append_nil _).trans hpolls)
      · exact ((hlinked.run moves).pollBytes_step hidle move).trans hbytes
  exact ⟨hrun.1, hrun.2.1, hrun.2.2.1⟩

private theorem judge_of_event {outcome : Outcome} {event : PlatformEvent} {text : String}
    (hevent : PollLoop.event? outcome = some event) (hnotice : event.notice = .pollFailed text) :
    ∃ e, PollLoop.judge outcome = .error e := by
  rw [PollLoop.event?] at hevent
  split at hevent
  · cases hevent
  · cases hevent
    cases hnotice
  · exact ⟨_, ‹_›⟩

private theorem judge_of_notice {outcome : Outcome} {text : String}
    (h : Notice.pollFailed text ∈ Notice.ofAnswer outcome) (hanswer : outcome.IsAnswer) :
    ∃ e, PollLoop.judge outcome = .error e := by
  rw [← PollLoop.notice_event? hanswer] at h
  obtain ⟨event, hevent, hnotice⟩ := List.mem_map.mp h
  exact judge_of_event (Option.mem_toList.mp hevent) hnotice

private theorem Linked.isHalted (hlinked : w.Linked)
    (hkept : Kept switches w.session.pollState w.answers w.taken) (h : w.HasFailed) :
    IsHalted w.session.phase? := by
  obtain ⟨text, hmem⟩ := h
  obtain ⟨outcome, houtcome, hnotice⟩ := List.mem_flatMap.mp hmem
  obtain ⟨e, hjudge⟩ := judge_of_notice hnotice (hlinked.isAnswer houtcome)
  obtain ⟨earlier, later, heq⟩ := List.append_of_mem houtcome
  exact ⟨e, (hkept.failing earlier outcome later e heq hjudge).2⟩

private theorem failed_of_kept (hkept : Kept switches w.session.pollState w.answers w.taken)
    (hserved : w.IsServed) {e : DeviceError} (h : w.session.pollFailure? = some e) :
    ∃ earlier, w.posted.map PlatformEvent.notice = earlier ++ [.pollFailed e.message] ∧
      ∀ text, .pollFailed text ∉ earlier := by
  have hphase : w.session.phase? = some (.ended (some e)) := by
    unfold Session.pollFailure? at h
    split at h
    · rename_i interval failure hpoll
      rw [Session.phase?, hpoll, h]
      rfl
    · cases h
  obtain ⟨earlier, outcome, hanswers, hjudge⟩ := hkept.failed e (.inr hphase)
  have hreported : w.posted ++ w.session.pollState.waiting = w.answers.filterMap PollLoop.event? :=
    hkept.reported hserved.1 hserved.2
  have hempty : w.session.pollState.waiting = [] := by
    rw [PollState.waiting, Session.pollState, hphase]
    rfl
  refine ⟨(earlier.filterMap PollLoop.event?).map PlatformEvent.notice, ?_, fun text hmem ↦ ?_⟩
  · have hevent : PollLoop.event? outcome = some (.pollFailed e) := by
      rw [PollLoop.event?, hjudge]
    rw [hempty, List.append_nil, hanswers, List.filterMap_append] at hreported
    rw [hreported, List.map_append, List.filterMap_cons, hevent]
    rfl
  · -- an earlier failure would have been the last answer
    obtain ⟨event, hposted, hnotice⟩ := List.mem_map.mp hmem
    obtain ⟨outcome', houtcome, hevent⟩ := List.mem_filterMap.mp hposted
    obtain ⟨before, after, rfl⟩ := List.append_of_mem houtcome
    obtain ⟨e', hjudge'⟩ := judge_of_event hevent hnotice
    rw [List.append_assoc, List.cons_append] at hanswers
    have hlast := (hkept.failing before outcome' _ e' hanswers hjudge').1
    simp at hlast

/-! ### Before a failure -/

private theorem phase_ne_none_of_shift {d d' : PollState} {heard : Option Outcome}
    {took : Option PlatformEvent} {asked : Option Ticket} (h : d.phase ≠ none)
    (hshift : PollState.Shift d heard took asked d') : d'.phase ≠ none := by
  cases hshift with
  | stays | takes | leaves => exact h
  | _ => simp

theorem phase_ne_none_run (peer : String) (earlier : List Move) (switches : SwitchTable)
    (capacity interval : Nat) (moves : List Move) :
    ((polling peer earlier switches capacity interval).run moves).session.phase? ≠ none :=
  polling_induction (P := fun w ↦ w.session.phase? ≠ none) peer earlier switches capacity interval
    (fun h ↦ nomatch h) (fun _ _ _ _ _ _ hmoved h ↦ phase_ne_none_of_shift h hmoved.shift) moves

private theorem Linked.isPolling (hlinked : w.Linked)
    (hkept : Kept switches w.session.pollState w.answers w.taken) (hsome : w.session.phase? ≠ none)
    (hwell : ¬w.HasFailed) (hgoes : w.session.phase? ≠ some (.ended none)) :
    w.session.isPolling = true := by
  obtain ⟨phase, hphase⟩ := Option.ne_none_iff_exists'.mp hsome
  obtain ⟨interval, hpoll⟩ := poll_of_phase hphase
  rw [Session.isPolling, hpoll, Option.any_some]
  cases phase with
  | ended failure =>
    cases failure with
    | none => exact absurd hphase hgoes
    | some e =>
      -- the last answer has been a failure
      obtain ⟨before, outcome, hanswers, hjudge⟩ := hkept.failed e (.inr hphase)
      have hmem : outcome ∈ w.answers := by simp [hanswers]
      refine absurd ⟨e.message, List.mem_flatMap.mpr ⟨outcome, hmem, ?_⟩⟩ hwell
      rw [← PollLoop.notice_event? (hlinked.isAnswer hmem), PollLoop.event?, hjudge]
      exact List.mem_singleton_self _
  | _ => rfl

/-! ### Getting on -/

private theorem posts_of_room {event : PlatformEvent} (hwaiting : w.waiting = [event])
    (hopen : w.session.channel.abandoned = false)
    (hroom : w.session.channel.queue.length < w.session.channel.capacity) :
    (w.step .advance).posted = w.posted ++ [event] ∧ (w.step .advance).waiting = [] := by
  have hoffer : w.session.channel.offer event = .enqueued
      { w.session.channel with queue := w.session.channel.queue ++ [event] } := by
    simp [Channel.offer, hopen, hroom]
  obtain ⟨switch, active, hphase, rfl⟩ | ⟨e, hphase, rfl⟩ := phase_of_waiting hwaiting
  all_goals
    obtain ⟨interval, hpoll⟩ := poll_of_phase hphase
    constructor
    · simp [step, posted, Session.step, Session.advance?, Session.takes?, Session.setPhase, hpoll,
        hoffer]
    · simp [step, waiting, PollState.waiting, Session.pollState, Session.phase?, PollPhase.waiting,
        Session.step, Session.advance?, Session.setPhase, hpoll, hoffer]

private theorem goes_on_of_abandoned (hgone : w.session.channel.abandoned = true)
    {switch : Switch} {active : Bool}
    (hphase : w.session.phase? = some (.delivering switch active)) :
    ((w.step .advance).step .advance).polls = w.polls ++ [w.session.nextTicket] := by
  obtain ⟨interval, hpoll⟩ := poll_of_phase hphase
  have hoffer : w.session.channel.offer (.switchChanged switch active) = .abandoned :=
    if_pos hgone
  have hsession : (w.step .advance).session =
      { w.session with poll := some ⟨interval, .ready⟩ } := by
    simp [step, Session.step, Session.advance?, Session.setPhase, hpoll, hoffer]
  have hpolls : (w.step .advance).polls = w.polls := by
    simp [step, Session.asks?, hphase]
  rw [step, hpolls, hsession]
  rfl

/-- **The law of the poll loop.** It holds however board, poll loop and host interleave, on a
connection that may have been used before and that others may use beside the poll loop. -/
theorem reported_run (peer : String) (earlier : List Move) (switches : SwitchTable)
    (capacity interval : Nat) (moves : List Move) :
    ((polling peer earlier switches capacity interval).run moves).Reported switches := by
  have hlinked := (linked_polling peer earlier switches capacity interval).run moves
  have hkept := kept_run peer earlier switches capacity interval moves
  have hsome := phase_ne_none_run peer earlier switches capacity interval moves
  generalize (polling peer earlier switches capacity interval).run moves = w at hlinked hkept hsome
  have hreported : w.IsServed →
      (w.posted ++ w.waiting).map PlatformEvent.notice = w.answers.flatMap Notice.ofAnswer := by
    intro hserved
    rw [← hlinked.notices, ← hkept.reported hserved.1 hserved.2]
    rfl
  refine ⟨fun outcome ↦ hlinked.isAnswer, hreported, fun hserved ↦ ?_, hkept.cached,
    fun move switch active hposted ↦ ?_, fun earlier outcome later text heq hnotice ↦ ?_,
    fun hserved e ↦ failed_of_kept hkept hserved, hlinked.isPolling hkept hsome,
    fun hfailed moves ↦ halted_run hlinked (hlinked.isHalted hkept hfailed) moves,
    fun hwaiting move ↦ ?_, fun event ↦ posts_of_room,
    fun hgone switch active ↦ goes_on_of_abandoned hgone⟩
  · have hlength := congrArg List.length (hreported hserved)
    rw [List.length_map, List.length_append] at hlength
    obtain hnone | ⟨event, hone⟩ := waiting_cases w
    · rw [hnone, List.length_nil] at hlength
      omega
    · rw [hone, List.length_singleton] at hlength
      omega
  · obtain ⟨heard, took, asked, hmoved⟩ := hlinked.moved_step move
    refine get?_of_posted hkept hmoved.shift ?_
    rw [← hmoved.taken_eq]
    exact hposted
  · have hmem : outcome ∈ w.answers := by simp [heq]
    obtain ⟨e, hjudge⟩ := judge_of_notice hnotice (hlinked.isAnswer hmem)
    exact (hkept.failing earlier outcome later e heq hjudge).1
  · obtain ⟨event, hone⟩ := (waiting_cases w).resolve_left hwaiting
    refine hlinked.pollBytes_step ?_ move
    obtain ⟨_, _, hphase, -⟩ | ⟨_, hphase, -⟩ := phase_of_waiting hone <;>
      exact pollTicket?_of_phase hphase (by simp)

/-- A board answers two polls, with a change and with a number that is no address. While the host
does not take the first event, the second one waits. -/
example :
    let ask : List Move := [.advance, .link .proceed, .link (.accept 1), .link .flush]
    let w := (polling "board" [] .empty 1 50).run
      (ask ++ [.link (.receive [133]), .advance] ++ ask ++ [.link (.receive [9]), .advance])
    w.posted.map PlatformEvent.notice = [.switchChanged 5 true "LISY"] ∧
      w.waiting.map PlatformEvent.notice = [.pollFailed ("Protocol violation: poll status 9: " ++
        "Invalid switch number: 9 (row and column must both be 0-7)")] ∧
      w.pollBytes = [41, 41] := by
  decide +kernel

end Watch

end PinballBoard
