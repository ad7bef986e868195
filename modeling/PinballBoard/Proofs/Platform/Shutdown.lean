import PinballBoard.Proofs.Platform.Snapshot
import PinballBoard.Proofs.Platform.Suspension

/-!
# After the end

A coil command that slips out after the machine has been shut down can leave a coil under current,
with nobody there to let it go. A platform ends in one of two ways. To shut it down is to cancel the
poll loop and to end the stream, and to wait until that is done. To drop it is to cancel the poll
loop and to give the connection up, without waiting for anything. In both cases other tasks may be
at work on their devices, and others may begin as long as there are handles.

What can still happen is told by the connection alone (`Watch.Sealed`): whoever gets the lock from
then on is told that it is closed, and not a byte of him is written. What this means for a task on a
device is told by the task alone (`Dialogue.Heeds`): wherever it has got to, it ends when it is told
so. `Watch.closedForEver_run` puts the two together, for every moment and every interleaving.

## What has to have happened

`Watch.Quits` does not ask in which order poll loop and stream have ended, how often somebody has
tried to end them, or what has happened in between.
-/

namespace PinballBoard

/-! ## Tasks that are told of the end -/

namespace Dialogue

variable {σ α : Type}

/-- What is left of a task when some of its calls have ended, in whatever way. -/
inductive Leaves : Dialogue σ α → Dialogue σ α → Prop where
  | all (d : Dialogue σ α) : Leaves d d
  | ends {state : σ} {call : Call} {next : Outcome → Dialogue σ α} {rest : Dialogue σ α}
      (outcome : Outcome) (h : Leaves (next outcome) rest) : Leaves (.ask state call next) rest

/-- Wherever the task has got to, it ends with this error when a call of it finds the connection
closed. -/
def Heeds (e : DeviceError) : Dialogue σ (Except DeviceError α) → Prop
  | done _ _ => True
  | ask state call next =>
    next call.closedOutcome = done state (.error e) ∧ ∀ outcome, (next outcome).Heeds e

theorem Heeds.of_leaves {e : DeviceError} {d rest : Dialogue σ (Except DeviceError α)}
    (h : d.Heeds e) (hrest : d.Leaves rest) : rest.Heeds e := by
  induction hrest with
  | all => exact h
  | ends outcome _ ih => exact ih (h.2 outcome)

/-- The task begins with a command that is put in line. -/
def Begins : Dialogue σ α → Prop
  | done _ _ => False
  | ask _ call _ => call.command? ≠ none ∧ call.refusal = none

/-- What a host can do with a coil, a lamp or a display, or ask the firmware. -/
inductive IsOperation : {σ α : Type} → Dialogue σ (Except DeviceError α) → Prop where
  | pulse (coil : Coil) {settings : PulseSettings} (hfits : settings.duration.toNat ≤ 65535) :
      IsOperation (coil.pulse settings)
  | enable (coil : Coil) {settings : PulseSettings} (hold : HoldSettings)
      (hfits : settings.duration.toNat ≤ 65535) : IsOperation (coil.enable settings hold)
  | disable (coil : Coil) : IsOperation coil.disable
  | setBrightness (lamp : Lamp) (brightness : Decimal.Single) :
      IsOperation (lamp.setBrightness brightness)
  | setText (display : Display) (text : String) : IsOperation (display.setText text)
  | firmware : IsOperation Platform.firmware

end Dialogue

namespace Coil

variable {coil : Coil} {next : Coil → Task}

theorem heeds_command (coil : Coil) (command : Command) :
    (coil.command command).Heeds (.disconnected boardName) := ⟨rfl, fun _ ↦ trivial⟩

/-- The pulse time is a command of its own, and the task ends if it does not get through. -/
theorem heeds_withDuration (ms : UInt32)
    (hnext : ∀ coil, (next coil).Heeds (.disconnected boardName)) :
    (coil.withDuration ms next).Heeds (.disconnected boardName) := by
  unfold withDuration
  split
  · unfold withPulseTime
    split
    · exact hnext coil
    · refine ⟨rfl, fun outcome ↦ ?_⟩
      dsimp only
      split
      · exact hnext _
      · trivial
  · trivial

theorem begins_withDuration {ms : UInt32} (hfits : ms.toNat ≤ 65535)
    (hnext : ∀ coil, (next coil).Begins) : (coil.withDuration ms next).Begins := by
  have htime : PulseTime.ofMs ms = .ok ⟨ms.toUInt16⟩ := if_pos (Nat.lt_succ_of_le hfits)
  rw [withDuration, htime]
  dsimp only
  unfold withPulseTime
  split
  · exact hnext coil
  · exact ⟨by simp [Call.command?], rfl⟩

end Coil

namespace Dialogue

variable {σ α : Type} {task : Dialogue σ (Except DeviceError α)}

/-- **Every operation ends when it is told that the connection is closed.** -/
theorem IsOperation.heeds (h : task.IsOperation) : task.Heeds (.disconnected boardName) := by
  cases h with
  | pulse coil => exact Coil.heeds_withDuration _ fun coil ↦ coil.heeds_command _
  | enable coil => exact Coil.heeds_withDuration _ fun coil ↦ coil.heeds_command _
  | disable coil => exact coil.heeds_command _
  | setBrightness | setText => exact ⟨rfl, fun _ ↦ trivial⟩
  | firmware =>
    refine ⟨rfl, fun outcome ↦ ?_⟩
    dsimp only
    split
    · trivial
    · exact ⟨rfl, fun _ ↦ trivial⟩

/-- No operation is over before it has asked for the lock. -/
theorem IsOperation.begins (h : task.IsOperation) : task.Begins := by
  cases h with
  | pulse coil hfits =>
    exact Coil.begins_withDuration hfits fun _ ↦ ⟨by simp [Call.command?], rfl⟩
  | enable coil hold hfits =>
    exact Coil.begins_withDuration hfits fun _ ↦ ⟨by simp [Call.command?], rfl⟩
  | disable coil => exact ⟨by simp [Call.command?], rfl⟩
  | setBrightness lamp brightness =>
    refine ⟨by simp [Call.command?], ?_⟩
    unfold Lamp.brightnessCommand
    split <;> rfl
  | setText | firmware => exact ⟨by simp [Call.command?], rfl⟩

end Dialogue

namespace Session

theorem phase?_cancelPolling {s : Session} (h : s.phase? ≠ none) :
    ∃ failure, (s.step .cancelPolling).1.phase? = some (.ended failure) := by
  cases hpoll : s.poll with
  | none => exact absurd (by simp [phase?, hpoll]) h
  | some loop =>
    cases hphase : loop.phase with
    | ended failure =>
      exact ⟨failure, by simp [step, cancelPolling, phase?, hpoll, hphase]⟩
    | _ => exact ⟨none, by simp [step, cancelPolling, phase?, setPhase, hpoll, hphase]⟩

theorem isPolling_of_ended {s : Session} {failure : Option DeviceError}
    (h : s.phase? = some (.ended failure)) : s.isPolling = false := by
  obtain ⟨loop, hpoll, hphase⟩ := Option.map_eq_some_iff.mp h
  rw [isPolling, hpoll, Option.any_some, PollLoop.isRunning, hphase]

end Session

namespace Watch

variable {w v : Watch}

theorem usage_run (w : Watch) (moves : List Move) :
    ∃ turns, (w.run moves).usage = w.usage.run turns := by
  induction moves generalizing w with
  | nil => exact ⟨[], rfl⟩
  | cons move moves ih =>
    obtain ⟨turns, hturns⟩ := ih (w.step move)
    have hrun : (w.run (move :: moves)).usage = (w.step move).usage.run turns := hturns
    rw [hrun, step]
    cases hturn : w.session.turn? move with
    | none => exact ⟨turns, rfl⟩
    | some turn => exact ⟨turn :: turns, rfl⟩

theorem prefixes_run (w : Watch) (moves : List Move) :
    w.usage.events <+: (w.run moves).usage.events ∧
      w.usage.calls <+: (w.run moves).usage.calls := by
  obtain ⟨turns, hturns⟩ := usage_run w moves
  rw [hturns]
  exact ⟨Usage.events_prefix_run _ turns, Usage.calls_prefix_run _ turns⟩

/-! ## The law -/

/-- Nobody who gets the lock from now on gets at the stream. -/
structure Sealed (v : Watch) : Prop where
  /-- Whoever gets the lock later is told at once that the connection is closed, and nothing
  else. -/
  told : ∀ later, ∀ t ∈ (v.run later).usage.locked, t ∉ v.usage.locked →
    ∃ call, (v.run later).usage.calls[t]? = some call ∧ ∀ outcome,
      Event.settled t outcome ∈ (v.run later).usage.events ↔ outcome = call.closedOutcome
  /-- Of all bytes that are ever put in front of the stream, none is his. -/
  silent : ∀ later, ∀ x ∈ (v.run later).usage.events.marked, x.1 ∈ v.usage.locked

/-- In these moves the platform has been dropped, or it has been shut down and this is done. -/
structure Quits (w : Watch) (moves : List Move) : Prop where
  cancelled : .cancelPolling ∈ moves
  /-- The connection has been given up, or somebody has ended the stream and has been told so. -/
  ended : .abort ∈ moves ∨ ∃ before after outcome, moves = before ++ .call .close :: after ∧
    Event.settled (w.run before).session.nextTicket outcome ∈ (w.run moves).usage.events

/-- What holds for ever when a platform has come to its end. -/
structure Over (v : Watch) : Prop extends Sealed v where
  /-- There is no poll loop that runs, and none of its polls is written any more. -/
  unpolled : ∀ later, (v.run later).session.isPolling = false ∧ (v.run later).polls = v.polls ∧
    (v.run later).pollBytes = v.pollBytes
  /-- An operation that is under way ends when a call of it gets the lock. -/
  disconnects : ∀ {σ α : Type} (task : Dialogue σ (Except DeviceError α)), task.IsOperation →
    ∀ state call next, task.Leaves (.ask state call next) → ∀ later t,
      (v.run later).usage.calls[t]? = some call → t ∈ (v.run later).usage.locked →
        t ∉ v.usage.locked → ∃ outcome, (∀ o, Event.settled t o ∈ (v.run later).usage.events ↔
          o = outcome) ∧ next outcome = .done state (.error (.disconnected boardName))
  /-- An operation that begins now has no other result. -/
  fails : ∀ {σ α : Type} (task : Dialogue σ (Except DeviceError α)), task.IsOperation →
    ∀ later schedule v' result, (v.run later).conduct task schedule = some (v', result) →
      result = .error (.disconnected boardName)

/-! ### Calls and their tickets -/

/-- Who makes a call gets the next ticket, and keeps it. -/
theorem Linked.call_made (h : w.Linked) (before : List Move) (call : Call)
    (after : List Move) :
    (w.run (before ++ .call call :: after)).usage.calls[(w.run before).session.nextTicket]? =
      some call := by
  obtain ⟨turns, hturns⟩ := ((w.run before).step (.call call)).usage_run after
  have hcalls : (w.run before).usage.calls ++ [call] <+:
      (w.run (before ++ .call call :: after)).usage.calls := by
    rw [run_append]
    exact hturns ▸ ((w.run before).step (.call call)).usage.calls_prefix_run turns
  obtain ⟨more, hmore⟩ := hcalls
  rw [(h.run before).nextTicket_eq, ← hmore]
  exact getElem?_append_of_some List.getElem?_concat_length more

theorem Linked.called (h : w.Linked) (call : Call) (moves : List Move) {outcome : Outcome}
    (hlookup : ((w.step (.call call)).run moves).usage.events.settled.lookup w.session.nextTicket =
      some outcome) :
    let later := (w.step (.call call)).run moves
    later.Linked ∧ w.session.nextTicket < later.usage.calls.length ∧
      later.usage.calls[w.session.nextTicket]? = some call ∧
        Event.settled w.session.nextTicket outcome ∈ later.usage.events := by
  have hcall := h.call_made [] call moves
  exact ⟨h.run (.call call :: moves), (List.getElem?_eq_some_iff.mp hcall).1, hcall,
    Trace.mem_of_lookup hlookup⟩

private theorem Linked.not_locked_before (h : v.Linked) (later : List Move) :
    (v.run later).session.nextTicket ∉ v.usage.locked := by
  intro hmem
  obtain ⟨turns, hturns⟩ := v.usage_run later
  have hlt := h.sound.orderly.locked_bound _ hmem
  have hle := (v.usage.calls_prefix_run turns).length_le
  rw [(h.run later).nextTicket_eq, hturns] at hlt
  exact Nat.not_lt.mpr hle hlt

/-! ### Sealed connections -/

private theorem Linked.shut (h : v.Linked) (hsealed : v.usage.connection.IsSealed)
    (later : List Move) : v.usage.Shut (v.run later).usage := by
  obtain ⟨turns, hturns⟩ := v.usage_run later
  exact hturns ▸ (Usage.shut_self h.sound hsealed).run h.sound turns

private theorem Linked.sealed (h : v.Linked) (hsealed : v.usage.connection.IsSealed) :
    v.Sealed where
  told later _ := (h.shut hsealed later).told _
  silent later _ := (h.shut hsealed later).marked_of

/-- Whoever gives the connection up seals it, -/
private theorem Linked.isSealed_of_abort (h : w.Linked) {moves : List Move}
    (habort : .abort ∈ moves) : (w.run moves).usage.connection.IsSealed := by
  obtain ⟨before, after, rfl⟩ := List.append_of_mem habort
  obtain ⟨_, _, _, hmoved⟩ := (h.run before).moved_step .abort
  have hsealed : ((w.run before).step .abort).usage.connection.IsSealed :=
    Usage.isSealed_abort (w.run before).usage
  rw [run_append]
  exact (hmoved.linked.shut hsealed after).isSealed

/-- and so does whoever ends the stream. -/
private theorem Linked.isSealed_of_close (h : w.Linked) {before after : List Move}
    {outcome : Outcome} (hmem : Event.settled (w.run before).session.nextTicket outcome ∈
      (w.run (before ++ .call .close :: after)).usage.events) :
    (w.run (before ++ .call .close :: after)).usage.connection.IsSealed := by
  have hclose := h.call_made before .close after
  obtain ⟨peer, turns, hturns⟩ := (h.run (before ++ .call .close :: after)).usage_eq
  rw [hturns] at hmem hclose ⊢
  exact .inl (Usage.link_none_of_closed peer turns _ outcome hmem hclose)

private theorem Linked.isSealed_of_quits (h : w.Linked) {moves : List Move}
    (hquits : w.Quits moves) : (w.run moves).usage.connection.IsSealed := by
  obtain habort | ⟨before, after, outcome, rfl, hmem⟩ := hquits.ended
  · exact h.isSealed_of_abort habort
  · exact h.isSealed_of_close hmem

/-! ### The poll loop -/

private theorem Linked.ended_of_cancelled (h : w.Linked)
    (hsome : ∀ before, (w.run before).session.phase? ≠ none) {moves : List Move}
    (hcancelled : .cancelPolling ∈ moves) :
    ∃ failure, (w.run moves).session.phase? = some (.ended failure) := by
  obtain ⟨before, after, rfl⟩ := List.append_of_mem hcancelled
  obtain ⟨failure, hended⟩ := Session.phase?_cancelPolling (hsome before)
  have hlinked := ((h.run before).moved_cancel).linked
  rw [run_append]
  exact ⟨failure, (ended_run hlinked hended after).1⟩

/-! ### Operations -/

section Operations

variable {σ α : Type} {task : Dialogue σ (Except DeviceError α)}

/-- An operation that is under way is told when a call of it gets the lock. -/
private theorem Sealed.disconnects (h : v.Sealed) (htask : task.IsOperation) {state : σ}
    {call : Call} {next : Outcome → Dialogue σ (Except DeviceError α)}
    (hleft : task.Leaves (.ask state call next)) {later : List Move} {t : Ticket}
    (hcall : (v.run later).usage.calls[t]? = some call) (ht : t ∈ (v.run later).usage.locked)
    (hnew : t ∉ v.usage.locked) :
    ∃ outcome, (∀ o, Event.settled t o ∈ (v.run later).usage.events ↔ o = outcome) ∧
      next outcome = .done state (.error (.disconnected boardName)) := by
  obtain ⟨made, hmade, htold⟩ := h.told later t ht hnew
  obtain rfl := Option.some.inj (hcall.symm.trans hmade)
  exact ⟨_, htold, (htask.heeds.of_leaves hleft).1⟩

/-- An operation that begins is told at its first call. -/
private theorem Sealed.fails (h : v.Sealed) (hlinked : v.Linked) (htask : task.IsOperation)
    {later : List Move} {schedule : List (List Move)} {v' : Watch} {result : Except DeviceError α}
    (hconduct : (v.run later).conduct task schedule = some (v', result)) :
    result = .error (.disconnected boardName) := by
  have hheeds := htask.heeds
  have hbegins := htask.begins
  cases task with
  | done state result => exact hbegins.elim
  | ask state call next =>
    cases schedule with
    | nil => cases hconduct
    | cons moves schedule =>
      obtain ⟨outcome, hlookup, hrest⟩ := Option.bind_eq_some_iff.mp hconduct
      -- the first call has ended, so it has had the lock
      have hmem : Event.settled (v.run later).session.nextTicket outcome ∈
          (v.run (later ++ .call call :: moves)).usage.events := by
        rw [run_append]
        exact Trace.mem_of_lookup hlookup
      have hcall := hlinked.call_made later call moves
      have hlocked : (v.run later).session.nextTicket ∈
          (v.run (later ++ .call call :: moves)).usage.locked := by
        obtain ⟨peer, turns, hturns⟩ := (hlinked.run (later ++ .call call :: moves)).usage_eq
        rw [hturns] at hmem hcall ⊢
        exact Usage.locked_of_settled peer turns _ outcome call hmem hcall hbegins.1 hbegins.2
      obtain ⟨made, hmade, htold⟩ := h.told _ _ hlocked (hlinked.not_locked_before later)
      obtain rfl := Option.some.inj (hcall.symm.trans hmade)
      rw [(htold outcome).mp hmem, hheeds.1] at hrest
      cases hrest
      rfl

end Operations

/-! ### All runs -/

/-- **Closed is for ever.** At any moment in the life of a platform, whatever poll loop and other
tasks are doing: if there is no stream, there will never be one. If the connection is given up, it
is sealed, even if somebody holds the lock. If the platform is shut down or dropped, there is no
poll loop any more either, and every operation on a device that gets the lock later fails. -/
theorem closedForEver_run (peer : String) (earlier : List Move) (switches : SwitchTable)
    (capacity interval : Nat) (before : List Move) :
    let w := (polling peer earlier switches capacity interval).run before
    (w.session.connection.link = none → ∀ later, (w.run later).session.connection.link = none) ∧
    (w.step .abort).Sealed ∧
    ∀ moves, w.Quits moves → (w.run moves).Over := by
  intro w
  have hlinked : w.Linked := (linked_polling peer earlier switches capacity interval).run before
  have hsome : ∀ more, (w.run more).session.phase? ≠ none := by
    intro more
    rw [← run_append]
    exact phase_ne_none_run peer earlier switches capacity interval _
  refine ⟨fun hnone later ↦ ?_, ?_, fun moves hquits ↦ ?_⟩
  · obtain ⟨turns, hturns⟩ := w.usage_run later
    rw [(hlinked.run later).connection_eq, hturns]
    rw [hlinked.connection_eq] at hnone
    exact Usage.link_none_run hnone turns
  · have habort : Move.abort ∈ [Move.abort] := List.mem_singleton_self _
    exact (hlinked.run [.abort]).sealed (hlinked.isSealed_of_abort habort)
  · have hlater := hlinked.run moves
    have hsealed := hlater.sealed (hlinked.isSealed_of_quits hquits)
    obtain ⟨failure, hended⟩ := hlinked.ended_of_cancelled hsome hquits.cancelled
    refine ⟨hsealed, fun later ↦ ?_, fun task htask state call next hleft later t ↦
      hsealed.disconnects htask hleft, fun task htask later schedule v' result ↦
      hsealed.fails hlater htask⟩
    obtain ⟨hphase, -, -, hpolls, hbytes⟩ := ended_run hlater hended later
    exact ⟨Session.isPolling_of_ended hphase, hpolls, hbytes⟩

/-- A platform is shut down while a poll waits for its answer. Whoever fires a coil after it is told
that the board is gone, and the board hears nothing any more. -/
theorem closedForEver_run_pulse :
    let w := (polling "board" [] .empty 1 50).run
      [.advance, .link .proceed, .link (.accept 1), .link .flush]
    let moves : List Move := [.cancelPolling, .call .close, .link .proceed]
    let coil : Coil := ⟨3, {}, none⟩
    w.Quits moves ∧ (∀ later, ((w.run moves).run later).pollBytes = [41]) ∧
      ∃ v', (w.run moves).conduct (coil.pulse ⟨.one, 30⟩) [[.link .proceed]] =
        some (v', .error (.disconnected boardName)) := by
  intro w moves coil
  have hquits : w.Quits moves := by
    refine ⟨List.mem_cons_self, .inr ⟨[.cancelPolling], [.link .proceed], .done, rfl, ?_⟩⟩
    decide +kernel
  obtain ⟨-, -, hover⟩ := closedForEver_run "board" [] .empty 1 50
    [.advance, .link .proceed, .link (.accept 1), .link .flush]
  have hbytes : (w.run moves).pollBytes = [41] := by decide +kernel
  have hends : ((w.run moves).conduct (coil.pulse ⟨.one, 30⟩) [[.link .proceed]]).isSome := by
    decide +kernel
  refine ⟨hquits, fun later ↦ ((hover moves hquits).unpolled later).2.2.trans hbytes, ?_⟩
  obtain ⟨⟨v', result⟩, hconduct⟩ := Option.isSome_iff_exists.mp hends
  have hresult := (hover moves hquits).fails _ (.pulse coil (by decide)) [] _ v' result hconduct
  exact ⟨v', hresult ▸ hconduct⟩

end Watch

end PinballBoard
