import PinballBoard.Platform.Basic
import PinballBoard.Proofs.Platform.Shutdown

/-!
# With which pulse time a coil is fired

The board keeps one pulse time for each coil and fires the coil with the last one that it has been
sent. A handle remembers what it has sent itself, and sends nothing if the wanted time is the one
that it remembers. Nothing tells it of another handle of the same coil, nor of a frame that its own
abandoned call has left in front of the stream and that a later call has written.

So a handle can be wrong. `DriverHandles.stale_handle` is the shortest way there: two handles of one
coil that take turns. `DriverHandles.fired_run` says exactly how far a handle can be trusted. When a
coil has been fired, the last pulse time on the wire is the wanted one, and what the handles of the
coil remember is true, of each handle that has itself sent the last pulse time for its coil and has
been told that it was sent. There are no other conditions, on the handles, on who else uses the
connection or on what is given up.

## Two lists

What the wire has of a coil and what a handle has of it are lists of the same kind: calls that have
sent a pulse time, in the order in which they were made. The list of the handle is a part of the
other one. A part that holds the last entry of the whole ends with it
(`getLast?_of_mem_getLast?`), and this is all there is to it.
-/

namespace PinballBoard

theorem mem_of_lt_of_pairwise {α : Type} {before after : List (Ticket × α)} {x y : Ticket × α}
    (h : (before ++ x :: after).Pairwise (·.1 < ·.1)) (hy : y ∈ before ++ x :: after)
    (hlt : y.1 < x.1) : y ∈ before := by
  rcases List.mem_append.mp hy with hmem | hmem
  · exact hmem
  · rcases List.mem_cons.mp hmem with rfl | hmem
    · exact absurd hlt (Nat.lt_irrefl _)
    · have hxy := (List.pairwise_cons.mp (List.pairwise_append.mp h).2.1).1 y hmem
      exact absurd hlt (Nat.lt_asymm hxy)

/-- If a part of an ascending list holds its last entry, it ends with it as well. -/
theorem getLast?_of_mem_getLast? {α : Type} {part whole : List (Ticket × α)}
    (hpart : part.Pairwise (·.1 < ·.1)) (hwhole : whole.Pairwise (·.1 < ·.1))
    (hsub : part ⊆ whole) {x : Ticket × α} (hlast : whole.getLast? = some x) (hx : x ∈ part) :
    part.getLast? = some x := by
  obtain ⟨earlier, rfl⟩ := List.getLast?_eq_some_iff.mp hlast
  obtain ⟨before, after, rfl⟩ := List.append_of_mem hx
  cases after with
  | nil => simp
  | cons y after =>
    -- what comes after the entry in the part would come after it in the whole
    have hxy : x.1 < y.1 := by
      have h := (List.pairwise_append.mp hpart).2.1
      exact (List.pairwise_cons.mp h).1 y List.mem_cons_self
    have hy : y ∈ earlier ++ [x] := hsub (by simp)
    rcases List.mem_append.mp hy with hmem | hmem
    · have hyx := (List.pairwise_append.mp hwhole).2.2 y hmem x (List.mem_singleton_self x)
      exact absurd hxy (Nat.not_lt.mpr (Nat.le_of_lt hyx))
    · rw [List.mem_singleton.mp hmem] at hxy
      exact absurd hxy (Nat.lt_irrefl _)

/-- What is left of an ascending list is ascending, whatever becomes of the entries. -/
theorem pairwise_filterMap_fst {α β : Type} {entries : List (Ticket × α)}
    (h : entries.Pairwise (·.1 < ·.1)) (f : Ticket × α → Option β) :
    (entries.filterMap fun p ↦ (f p).map (p.1, ·)).Pairwise (·.1 < ·.1) := by
  refine List.Pairwise.filterMap _ (fun p q hlt x hx y hy ↦ ?_) h
  obtain ⟨_, -, rfl⟩ := Option.map_eq_some_iff.mp hx
  obtain ⟨_, -, rfl⟩ := Option.map_eq_some_iff.mp hy
  exact hlt

/-! ## The pulse times of a coil -/

/-- The pulse time that a command gives to a coil, if it gives it one. -/
def Command.pulseTimeFor? (coil : UInt8) : Command → Option PulseTime
  | .setPulseTime n time => if n = coil then some time else none
  | _ => none

/-- The pulse time that the board has for a coil when it has got some commands. -/
def programmed? (coil : UInt8) (commands : List Command) : Option PulseTime :=
  (commands.filterMap (Command.pulseTimeFor? coil)).getLast?

/-- The pulse times that have been sent to a coil, each with its call, oldest first. -/
def pulseTimes (coil : UInt8) (encoded : List (Ticket × Command)) : List (Ticket × PulseTime) :=
  encoded.filterMap fun p ↦ (p.2.pulseTimeFor? coil).map (p.1, ·)

variable {coil : UInt8} {encoded : List (Ticket × Command)}

theorem Command.pulseTimeFor?_eq_some {command : Command} {time : PulseTime} :
    command.pulseTimeFor? coil = some time ↔ command = .setPulseTime coil time := by
  cases command with
  | setPulseTime n time' =>
    rw [pulseTimeFor?, Option.ite_none_right_eq_some, setPulseTime.injEq, Option.some.injEq]
  | _ => exact iff_of_false nofun nofun

theorem mem_pulseTimes {t : Ticket} {time : PulseTime} :
    (t, time) ∈ pulseTimes coil encoded ↔ (t, .setPulseTime coil time) ∈ encoded := by
  simp only [pulseTimes, List.mem_filterMap, Option.map_eq_some_iff, Prod.mk.injEq,
    Command.pulseTimeFor?_eq_some]
  constructor
  · rintro ⟨⟨_, _⟩, hmem, _, rfl, rfl, rfl⟩
    exact hmem
  · intro hmem
    exact ⟨_, hmem, time, rfl, rfl, rfl⟩

theorem programmed?_map_snd (coil : UInt8) (encoded : List (Ticket × Command)) :
    programmed? coil (encoded.map Prod.snd) = (pulseTimes coil encoded).getLast?.map Prod.snd := by
  rw [programmed?, pulseTimes, ← List.getLast?_map, List.filterMap_map, List.map_filterMap]
  congr 1
  refine List.filterMap_congr fun p _ ↦ ?_
  simp only [Function.comp_apply, Option.map_map]
  exact Option.map_id'.symm

theorem pairwise_pulseTimes (h : (encoded.map Prod.fst).Pairwise (· < ·)) :
    (pulseTimes coil encoded).Pairwise (·.1 < ·.1) :=
  pairwise_filterMap_fst (List.pairwise_map.mp h) _

/-! ## Tasks that may be given up -/

/-- How far a task has got. -/
structure Attempt (σ α : Type) where
  watch : Watch
  /-- The calls of the task that have ended, and how, oldest first. -/
  ended : List (Ticket × Outcome)
  /-- What is visible of the task. -/
  state : σ
  /-- Its result, unless it has been given up. -/
  result? : Option α

namespace Watch

variable {σ α : Type}

/-- Begin a task. The schedule tells the moves that are made after each of its calls. If the call
has not ended in them, it is given up, and the task with it. -/
def attempt : Watch → Dialogue σ α → List (List Move) → Attempt σ α
  | w, .done state result, _ => ⟨w, [], state, some result⟩
  | w, .ask state call _, [] =>
    ⟨(w.step (.call call)).step (.giveUp w.session.nextTicket), [], state, none⟩
  | w, .ask state call next, moves :: schedule =>
    let later := (w.step (.call call)).run moves
    match later.usage.events.settled.lookup w.session.nextTicket with
    | none => ⟨later.step (.giveUp w.session.nextTicket), [], state, none⟩
    | some outcome =>
      let rest := later.attempt (next outcome) schedule
      { rest with ended := (w.session.nextTicket, outcome) :: rest.ended }

end Watch

/-! ## What a handle learns -/

theorem Outcome.ne_failed {outcome : Outcome} (h : outcome.asDone = .ok ()) (e : LinkError) :
    outcome ≠ .failed e := by
  rintro rfl
  cases h

theorem Outcome.eq_failed {outcome : Outcome} {e : DeviceError} (h : outcome.asDone = .error e) :
    ∃ fault, outcome = .failed fault ∧ e = .ofLink fault := by
  cases outcome with
  | failed fault =>
    cases h
    exact ⟨fault, rfl, rfl⟩
  | _ => cases h

/-- The pulse time that a handle knows to be sent when a call of it has ended. -/
def Outcome.sent? (coil : UInt8) (call? : Option Call) (outcome : Outcome) : Option PulseTime :=
  match outcome.asDone with
  | .ok () => (call?.bind Call.command?).bind (Command.pulseTimeFor? coil)
  | .error _ => none

/-- The pulse times that a handle knows to be sent, each with its call, oldest first. -/
def learned (coil : UInt8) (calls : List Call) (ended : List (Ticket × Outcome)) :
    List (Ticket × PulseTime) :=
  ended.filterMap fun p ↦ (p.2.sent? coil calls[p.1]?).map (p.1, ·)

/-- What a handle remembers when a call of it has ended. -/
def Coil.told (coil : Coil) (call? : Option Call) (outcome : Outcome) : Coil :=
  { coil with pulseTime := (outcome.sent? coil.number call?).or coil.pulseTime }

theorem Outcome.sent?_eq_some {call? : Option Call} {outcome : Outcome} {time : PulseTime} :
    outcome.sent? coil call? = some time ↔
      outcome.asDone = .ok () ∧ call?.bind Call.command? = some (.setPulseTime coil time) := by
  rw [sent?]
  cases outcome.asDone with
  | ok => simp [Option.bind_eq_some_iff, Command.pulseTimeFor?_eq_some]
  | error e => simp

theorem mem_learned {calls : List Call} {ended : List (Ticket × Outcome)} {t : Ticket}
    {time : PulseTime} : (t, time) ∈ learned coil calls ended ↔ ∃ outcome, (t, outcome) ∈ ended ∧
      outcome.asDone = .ok () ∧
        calls[t]?.bind Call.command? = some (.setPulseTime coil time) := by
  simp only [learned, List.mem_filterMap, Option.map_eq_some_iff, Prod.mk.injEq,
    Outcome.sent?_eq_some]
  constructor
  · rintro ⟨⟨_, outcome⟩, hmem, _, hsent, rfl, rfl⟩
    exact ⟨outcome, hmem, hsent⟩
  · rintro ⟨outcome, hmem, hsent⟩
    exact ⟨_, hmem, time, hsent, rfl, rfl⟩

theorem pairwise_learned {calls : List Call} {ended : List (Ticket × Outcome)}
    (h : ended.Pairwise (·.1 < ·.1)) : (learned coil calls ended).Pairwise (·.1 < ·.1) :=
  pairwise_filterMap_fst h _

/-- In the end a handle remembers the last pulse time that it knows to be sent. -/
theorem Coil.foldl_told (calls : List Call) (ended : List (Ticket × Outcome)) (coil : Coil) :
    ended.foldl (fun coil p ↦ coil.told calls[p.1]? p.2) coil =
      { coil with
        pulseTime := ((learned coil.number calls ended).getLast?.map Prod.snd).or coil.pulseTime }
    := by
  induction ended generalizing coil with
  | nil => rfl
  | cons p ended ih =>
    rw [List.foldl_cons, ih]
    cases hsent : p.2.sent? coil.number calls[p.1]? with
    | none => simp [told, learned, hsent]
    | some time =>
      cases hlast : (learned coil.number calls ended).getLast? <;>
        simp_all [told, learned, List.getLast?_cons]

namespace Coil

/-- Whenever a call of the task ends, the handle remembers what it has been told. -/
def Minds : Coil.Task → Prop
  | .done _ _ => True
  | .ask coil call next =>
    ∀ outcome, (next outcome).state = coil.told call outcome ∧ Minds (next outcome)

/-- The task ends well only when this command has been sent with its last call, by a handle that
remembers this pulse time. -/
def Fires (command : Command) (time : PulseTime) : Coil.Task → Prop
  | .done _ result => result ≠ .ok ()
  | .ask coil call next =>
    ∀ outcome, Fires command time (next outcome) ∨
      next outcome = .done coil (.ok ()) ∧ call = .send command ∧ outcome.asDone = .ok () ∧
        coil.pulseTime = some time

variable (coil : Coil) {command : Command} {time : PulseTime} {next : Coil → Task}

theorem told_of_not_sent {call : Call} {outcome : Outcome}
    (h : ∀ time, outcome.asDone = .ok () → call.command? ≠ some (.setPulseTime coil.number time)) :
    coil.told call outcome = coil := by
  have hnone : outcome.sent? coil.number call = none :=
    Option.eq_none_iff_forall_ne_some.mpr fun time hsent ↦
      (Outcome.sent?_eq_some.mp hsent).elim (h time)
  rw [told, hnone, Option.none_or]

theorem minds_command (h : ∀ time, command ≠ .setPulseTime coil.number time) :
    Minds (coil.command command) := by
  intro outcome
  have htold : coil.told (some (.send command)) outcome = coil :=
    coil.told_of_not_sent fun time _ hcommand ↦ h time (Option.some.inj hcommand)
  exact ⟨htold.symm, trivial⟩

theorem fires_command (h : coil.pulseTime = some time) :
    Fires command time (coil.command command) := by
  intro outcome
  cases hdone : outcome.asDone with
  | ok => exact .inr ⟨congrArg (Dialogue.done coil) hdone, rfl, rfl, h⟩
  | error e => exact .inl fun heq ↦ nomatch hdone.symm.trans heq

theorem minds_withDuration (ms : UInt32)
    (hnext : ∀ time,
      (next { coil with pulseTime := time }).state = { coil with pulseTime := time } ∧
        Minds (next { coil with pulseTime := time })) :
    (coil.withDuration ms next).state = coil ∧ Minds (coil.withDuration ms next) := by
  unfold withDuration
  split
  · unfold withPulseTime
    split
    · exact hnext coil.pulseTime
    · rename_i time _ _
      refine ⟨rfl, fun outcome ↦ ?_⟩
      cases hdone : outcome.asDone with
      | ok =>
        have hsent : outcome.sent? coil.number (some (.send (.setPulseTime coil.number time))) =
            some time := Outcome.sent?_eq_some.mpr ⟨hdone, rfl⟩
        simpa only [told, hsent, hdone, Option.some_or] using hnext (some time)
      | error e =>
        rw [coil.told_of_not_sent fun _ hok ↦ nomatch hdone.symm.trans hok]
        simp [hdone, Dialogue.state, Minds]
  · exact ⟨rfl, trivial⟩

theorem fires_withDuration {ms : UInt32} (htime : PulseTime.ofMs ms = .ok time)
    (hnext : ∀ coil' : Coil, coil'.pulseTime = some time → coil'.number = coil.number →
      Fires command time (next coil')) :
    Fires command time (coil.withDuration ms next) := by
  rw [withDuration, htime]
  dsimp only
  unfold withPulseTime
  split
  · exact hnext coil ‹_› rfl
  · intro outcome
    dsimp only
    split
    · exact .inl (hnext _ rfl rfl)
    · refine .inl fun heq ↦ ?_
      cases heq

end Coil

/-! ## Orders to coils -/

/-- What a host can do with a handle of a coil. -/
inductive CoilOrder where
  | pulse (settings : PulseSettings)
  | enable (settings : PulseSettings) (hold : HoldSettings)
  | disable

namespace CoilOrder

/-- The task that an order is. -/
def task : CoilOrder → Coil → Coil.Task
  | pulse settings, coil => coil.pulse settings
  | enable settings hold, coil => coil.enable settings hold
  | disable, coil => coil.disable

/-- The command that an order comes down to. -/
def command (coil : UInt8) : CoilOrder → Command
  | pulse _ => .coilPulse coil
  | enable _ _ => .coilOn coil
  | disable => .coilOff coil

/-- The duration for which an order fires the coil, if it fires it. -/
def duration? : CoilOrder → Option UInt32
  | pulse settings | enable settings _ => some settings.duration
  | disable => none

variable (order : CoilOrder) (coil : Coil)

theorem minds_task : (order.task coil).state = coil ∧ Coil.Minds (order.task coil) := by
  cases order with
  | pulse | enable => exact coil.minds_withDuration _ fun _ ↦ ⟨rfl, Coil.minds_command _ nofun⟩
  | disable => exact ⟨rfl, coil.minds_command nofun⟩

theorem command_ne (n : UInt8) (n' : UInt8) (time : PulseTime) :
    order.command n ≠ .setPulseTime n' time := by
  cases order <;> nofun

/-- Who asks for a duration gets an answer only if there is such a pulse time. -/
theorem fires_task {ms : UInt32} (h : order.duration? = some ms) :
    (∃ e, order.task coil = .done coil (.error e)) ∨
      ∃ time, PulseTime.ofMs ms = .ok time ∧
        Coil.Fires (order.command coil.number) time (order.task coil) := by
  cases htime : PulseTime.ofMs ms with
  | error e =>
    refine .inl ⟨.ofProtocol e, ?_⟩
    cases order <;> cases h <;> simp [task, Coil.pulse, Coil.enable, Coil.withDuration, htime]
  | ok time =>
    refine .inr ⟨time, rfl, ?_⟩
    cases order with
    | disable => cases h
    | pulse | enable =>
      cases h
      refine coil.fires_withDuration htime fun coil' hcoil hnumber ↦ ?_
      rw [← hnumber]
      exact coil'.fires_command hcoil

end CoilOrder

/-! ## How attempts end -/

namespace Watch

variable {w : Watch} {σ α : Type} {d : Dialogue σ α} {schedule : List (List Move)}

theorem attempt_run (w : Watch) (d : Dialogue σ α) (schedule : List (List Move)) :
    ∃ moves, (w.attempt d schedule).watch = w.run moves := by
  induction d generalizing w schedule with
  | done state result => exact ⟨[], rfl⟩
  | ask state call next ih =>
    cases schedule with
    | nil => exact ⟨[.call call, .giveUp _], rfl⟩
    | cons moves schedule =>
      rw [attempt]
      dsimp only
      split
      · exact ⟨.call call :: moves ++ [.giveUp _], by rw [run_append]; rfl⟩
      · rename_i outcome _
        obtain ⟨more, hmore⟩ := ih outcome ((w.step (.call call)).run moves) schedule
        exact ⟨.call call :: moves ++ more, by rw [run_append]; exact hmore⟩

theorem prefixes_attempt (w : Watch) (d : Dialogue σ α) (schedule : List (List Move)) :
    w.usage.events <+: (w.attempt d schedule).watch.usage.events ∧
      w.usage.calls <+: (w.attempt d schedule).watch.usage.calls := by
  obtain ⟨moves, hmoves⟩ := attempt_run w d schedule
  rw [hmoves]
  exact prefixes_run w moves

/-- The calls of an attempt come after all earlier ones, one after the other, and have ended as the
attempt has it. -/
structure Attempted (w : Watch) (a : Attempt σ α) : Prop where
  settled : ∀ p ∈ a.ended, Event.settled p.1 p.2 ∈ a.watch.usage.events
  later : ∀ p ∈ a.ended, w.usage.calls.length ≤ p.1
  ascending : a.ended.Pairwise (·.1 < ·.1)

theorem Linked.attempted (h : w.Linked) (d : Dialogue σ α) (schedule : List (List Move)) :
    w.Attempted (w.attempt d schedule) := by
  induction d generalizing w schedule with
  | done state result => exact ⟨nofun, nofun, .nil⟩
  | ask state call next ih =>
    cases schedule with
    | nil => exact ⟨nofun, nofun, .nil⟩
    | cons moves schedule =>
      rw [attempt]
      dsimp only
      split
      · exact ⟨nofun, nofun, .nil⟩
      · rename_i outcome hlookup
        obtain ⟨hlinked, hlt, -, hsettled⟩ := h.called call moves hlookup
        generalize (w.step (.call call)).run moves = later at *
        have hrest := ih outcome hlinked schedule
        have hprefix := (prefixes_attempt later (next outcome) schedule).1
        have hlater : ∀ p ∈ (later.attempt (next outcome) schedule).ended,
            w.session.nextTicket < p.1 :=
          fun p hp ↦ Nat.lt_of_lt_of_le hlt (hrest.later p hp)
        refine ⟨?_, ?_, List.pairwise_cons.mpr ⟨hlater, hrest.ascending⟩⟩
        · rintro p (_ | ⟨_, hp⟩)
          · exact hprefix.subset hsettled
          · exact hrest.settled p hp
        · rw [← h.nextTicket_eq]
          rintro p (_ | ⟨_, hp⟩)
          · exact Nat.le_refl _
          · exact Nat.le_of_lt (hlater p hp)

/-- In the end a handle is what it has been told. -/
theorem Linked.state_attempt (h : w.Linked) {d : Coil.Task} (hd : Coil.Minds d)
    (schedule : List (List Move)) :
    (w.attempt d schedule).state = (w.attempt d schedule).ended.foldl
      (fun coil p ↦ coil.told (w.attempt d schedule).watch.usage.calls[p.1]? p.2) d.state := by
  induction d generalizing w schedule with
  | done state result => rfl
  | ask coil call next ih =>
    cases schedule with
    | nil => rfl
    | cons moves schedule =>
      rw [attempt]
      dsimp only
      split
      · rfl
      · rename_i outcome hlookup
        obtain ⟨hlinked, -, hcall, -⟩ := h.called call moves hlookup
        generalize (w.step (.call call)).run moves = later at *
        obtain ⟨more, hmore⟩ := (prefixes_attempt later (next outcome) schedule).2
        have hlast := getElem?_append_of_some hcall more
        rw [hmore] at hlast
        rw [List.foldl_cons, hlast]
        change _ = List.foldl _ (coil.told (some call) outcome) _
        rw [← (hd outcome).1]
        exact ih outcome hlinked (hd outcome).2 schedule

/-- A task that ends well has sent its command with its last call. -/
theorem Linked.fired_attempt (h : w.Linked) {command : Command} {time : PulseTime} {d : Coil.Task}
    (hd : Coil.Fires command time d) {schedule : List (List Move)}
    (hok : (w.attempt d schedule).result? = some (.ok ())) :
    (w.attempt d schedule).state.pulseTime = some time ∧
      ∃ earlier t outcome, (w.attempt d schedule).ended = earlier ++ [(t, outcome)] ∧
        outcome.asDone = .ok () ∧
          (w.attempt d schedule).watch.usage.calls[t]? = some (.send command) := by
  induction d generalizing w schedule with
  | done coil result => exact absurd (Option.some.inj hok) hd
  | ask coil call next ih =>
    cases schedule with
    | nil => cases hok
    | cons moves schedule =>
      rw [attempt] at hok ⊢
      dsimp only at hok ⊢
      split at hok
      · cases hok
      · rename_i outcome hlookup
        obtain ⟨hlinked, -, hcall, -⟩ := h.called call moves hlookup
        rcases hd outcome with hfires | ⟨hnext, rfl, hdone, htime⟩
        · obtain ⟨hstate, earlier, t, last, hended, hlast⟩ := ih outcome hlinked hfires hok
          exact ⟨hstate, (w.session.nextTicket, outcome) :: earlier, t, last,
            congrArg _ hended, hlast⟩
        · rw [hnext]
          exact ⟨htime, [], _, outcome, rfl, hdone, hcall⟩

end Watch

/-! ## Several handles -/

/-- A handle in use. -/
structure DriverHandle where
  coil : Coil
  /-- The calls that have been made with it and have ended, and how, oldest first. -/
  ended : List (Ticket × Outcome)

/-- Whether a call was made with this handle, which has been told that the frame was sent. -/
def DriverHandle.HasSent (g : DriverHandle) (t : Ticket) : Prop :=
  ∃ outcome, (t, outcome) ∈ g.ended ∧ outcome.asDone = .ok ()

/-- A host with a polling platform and handles of coils, of which several may be of one coil. -/
structure DriverHandles where
  watch : Watch
  profile : Profile
  /-- The handles, in the order in which the host has got them. -/
  handles : List DriverHandle

namespace DriverHandles

/-- What a host does with its handles, and what goes on meanwhile. -/
inductive Step where
  /-- Anything that can happen in the session. -/
  | move (move : Move)
  /-- The host asks for a handle. -/
  | configure (text : String) (config : CoilConfig)
  /-- The host gives an order to a handle, and may give it up. -/
  | work (slot : Nat) (order : CoilOrder) (schedule : List (List Move))

/-- An order to a handle, and its result if it has not been given up. -/
def work (p : DriverHandles) (slot : Nat) (order : CoilOrder) (schedule : List (List Move)) :
    DriverHandles × Option (Except DeviceError Unit) :=
  match p.handles[slot]? with
  | none => (p, none)
  | some g =>
    let a := p.watch.attempt (order.task g.coil) schedule
    ({ p with
        watch := a.watch
        handles := p.handles.set slot ⟨a.state, g.ended ++ a.ended⟩ },
      a.result?)

theorem work_of_none {p : DriverHandles} {slot : Nat} (h : p.handles[slot]? = none)
    (order : CoilOrder) (schedule : List (List Move)) : p.work slot order schedule = (p, none) := by
  rw [work, h]

theorem work_of_some {p : DriverHandles} {slot : Nat} {g : DriverHandle}
    (h : p.handles[slot]? = some g) (order : CoilOrder) (schedule : List (List Move)) :
    p.work slot order schedule =
      let a := p.watch.attempt (order.task g.coil) schedule
      ({ p with
          watch := a.watch
          handles := p.handles.set slot ⟨a.state, g.ended ++ a.ended⟩ },
        a.result?) := by
  rw [work, h]

/-- One step. Who asks for a coil that the board does not have gets no handle. -/
def step (p : DriverHandles) : Step → DriverHandles
  | .move move => { p with watch := p.watch.step move }
  | .configure text config =>
    match Platform.configureCoil p.profile text config with
    | .ok coil => { p with handles := p.handles ++ [⟨coil, []⟩] }
    | .error _ => p
  | .work slot order schedule => (p.work slot order schedule).1

/-- One step after the other. -/
def run (p : DriverHandles) (steps : List Step) : DriverHandles := steps.foldl step p

/-- What is true of the handles at every moment: they remember what they know to be sent. -/
structure Honest (p : DriverHandles) : Prop where
  linked : p.watch.Linked
  settled : ∀ g ∈ p.handles, ∀ e ∈ g.ended, Event.settled e.1 e.2 ∈ p.watch.usage.events
  ascending : ∀ g ∈ p.handles, g.ended.Pairwise (·.1 < ·.1)
  remembers : ∀ g ∈ p.handles, g.coil.pulseTime =
    (learned g.coil.number p.watch.usage.calls g.ended).getLast?.map Prod.snd

variable {p : DriverHandles}

theorem Honest.ended_lt (h : p.Honest) {g : DriverHandle} (hg : g ∈ p.handles)
    {e : Ticket × Outcome} (he : e ∈ g.ended) : e.1 < p.watch.usage.calls.length :=
  (h.linked.sound.settled_gone e.1 e.2 (h.settled g hg e he)).1

theorem learned_append {coil : UInt8} {calls : List Call} {ended : List (Ticket × Outcome)}
    (h : ∀ e ∈ ended, e.1 < calls.length) (more : List Call) :
    learned coil (calls ++ more) ended = learned coil calls ended := by
  refine List.filterMap_congr fun e he ↦ ?_
  rw [List.getElem?_append_left (h e he)]

/-- Whatever happens in the session, the handles stay as they are, and honest. -/
theorem Honest.watch (h : p.Honest) {w : Watch} (hw : w.Linked)
    (hevents : p.watch.usage.events <+: w.usage.events)
    (hcalls : p.watch.usage.calls <+: w.usage.calls) : Honest { p with watch := w } where
  linked := hw
  settled g hg e he := hevents.subset (h.settled g hg e he)
  ascending := h.ascending
  remembers g hg := by
    obtain ⟨more, hmore⟩ := hcalls
    dsimp only
    rw [← hmore, learned_append fun e he ↦ h.ended_lt hg he]
    exact h.remembers g hg

/-- The handle that an order has gone to is honest when the order has ended or been given up. -/
theorem Honest.work (h : p.Honest) (slot : Nat) (order : CoilOrder) (schedule : List (List Move)) :
    (p.work slot order schedule).1.Honest := by
  unfold DriverHandles.work
  split
  · exact h
  · rename_i g hslot
    have hg := List.mem_of_getElem? hslot
    obtain ⟨hstate, hminds⟩ := order.minds_task g.coil
    have hattempted := h.linked.attempted (order.task g.coil) schedule
    have hlearned := h.linked.state_attempt hminds schedule
    obtain ⟨moves, hmoves⟩ := Watch.attempt_run p.watch (order.task g.coil) schedule
    obtain ⟨hevents, hcalls⟩ := Watch.prefixes_attempt p.watch (order.task g.coil) schedule
    have hlinked : (p.watch.attempt (order.task g.coil) schedule).watch.Linked :=
      hmoves ▸ h.linked.run moves
    generalize p.watch.attempt (order.task g.coil) schedule = a at *
    have hkept := h.watch hlinked hevents hcalls
    refine ⟨hlinked, fun g' hg' ↦ ?_, fun g' hg' ↦ ?_, fun g' hg' ↦ ?_⟩ <;>
      rcases List.mem_or_eq_of_mem_set hg' with hother | rfl
    · exact hkept.settled g' hother
    · rintro e he
      exact (List.mem_append.mp he).elim (hkept.settled g hg e) (hattempted.settled e)
    · exact hkept.ascending g' hother
    · refine List.pairwise_append.mpr ⟨h.ascending g hg, hattempted.ascending, fun e he e' he' ↦ ?_⟩
      exact Nat.lt_of_lt_of_le (h.ended_lt hg he) (hattempted.later e' he')
    · exact hkept.remembers g' hother
    · have hbefore : g.coil.pulseTime = _ := hkept.remembers g hg
      rw [hlearned, hstate, Coil.foldl_told]
      dsimp only at hbefore ⊢
      rw [hbefore, learned, learned, learned, List.filterMap_append, List.getLast?_append,
        Option.map_or]

theorem pulseTime_configureCoil {profile : Profile} {text : String} {config : CoilConfig}
    {coil : Coil} (h : Platform.configureCoil profile text config = .ok coil) :
    coil.pulseTime = none := by
  rw [Platform.configureCoil] at h
  cases hindex : Platform.indexOf "solenoid" text <;> simp only [hindex, bind, Except.bind] at h
  · cases h
  · split at h
    · cases h
      rfl
    · cases h

theorem Honest.configure (h : p.Honest) {coil : Coil} (hcoil : coil.pulseTime = none) :
    Honest { p with handles := p.handles ++ [⟨coil, []⟩] } where
  linked := h.linked
  settled g hg := (List.mem_append.mp hg).elim (h.settled g) fun hnew ↦ by
    rw [List.mem_singleton.mp hnew]
    exact nofun
  ascending g hg := (List.mem_append.mp hg).elim (h.ascending g) fun hnew ↦ by
    rw [List.mem_singleton.mp hnew]
    exact .nil
  remembers g hg := (List.mem_append.mp hg).elim (h.remembers g) fun hnew ↦ by
    rw [List.mem_singleton.mp hnew]
    exact hcoil

theorem Honest.run (h : p.Honest) (steps : List Step) : (p.run steps).Honest := by
  induction steps generalizing p with
  | nil => exact h
  | cons step steps ih =>
    refine ih ?_
    cases step with
    | move move =>
      exact h.watch (h.linked.run [move]) (Watch.prefixes_run _ [move]).1
        (Watch.prefixes_run _ [move]).2
    | configure text config =>
      dsimp only [step]
      split
      · exact h.configure (pulseTime_configureCoil ‹_›)
      · exact h
    | work slot order schedule => exact h.work slot order schedule

/-! ## What is true when a coil is fired -/

/-- A coil has been fired with a handle, by the call `t`. -/
structure Fired (p : DriverHandles) (g : DriverHandle) (command : Command) (time : PulseTime)
    (t : Ticket) : Prop where
  /-- The handle remembers the wanted pulse time. -/
  remembers : g.coil.pulseTime = some time
  /-- When the call ends, the stream has taken the frame that fires the coil, and all before it. -/
  sent : ∃ (before : Trace) (outcome : Outcome) (after : Trace) (earlier : List (Ticket × Command)),
    p.watch.usage.events = before ++ .settled t outcome :: after ∧ outcome.asDone = .ok () ∧
      before.written = before.frames ∧ before.encoded = earlier ++ [(t, command)] ∧
        -- what comes before holds a pulse time for the coil
        ∃ last, (pulseTimes g.coil.number earlier).getLast? = some last ∧
          programmed? g.coil.number (earlier.map Prod.snd) = some last.2 ∧
            ∀ g' ∈ p.handles, g'.coil.number = g.coil.number → g'.HasSent last.1 →
              g'.coil.pulseTime = some last.2

theorem Honest.encoded_lt (h : p.Honest) : (p.watch.usage.encoded.map Prod.fst).Pairwise (· < ·) :=
  h.linked.sound.orderly.encoded_lt

section Before

variable {g : DriverHandle} {before after : List (Ticket × Command)} {t : Ticket}
  {command : Command}

/-- A pulse time that a handle knows to be sent is on the wire. -/
theorem Honest.learned_subset (h : p.Honest) (hg : g ∈ p.handles)
    (hencoded : p.watch.usage.encoded = before ++ (t, command) :: after)
    (hbefore : ∀ e ∈ learned g.coil.number p.watch.usage.calls g.ended, e.1 < t) :
    learned g.coil.number p.watch.usage.calls g.ended ⊆ pulseTimes g.coil.number before := by
  rintro ⟨t', time⟩ hmem
  obtain ⟨outcome, hended, hdone, hcall⟩ := mem_learned.mp hmem
  obtain ⟨peer, turns, hturns⟩ := h.linked.usage_eq
  obtain ⟨events, later, hsplit⟩ := List.append_of_mem (h.settled g hg _ hended)
  have hwell := (hturns ▸ Usage.settled_run peer turns).ended_well events t' outcome later _
    hsplit (Outcome.ne_failed hdone) hcall
  obtain ⟨earlier, hearlier⟩ := hwell.1
  have hsent : (t', Command.setPulseTime g.coil.number time) ∈ p.watch.usage.encoded := by
    rw [Usage.encoded, hsplit, Trace.encoded_append, hearlier]
    simp
  rw [mem_pulseTimes]
  exact mem_of_lt_of_pairwise (hencoded ▸ List.pairwise_map.mp h.encoded_lt) (hencoded ▸ hsent)
    (hbefore _ hmem)

/-- Who has sent the last pulse time, and knows it, remembers it. -/
theorem Honest.remembers_last (h : p.Honest) (hg : g ∈ p.handles)
    (hencoded : p.watch.usage.encoded = before ++ (t, command) :: after)
    (hbefore : ∀ e ∈ learned g.coil.number p.watch.usage.calls g.ended, e.1 < t)
    {last : Ticket × PulseTime}
    (hlast : (pulseTimes g.coil.number before).getLast? = some last) (hsent : g.HasSent last.1) :
    g.coil.pulseTime = some last.2 := by
  have hlt := h.encoded_lt
  rw [hencoded, List.map_append] at hlt
  have hmem : (last.1, Command.setPulseTime g.coil.number last.2) ∈ p.watch.usage.encoded :=
    hencoded ▸ List.mem_append_left _ (mem_pulseTimes.mp (List.mem_of_getLast? hlast))
  obtain ⟨call, hcall, hcommand⟩ := h.linked.sound.orderly.encoded_call _ hmem
  obtain ⟨outcome, hended, hdone⟩ := hsent
  have hlearned : last ∈ learned g.coil.number p.watch.usage.calls g.ended :=
    mem_learned.mpr ⟨outcome, hended, hdone, by rw [hcall]; exact hcommand⟩
  rw [h.remembers g hg, getLast?_of_mem_getLast? (pairwise_learned (h.ascending g hg))
    (pairwise_pulseTimes (List.pairwise_append.mp hlt).1) (h.learned_subset hg hencoded hbefore)
    hlast hlearned]
  rfl

end Before

/-- No pulse time is known to be sent with the call that fires the coil, or a later one. -/
private theorem Honest.learned_lt (h : p.Honest) (slot : Nat) {g : DriverHandle}
    {a : Attempt Coil (Except DeviceError Unit)}
    (hattempted : p.watch.Attempted a) {ended : List (Ticket × Outcome)} {t : Ticket}
    {outcome : Outcome} (hended : a.ended = ended ++ [(t, outcome)]) {command : Command}
    (hcall : a.watch.usage.calls[t]? = some (.send command))
    (hcommand : ∀ n time, command ≠ .setPulseTime n time) (hg : g ∈ p.handles)
    (g' : DriverHandle) (hg' : g' ∈ p.handles.set slot ⟨a.state, g.ended ++ a.ended⟩) :
    ∀ e ∈ learned g'.coil.number a.watch.usage.calls g'.ended, e.1 < t := by
  have hlast : p.watch.usage.calls.length ≤ t := hattempted.later (t, outcome) (by simp [hended])
  rintro ⟨t', time⟩ hmem
  obtain ⟨outcome', hmem, -, hcall'⟩ := mem_learned.mp hmem
  rcases List.mem_or_eq_of_mem_set hg' with hother | rfl
  · exact Nat.lt_of_lt_of_le (h.ended_lt hother hmem) hlast
  · rcases List.mem_append.mp hmem with hold | hnew
    · exact Nat.lt_of_lt_of_le (h.ended_lt hg hold) hlast
    · rw [hended] at hnew
      rcases List.mem_append.mp hnew with hnew | hnew
      · have hascending := hattempted.ascending
        rw [hended] at hascending
        exact (List.pairwise_append.mp hascending).2.2 _ hnew _ (List.mem_singleton_self _)
      · cases List.mem_singleton.mp hnew
        rw [hcall] at hcall'
        exact absurd (Option.some.inj hcall') (hcommand _ time)

theorem Honest.fired_work (h : p.Honest) {slot : Nat} {order : CoilOrder}
    {schedule : List (List Move)} {ms : UInt32} (hduration : order.duration? = some ms)
    (hok : (p.work slot order schedule).2 = some (.ok ())) :
    ∃ time g g' t, PulseTime.ofMs ms = .ok time ∧ p.handles[slot]? = some g ∧
      (p.work slot order schedule).1.handles[slot]? = some g' ∧ g'.coil.number = g.coil.number ∧
        (p.work slot order schedule).1.Fired g' (order.command g.coil.number) time t := by
  have hafter := h.work slot order schedule
  cases hslot : p.handles[slot]? with
  | none =>
    rw [work_of_none hslot] at hok
    cases hok
  | some g =>
    rw [work_of_some hslot] at hok hafter ⊢
    have hg := List.mem_of_getElem? hslot
    rcases order.fires_task g.coil hduration with ⟨e, htask⟩ | ⟨time, htime, hfires⟩
    · rw [htask] at hok
      cases hok
    · obtain ⟨hstate, ended, t, outcome, hended, hdone, hcall⟩ := h.linked.fired_attempt hfires hok
      have hattempted := h.linked.attempted (order.task g.coil) schedule
      have hnumber :
          (p.watch.attempt (order.task g.coil) schedule).state.number = g.coil.number := by
        obtain ⟨hfirst, hminds⟩ := order.minds_task g.coil
        rw [h.linked.state_attempt hminds, hfirst, Coil.foldl_told]
      generalize p.watch.attempt (order.task g.coil) schedule = a at *
      have hlt := h.learned_lt slot hattempted hended hcall (order.command_ne _) hg
      have hsettled := hattempted.settled (t, outcome) (by simp [hended])
      obtain ⟨before, after, hsplit⟩ := List.append_of_mem hsettled
      obtain ⟨peer, turns, hturns⟩ := hafter.linked.usage_eq
      obtain ⟨⟨earlier, hearlier⟩, hwritten⟩ :=
        (hturns ▸ Usage.settled_run peer turns).ended_well before t outcome after
          (order.command g.coil.number) hsplit (Outcome.ne_failed hdone) (by rw [hcall]; rfl)
      have hencoded : a.watch.usage.encoded =
          earlier ++ (t, order.command g.coil.number) :: Trace.encoded after := by
        rw [Usage.encoded, hsplit, Trace.encoded_append, hearlier]
        simp
      -- the handle itself knows of a pulse time, so there is one on the wire
      have hslot' : (p.handles.set slot ⟨a.state, g.ended ++ a.ended⟩)[slot]? =
          some ⟨a.state, g.ended ++ a.ended⟩ :=
        List.getElem?_set_self (List.getElem?_eq_some_iff.mp hslot).1
      have hown := List.mem_of_getElem? hslot'
      have hknown := hafter.remembers _ hown
      obtain ⟨x, hx, -⟩ := Option.map_eq_some_iff.mp (hknown.symm.trans hstate)
      have hmem := hafter.learned_subset hown hencoded (hlt _ hown) (List.mem_of_getLast? hx)
      obtain ⟨last, hlast⟩ := Option.isSome_iff_exists.mp
        (List.getLast?_isSome.mpr (List.ne_nil_of_mem hmem))
      refine ⟨time, g, _, t, htime, rfl, hslot', hnumber, hstate, before, outcome, after, earlier,
        hsplit, hdone, hwritten, hearlier, last, hlast, ?_, fun g' hg' hsame hsent ↦ ?_⟩
      · rw [programmed?_map_snd, hlast]
        rfl
      · exact hafter.remembers_last hg' hencoded (hlt g' hg') (hsame ▸ hlast) hsent

/-- What holds whenever a coil has been fired: of each handle that has itself sent the last pulse
time for the coil, and knows it, what it remembers is what the board has. -/
theorem fired_run (peer : String) (earlier : List Move) (switches : SwitchTable)
    (capacity interval : Nat) (profile : Profile) (steps : List Step) (slot : Nat)
    (order : CoilOrder) (schedule : List (List Move)) (ms : UInt32)
    (hduration : order.duration? = some ms) :
    let p := (DriverHandles.mk (Watch.polling peer earlier switches capacity interval) profile
      []).run steps
    let p' := (p.work slot order schedule).1
    (p.work slot order schedule).2 = some (.ok ()) →
      ∃ time g g' t, PulseTime.ofMs ms = .ok time ∧ p.handles[slot]? = some g ∧
        p'.handles[slot]? = some g' ∧ g'.coil.number = g.coil.number ∧
          p'.Fired g' (order.command g.coil.number) time t := by
  intro p p' hok
  have hstart : Honest ⟨Watch.polling peer earlier switches capacity interval, profile, []⟩ :=
    ⟨Watch.linked_polling .., nofun, nofun, nofun⟩
  exact (hstart.run steps).fired_work hduration hok

/-- The moves in which a frame is written at once. -/
def sending : List Move := [.link .proceed, .link (.accept 4), .link .flush]

/-- A host that has two handles of coil 1 and has pulsed it with each of them, 10 and 20
milliseconds long. -/
def twoHandles : DriverHandles :=
  (DriverHandles.mk (Watch.polling "board" [] .empty 100 50) ⟨.system1, 0, 8, 0⟩ []).run
    [.configure "1" {}, .configure "1" {},
      .work 0 (.pulse { duration := 10 }) [sending, sending],
      .work 1 (.pulse { duration := 20 }) [sending, sending]]

/-- The first handle pulses the coil for 10 milliseconds again. It remembers that it has sent this
pulse time and sends nothing but the pulse, which ends well. But the last pulse time on the wire is
20, and this is what the board has. -/
theorem stale_handle :
    let p := (twoHandles.work 0 (.pulse { duration := 10 }) [sending]).1
    (twoHandles.work 0 (.pulse { duration := 10 }) [sending]).2 = some (.ok ()) ∧
      p.watch.usage.encoded.map Prod.snd =
        [.setPulseTime 1 ⟨10⟩, .coilPulse 1, .setPulseTime 1 ⟨20⟩, .coilPulse 1, .coilPulse 1] ∧
      p.watch.usage.written =
        [24, 1, 0, 10, 23, 1, 24, 1, 0, 20, 23, 1, 23, 1] ∧
      programmed? 1 (p.watch.usage.encoded.map Prod.snd) = some ⟨20⟩ ∧
      p.handles.map (·.coil.pulseTime) = [some ⟨10⟩, some ⟨20⟩] := by
  decide +kernel

/-- The second handle can go on: what it remembers is what the board has. -/
theorem fired_run_second_handle :
    let p' := (twoHandles.work 1 (.pulse { duration := 20 }) [sending]).1
    ∃ time g g' t, PulseTime.ofMs 20 = .ok time ∧ twoHandles.handles[1]? = some g ∧
      p'.handles[1]? = some g' ∧ g'.coil.number = g.coil.number ∧
        p'.Fired g' (.coilPulse g.coil.number) time t :=
  fired_run "board" [] .empty 100 50 ⟨.system1, 0, 8, 0⟩ _ 1 (.pulse { duration := 20 }) [sending]
    20 rfl (by decide +kernel)

end DriverHandles

end PinballBoard
