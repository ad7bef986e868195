import PinballBoard.Platform.Basic
import PinballBoard.Proofs.Platform.Handshake
import PinballBoard.Proofs.Platform.Polling
import PinballBoard.Settings.Basic

/-!
# Snapshots

A host that wants to know how all switches stand looks at the table once and follows the events from
then on. The poll loop does not wait for it: some of the changes that the host will hear of are in
the table already when it looks, and it has no means to tell which.

It need not tell. The events of a platform are the changes that its table has learnt since the
handshake, so what the host sees when it looks is what the handshake has read and the first of these
changes. To learn them all again on top of it ends where the table has ended
(`SwitchTable.learn_learn_append`). `Watch.replayed_run` says so for every platform, however it has
been started, and for any two moments of its life.

## Starting

How a platform is started is a dialogue, and other moves may come between its calls.
`Watch.conduct` leaves them open: it takes the moves that are made after each call from a schedule,
and is stuck unless the call ends in them. Of the dialogue itself only its possible results matter
(`Dialogue.Always`), and for the handshake these are known from the script that it follows.
-/

namespace PinballBoard

/-! ## Results of dialogues -/

namespace Dialogue

variable {σ τ α β : Type} {P : α → Prop} {Q : β → Prop}

/-- However the calls end, this is true of the result. -/
def Always (P : α → Prop) : Dialogue σ α → Prop
  | done _ result => P result
  | ask _ _ next => ∀ outcome, (next outcome).Always P

theorem Always.mono {d : Dialogue σ α} {P' : α → Prop} (h : d.Always P)
    (hP : ∀ result, P result → P' result) : d.Always P' := by
  induction d with
  | done state result => exact hP result h
  | ask state call next ih => exact fun outcome ↦ ih outcome (h outcome)

theorem Always.view {d : Dialogue σ α} (h : d.Always P) (f : σ → τ) : (d.view f).Always P := by
  induction d with
  | done state result => exact h
  | ask state call next ih => exact fun outcome ↦ ih outcome (h outcome)

theorem Always.andThen {d : Dialogue σ α} (h : d.Always P) {k : σ → α → Dialogue σ β}
    (hk : ∀ state result, P result → (k state result).Always Q) : (d.andThen k).Always Q := by
  induction d with
  | done state result => exact hk state result h
  | ask state call next ih => exact fun outcome ↦ ih outcome (h outcome)

end Dialogue

namespace Handshake

private theorem always_question {α : Type} {P : Except DeviceError Discovery → Prop}
    {stage : HandshakeStage} {command : Command} {read : Reply → Except DeviceError α}
    {next : α → Course} (hnext : ∀ answer, (next answer).Always P) (herror : ∀ e, P (.error e)) :
    (question stage command read next).Always P := by
  intro outcome
  dsimp only
  split
  · exact hnext _
  · exact herror _

theorem Follows.always {script : List (HandshakeStage × Command)}
    {found : List Reply → Discovery → Prop} {course : Course} (h : Follows script found course) :
    course.Always fun result ↦ ∀ discovery, result = .ok discovery →
      ∃ replies, found replies discovery := by
  induction h with
  | runs hfound =>
    rintro discovery ⟨⟩
    exact ⟨[], hfound⟩
  | asks hkind hread hnext ih =>
    refine always_question (fun answer ↦ ?_) fun e discovery heq ↦ nomatch heq
    refine (ih answer).mono fun result hresult discovery heq ↦ ?_
    obtain ⟨replies, hfound⟩ := hresult discovery heq
    exact ⟨_, hfound⟩

end Handshake

theorem Platform.always_start :
    start.Always fun result ↦ ∀ discovery, result = .ok discovery →
      ∃ i : Introduction, discovery = i.discovery := by
  refine (Handshake.follows_course.always.view _).andThen fun _ result hresult ↦ ?_
  cases result with
  | ok discovery =>
    rintro found ⟨⟩
    obtain ⟨_, i, -, hi⟩ := hresult discovery rfl
    exact ⟨i, hi⟩
  | error e => exact fun outcome found heq ↦ nomatch heq

theorem Introduction.isFull_switches (i : Introduction) : i.discovery.switches.IsFull := by
  intro s
  simp [discovery, SwitchTable.get?]

/-! ## Changes told by events -/

/-- The change that an event tells, if it tells one. -/
def PlatformEvent.change? : PlatformEvent → Option (Switch × Bool)
  | switchChanged switch active => some (switch, active)
  | pollFailed _ => none

/-- An event tells the change that has been learnt from the answer. -/
theorem PollLoop.change?_event? (outcome : Outcome) :
    (event? outcome).bind PlatformEvent.change? = change? outcome := by
  rw [event?]
  split
  · rename_i hjudge
    rw [change?_eq_none (by simp [hjudge])]
    rfl
  · rename_i hjudge
    rw [change?_eq_some.mpr hjudge]
    rfl
  · rename_i hjudge
    rw [change?_eq_none (by simp [hjudge])]
    rfl

/-! ## Dialogues on a session -/

namespace Watch

variable {σ α : Type}

/-- Take part in a dialogue. The schedule tells the moves that are made after each call, and the
call has to end in them. -/
def conduct : Watch → Dialogue σ α → List (List Move) → Option (Watch × α)
  | w, .done _ result, _ => some (w, result)
  | _, .ask _ _ _, [] => none
  | w, .ask _ call next, moves :: schedule =>
    let later := (w.step (.call call)).run moves
    (later.usage.events.settled.lookup w.session.nextTicket).bind fun outcome ↦
      later.conduct (next outcome) schedule

theorem conduct_eq_some {P : α → Prop} {d : Dialogue σ α} (hd : d.Always P) {w later : Watch}
    {schedule : List (List Move)} {result : α} (h : w.conduct d schedule = some (later, result)) :
    P result ∧ ∃ moves, later = w.run moves := by
  induction d generalizing w schedule with
  | done state result =>
    cases h
    exact ⟨hd, [], rfl⟩
  | ask state call next ih =>
    cases schedule with
    | nil => cases h
    | cons moves schedule =>
      obtain ⟨outcome, -, hrest⟩ := Option.bind_eq_some_iff.mp h
      obtain ⟨hresult, more, rfl⟩ := ih outcome (hd outcome) hrest
      exact ⟨hresult, .call call :: (moves ++ more), (run_append _ moves more).symm⟩

/-- Start a platform on a connection that may have been used before. -/
def started (peer : String) (earlier : List Move) (options : PlatformOptions)
    (schedule : List (List Move)) : Option Watch :=
  (((fresh peer).run earlier).conduct Platform.start schedule).bind fun (w, result) ↦
    match result with
    | .ok discovery =>
      some (w.beginPolling discovery.switches options.eventCapacity options.pollInterval)
    | .error _ => none

/-- A platform that has been started polls, and its table is full. -/
theorem started_eq_some {peer : String} {earlier : List Move} {options : PlatformOptions}
    {schedule : List (List Move)} {w : Watch} (h : started peer earlier options schedule = some w) :
    ∃ moves switches, SwitchTable.IsFull switches ∧
      w = polling peer moves switches options.eventCapacity options.pollInterval := by
  obtain ⟨⟨ready, result⟩, hconduct, hready⟩ := Option.bind_eq_some_iff.mp h
  obtain ⟨hresult, moves, rfl⟩ := conduct_eq_some Platform.always_start hconduct
  cases result with
  | ok discovery =>
    obtain ⟨i, rfl⟩ := hresult discovery rfl
    cases hready
    refine ⟨earlier ++ moves, _, i.isFull_switches, ?_⟩
    rw [polling, run_append]
  | error e => cases hready

/-! ## Snapshots -/

/-- The events since the platform has been started: taken, on the channel, or waiting for room. -/
def emitted (w : Watch) : List PlatformEvent := w.posted ++ w.waiting

/-- The changes that have been emitted are those that the table has learnt. -/
private theorem changes_emitted {w : Watch} {switches : SwitchTable}
    (hkept : Kept switches w.session.pollState w.answers w.taken) (hserved : w.IsServed) :
    w.emitted.filterMap PlatformEvent.change? = w.answers.filterMap PollLoop.change? := by
  have hreported : w.emitted = w.answers.filterMap PollLoop.event? :=
    hkept.reported hserved.1 hserved.2
  rw [hreported, List.filterMap_filterMap]
  exact List.filterMap_congr fun outcome _ ↦ PollLoop.change?_event? outcome

/-- **Snapshots and events.** At every moment the table of a platform holds the 64 addresses, and
who has looked at it earlier gets there by learning all changes that have been emitted since the
start, those that he has seen already among them. -/
theorem replayed_run {peer : String} {earlier : List Move} {options : PlatformOptions}
    {schedule : List (List Move)} {w : Watch} (h : started peer earlier options schedule = some w)
    (before after : List Move) :
    let seen := (w.run before).session.switches
    let now := (w.run before).run after
    now.session.switches.keys =
        ((List.range 8).flatMap fun row ↦ (List.range 8).map fun column ↦ 10 * row + column) ∧
      (now.IsServed →
        seen.learn (now.emitted.filterMap PlatformEvent.change?) = now.session.switches) := by
  obtain ⟨moves, switches, hfull, rfl⟩ := started_eq_some h
  intro seen now
  have hlinked := (linked_polling peer moves switches options.eventCapacity
    options.pollInterval).run before
  have hseen : seen = _ := (kept_run peer moves switches options.eventCapacity
    options.pollInterval before).cached
  have hkept := kept_run peer moves switches options.eventCapacity options.pollInterval
    (before ++ after)
  rw [run_append] at hkept
  have hnow : now.session.switches = switches.learn (now.answers.filterMap PollLoop.change?) :=
    hkept.cached
  constructor
  · rw [hnow]
    exact (hfull.learn _).keys_eq
  · intro hserved
    -- what has been learnt up to the snapshot is the first part of what has been learnt
    obtain ⟨more, hmore⟩ := hlinked.answers_run after
    have hanswers : now.answers = _ ++ more := hmore.symm
    rw [changes_emitted hkept hserved, hnow, hanswers, List.filterMap_append, hseen]
    exact SwitchTable.learn_learn_append _ _ _

/-- The moves in which a board answers a request at once. -/
def promptly (reply : Bytes) : List Move :=
  [.link .proceed, .link (.accept 2), .link .flush, .link (.receive reply)]

/-- The schedule of a handshake with a board that answers at once. -/
def introducing (i : Introduction) : List (List Move) :=
  i.replies.map fun reply ↦ promptly reply.wire

/-- A board none of whose switches is active. -/
def quietBoard : Introduction := ⟨.system1, 1, 2, 3, Vector.replicate 64 false⟩

private theorem started_quietBoard :
    (started "board" [] ⟨1, 50⟩ (introducing quietBoard)).map (fun w ↦
        let now := (w.run (.advance :: promptly [133])).run (.advance :: .advance :: promptly [5])
        (decide now.IsServed, now.emitted.map PlatformEvent.notice)) =
      some (true, [.switchChanged 5 true "LISY", .switchChanged 5 false "LISY"]) := by
  decide +kernel

/-- A switch closes and opens again. The host has looked at the table in between, before it could
hear that the switch is closed. -/
theorem replayed_quietBoard :
    ∃ w, started "board" [] ⟨1, 50⟩ (introducing quietBoard) = some w ∧
      let seen := (w.run (.advance :: promptly [133])).session.switches
      let now := (w.run (.advance :: promptly [133])).run (.advance :: .advance :: promptly [5])
      now.session.switches.keys =
          ((List.range 8).flatMap fun row ↦ (List.range 8).map fun column ↦ 10 * row + column) ∧
        now.emitted.map PlatformEvent.notice =
          [.switchChanged 5 true "LISY", .switchChanged 5 false "LISY"] ∧
        seen.learn (now.emitted.filterMap PlatformEvent.change?) = now.session.switches := by
  obtain ⟨w, hstarted, hnow⟩ := Option.map_eq_some_iff.mp started_quietBoard
  obtain ⟨hserved, hnotices⟩ := Prod.mk.inj hnow
  obtain ⟨hkeys, hreplayed⟩ := replayed_run hstarted (.advance :: promptly [133])
    (.advance :: .advance :: promptly [5])
  exact ⟨w, hstarted, hkeys, hnotices, hreplayed (of_decide_eq_true hserved)⟩

end Watch

end PinballBoard
