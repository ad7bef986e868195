import PinballBoard.Proofs.Platform.Path
import PinballBoard.Proofs.Simulator.Serve

/-!
# How often a poll loop polls

The number of polls has a bound that holds whatever the board and the host do (`Watch.Paced`). If
nobody else uses the connection and the board answers at once, the time of each poll is known
(`Bench.Punctual`), and there is always a next one: the reply is read, the change is handed over or
the rest is taken, and the poll loop asks again (`Bench.Path.next_poll`). `Watch.paced_run` says
both.

A simulated board is one that answers at once (`BoardLine.answersPolls`).
-/

namespace PinballBoard

namespace Bench

variable {σ : Type} [ByteStream σ] {b b' b'' : Bench σ} {moves more : List Move}
  {quiet asked : σ → Prop} {peer : String} {n : ℕ}

/-! ## The next poll -/

theorem Stands.comes_to_end (h : Stands quiet asked peer n b)
    (hprompt : AnswersPolls quiet asked) :
    ∃ more b', Path b more b' ∧ Stands quiet asked peer 0 b' := by
  induction n generalizing b with
  | zero => exact ⟨[], b, .nil, h⟩
  | succ n ih =>
    obtain ⟨a, stream, hnext, hstands⟩ := h.goes_link hprompt
    obtain ⟨more, b', hpath, hend⟩ := ih hstands
    exact ⟨_, b', (Path.single (.link hnext)).trans hpath, hend⟩

private theorem phase?_advance_of_resting {s : Session} {deadline : ℕ}
    (hphase : s.phase? = some (.resting deadline)) (hover : deadline ≤ s.clock) :
    (s.step .advance).1.phase? = some .ready := by
  obtain ⟨loop, hpoll, hresting⟩ := Option.map_eq_some_iff.mp hphase
  simp [Session.step, Session.advance?, hpoll, hresting, hover, Session.phase?, Session.setPhase]

private theorem phase?_advance_of_delivering {s : Session} {switch : Switch} {active : Bool}
    (hphase : s.phase? = some (.delivering switch active))
    (hroom : s.channel.queue.length < s.channel.capacity) :
    (s.step .advance).1.phase? = some .ready := by
  obtain ⟨loop, hpoll, hdelivering⟩ := Option.map_eq_some_iff.mp hphase
  by_cases hgone : s.channel.abandoned = true <;>
    simp [Session.step, Session.advance?, Channel.offer, hpoll, hdelivering, hgone, hroom,
      Session.phase?, Session.setPhase]

private theorem ready_of_delivering {switch : Switch} {active : Bool}
    (hphase : b.session.phase? = some (.delivering switch active))
    (hcapacity : 0 < b.session.channel.capacity) :
    ∃ more b', Path b more b' ∧ b'.session.phase? = some .ready := by
  induction hlength : b.session.channel.queue.length generalizing b with
  | zero =>
    have hready := phase?_advance_of_delivering hphase (hlength ▸ hcapacity)
    rw [← session_move] at hready
    exact ⟨_, _, .single .advance, hready⟩
  | succ length ih =>
    obtain ⟨event, queue, hqueue⟩ := List.exists_cons_of_length_eq_add_one hlength
    have hstep : (b.move .take).session =
        { b.session with channel := { b.session.channel with queue } } := by
      rw [session_move, Session.step, Channel.take?, hqueue]
    have hafter : (b.move .take).session.phase? = some (.delivering switch active) := by
      rw [hstep]
      exact hphase
    obtain ⟨more, b', hpath, hend⟩ := ih hafter (by rw [hstep]; exact hcapacity)
      (by rw [hstep]; simpa [hqueue] using hlength)
    exact ⟨_, b', (Path.single .take).trans hpath, hend⟩

private theorem Stands.ready_of_resting (h : Stands quiet asked peer 0 b) {deadline : ℕ}
    (hphase : b.session.phase? = some (.resting deadline)) :
    ∃ more b', Path b more b' ∧ b'.session.phase? = some .ready := by
  by_cases hover : deadline ≤ b.session.clock
  · have hready := phase?_advance_of_resting hphase hover
    rw [← session_move] at hready
    exact ⟨_, _, .single .advance, hready⟩
  · have hgoes : b.Goes (.elapse (deadline - b.session.clock))
        (b.move (.elapse (deadline - b.session.clock))) := by
      refine .elapse ?_ ?_ fun rest hrest ↦ ?_
      · obtain ⟨loop, hpoll, hresting⟩ := Option.map_eq_some_iff.mp hphase
        rw [next?, h.next?_eq_none]
        simp [Session.advance?, hpoll, hresting, hover]
      · rw [Session.pollState, hphase]
        rfl
      · rw [untilTimer?_of_resting h hphase] at hrest
        exact (Option.some.inj hrest).le
    have hsession := (session_move b _).trans
      (congrArg Prod.fst (h.step_elapse (deadline - b.session.clock)))
    have hready : ((b.move (.elapse (deadline - b.session.clock))).move .advance).session.phase? =
        some .ready := by
      rw [session_move, hsession]
      refine phase?_advance_of_resting hphase ?_
      simp only
      omega
    exact ⟨_, _, (Path.single hgoes).snoc .advance, hready⟩

/-- The poll loop gets ready for the next poll when it has rested, or when the channel has taken the
change. -/
theorem Stands.comes_to_ready {phase : PollPhase} (h : Stands quiet asked peer 0 b)
    (hcapacity : 0 < b.session.channel.capacity) (hphase : b.session.phase? = some phase)
    (hrunning : ∀ failure, phase ≠ .ended failure) (hwell : ∀ e, phase ≠ .reporting e) :
    ∃ more b', Path b more b' ∧ b'.session.phase? = some .ready := by
  cases phase with
  | ready => exact ⟨[], b, .nil, hphase⟩
  | asking t =>
    have hnone := h.pollTicket?_eq_none_iff.mpr rfl
    rw [b.session.pollTicket?_eq_some.mpr hphase] at hnone
    cases hnone
  | resting deadline => exact h.ready_of_resting hphase
  | delivering switch active => exact ready_of_delivering hphase hcapacity
  | reporting e => exact absurd rfl (hwell e)
  | ended failure => exact absurd rfl (hrunning failure)

end Bench

theorem PollState.Shift.capacity_eq {d d' : PollState} {heard : Option Outcome}
    {took : Option PlatformEvent} {asked : Option Ticket}
    (h : Shift d heard took asked d') :
    d'.channel.capacity = d.channel.capacity := by
  cases h <;> rfl

namespace Watch

variable (peer : String) (earlier : List Move) (switches : SwitchTable) (capacity interval : ℕ)

theorem capacity_run (moves : List Move) :
    ((polling peer earlier switches capacity interval).run moves).session.channel.capacity =
      capacity :=
  polling_induction (P := fun w ↦ w.session.channel.capacity = capacity) peer earlier switches
    capacity interval rfl (fun _ _ _ _ _ _ hmoved ih ↦ hmoved.shift.capacity_eq.trans ih) moves

end Watch

namespace Bench

variable {σ : Type} [ByteStream σ] {b b' b'' : Bench σ} {moves more : List Move}
  {quiet asked : σ → Prop} {peer : String} {n : ℕ}

/-- Nobody cancels the poll loop. -/
theorem Path.not_cancelled {w : Watch} (h : Path b moves b')
    (hbefore : w.session.phase? ≠ some (.ended none)) :
    (w.run moves).session.phase? ≠ some (.ended none) := by
  induction h with
  | nil => exact hbefore
  | snoc hpath hgoes ih =>
    intro hended
    rw [Watch.run_append] at hended
    obtain hended | ⟨rfl, -⟩ := Session.phase?_step_ended hended
    · exact ih hended
    · cases hgoes

section Polling

open Watch

variable {line : String} {earlier : List Move} {switches : SwitchTable} {capacity interval : ℕ}

/-- A poll that is under way is answered, and so all polls have been written, unless one has
failed. -/
theorem Path.answers_all (hprompt : AnswersPolls quiet asked)
    (hsession : b.session = (polling line earlier switches capacity interval).session)
    (hstands : Stands quiet asked peer 0 b) (hpath : Path b moves b') :
    ∃ more b'', Path b (moves ++ more) b'' ∧ Stands quiet asked peer 0 b'' ∧
      (((polling line earlier switches capacity interval).run (moves ++ more)).AllValid →
        ((polling line earlier switches capacity interval).run (moves ++ more)).polls.length =
          ((polling line earlier switches capacity interval).run
            (moves ++ more)).pollBytes.length) := by
  obtain ⟨⟨n, hn⟩, -⟩ := hpath.stands hstands hprompt hsession
  obtain ⟨more, b'', hmore, hfree⟩ := hn.comes_to_end hprompt
  have hall := hpath.trans hmore
  refine ⟨more, b'', hall, hfree, fun hvalid ↦ ?_⟩
  obtain ⟨phase, hphase, hrunning, hwell⟩ := hvalid.goes (hall.not_cancelled (by exact nofun))
  have hnone := hfree.pollTicket?_eq_none_iff.mpr rfl
  rw [hall.session_eq hsession] at hnone
  have hlinked := (linked_polling line earlier switches capacity interval).run (moves ++ more)
  have hpolls := ((inPace_run line earlier switches capacity interval (moves ++ more)).going phase
    hphase hrunning).1
  generalize (polling line earlier switches capacity interval).run (moves ++ more) = w at *
  have hpending : phase.pending = 0 := by
    cases phase with
    | asking t =>
      rw [w.session.pollTicket?_eq_some.mpr hphase] at hnone
      cases hnone
    | reporting e => exact absurd rfl (hwell e)
    | _ => rfl
  have hanswers := w.rested_add_changed_le
  have hwritten := hvalid.length_answers_le hlinked
  have hbytes := hlinked.length_pollBytes_le
  omega

/-- The poll loop asks again. -/
theorem Path.asks_next (hcapacity : 0 < capacity)
    (hsession : b.session = (polling line earlier switches capacity interval).session)
    (hpath : Path b moves b') (hfree : Stands quiet asked peer 0 b')
    (hvalid : ((polling line earlier switches capacity interval).run moves).AllValid) :
    ∃ more b'', Path b (moves ++ more) b'' ∧
      ((polling line earlier switches capacity interval).run moves).polls.length <
        ((polling line earlier switches capacity interval).run (moves ++ more)).polls.length := by
  have hbefore := hpath.session_eq hsession
  obtain ⟨phase, hphase, hrunning, hwell⟩ := hvalid.goes (hpath.not_cancelled (by exact nofun))
  rw [← hbefore] at hphase
  have hroom : 0 < b'.session.channel.capacity := by
    rw [hbefore, capacity_run]
    exact hcapacity
  obtain ⟨more, b'', hmore, hready⟩ := hfree.comes_to_ready hroom hphase hrunning hwell
  have hall := hpath.trans hmore
  refine ⟨more ++ [.advance], b''.move .advance, List.append_assoc .. ▸ hall.snoc .advance, ?_⟩
  rw [hall.session_eq hsession] at hready
  rw [← List.append_assoc, run_append _ _ [.advance], run_append]
  rw [run_append] at hready
  have hasks : ((((polling line earlier switches capacity interval).run moves).run more).run
      [.advance]).polls = _ ++ [_] := congrArg (_ ++ ·) (congrArg Option.toList (if_pos hready))
  rw [hasks, List.length_append, List.length_singleton]
  exact Nat.lt_succ_of_le (polls_run _ more).length_le

/-- **There is always a next poll**, unless one has failed. -/
theorem Path.next_poll (hprompt : AnswersPolls quiet asked) (hcapacity : 0 < capacity)
    (hsession : b.session = (polling line earlier switches capacity interval).session)
    (hstands : Stands quiet asked peer 0 b) (hpath : Path b moves b') :
    ∃ more b'', Path b (moves ++ more) b'' ∧
      (((polling line earlier switches capacity interval).run (moves ++ more)).AllValid →
        ((polling line earlier switches capacity interval).pollTimes moves).length <
          ((polling line earlier switches capacity interval).pollTimes
            (moves ++ more)).length) := by
  have hlinked := (linked_polling line earlier switches capacity interval).run moves
  obtain ⟨more₁, b₁, hpath₁, hfree, -⟩ := hpath.answers_all hprompt hsession hstands
  by_cases hvalid :
      ((polling line earlier switches capacity interval).run (moves ++ more₁)).AllValid
  · obtain ⟨more₂, b₂, hpath₂, hasked⟩ :=
      hpath₁.asks_next hcapacity hsession hfree hvalid
    obtain ⟨more₃, b₃, hpath₃, -, hwritten⟩ := hpath₂.answers_all hprompt hsession hstands
    have hmoves : moves ++ more₁ ++ more₂ ++ more₃ = moves ++ (more₁ ++ more₂ ++ more₃) := by simp
    rw [hmoves] at hpath₃ hwritten
    refine ⟨_, b₃, hpath₃, fun hvalid ↦ ?_⟩
    rw [length_pollTimes_polling, length_pollTimes_polling, ← hwritten hvalid, ← hmoves,
      run_append _ _ more₃]
    refine lt_of_lt_of_le ?_ (polls_run _ more₃).length_le
    refine lt_of_le_of_lt ?_ hasked
    rw [run_append]
    exact hlinked.length_pollBytes_le.trans (polls_run _ more₁).length_le
  · exact ⟨more₁, b₁, hpath₁, fun h ↦ absurd h hvalid⟩

end Polling

end Bench

theorem Board.receive_poll {b : Board} (hgathered : b.gathered = [])
    (hstays : b.isLeaving = false) :
    ∃ board reply, b.receive Code.pollChanges = (board, some [reply]) ∧ board.gathered = [] ∧
      board.isLeaving = false := by
  have hreceive : b.receive Code.pollChanges = b.answerPoll := by
    have hb : { b with gathered := [] } = b := by rw [← hgathered]
    rw [Board.receive, hgathered, List.nil_append, if_pos (by decide), hb]
    rfl
  rw [hreceive, Board.answerPoll]
  split
  · exact ⟨_, _, rfl, hgathered, hstays⟩
  · rw [if_neg (by simp [hstays])]
    exact ⟨_, _, rfl, hgathered, hstays⟩

namespace BoardLine

/-- Host and board are there, the board waits for the next command, and all that is on its way are
these bytes for the host. -/
structure Attends (line : BoardLine) (toHost : Bytes) : Prop where
  gathered_eq : line.board.gathered = []
  stays : line.board.isLeaving = false
  capacity_ne : line.capacity ≠ some 0
  toBoard_eq : line.toBoard = []
  toHost_eq : line.toHost = toHost
  unsent_eq : line.unsent = []
  boardGone_eq : line.boardGone = false
  hostDone_eq : line.hostDone = false
  hostGone_eq : line.hostGone = false

theorem room_nil_singleton {line : BoardLine} (h : line.capacity ≠ some 0) (byte : UInt8) :
    line.room [] [byte] = 1 := by
  have hpos := room_nil_pos h (List.cons_ne_nil byte [])
  unfold room at *
  split at hpos <;> simp_all
  omega

/-- The board answers a poll before the host looks for the reply. -/
theorem Attends.write_poll {line : BoardLine} (h : line.Attends []) :
    ∃ reply line', line.write [Code.pollChanges] = (.accepted 1, line') ∧
      line'.Attends [reply] := by
  obtain ⟨board, reply, hreceive, hgathered, hstays⟩ := Board.receive_poll h.gathered_eq h.stays
  have hserve : BoardLine.serve { line with toBoard := [Code.pollChanges] } =
      { line with board, toHost := [reply] } := by
    obtain ⟨-, -, hcapacity, htoBoard, htoHost, hunsent, hboardGone, hhostDone, hhostGone⟩ := h
    simp [serve, transmit, consume, room_nil_singleton, *]
  refine ⟨reply, { line with board, toHost := [reply] }, ?_, hgathered, hstays, h.capacity_ne,
    h.toBoard_eq, rfl, h.unsent_eq, h.boardGone_eq, h.hostDone_eq, h.hostGone_eq⟩
  rw [write, if_neg (by simp [h.boardGone_eq]), h.toBoard_eq, room_nil_singleton h.capacity_ne]
  simp [hserve, h.toBoard_eq]

theorem Attends.read_reply {line : BoardLine} {reply : UInt8} (h : line.Attends [reply])
    {limit : ℕ} (hlimit : 0 < limit) :
    ∃ line', line.read limit = (.chunk [reply], line') ∧ line'.Attends [] := by
  have hserve : BoardLine.serve { line with toHost := [] } = { line with toHost := [] } := by
    obtain ⟨-, -, -, htoBoard, -, hunsent, -, hhostDone, hhostGone⟩ := h
    simp [serve, transmit, consume, *]
  obtain ⟨limit, rfl⟩ := Nat.exists_eq_add_one_of_ne_zero (Nat.ne_of_gt hlimit)
  refine ⟨{ line with toHost := [] }, ?_, h.gathered_eq, h.stays, h.capacity_ne, h.toBoard_eq, rfl,
    h.unsent_eq, h.boardGone_eq, h.hostDone_eq, h.hostGone_eq⟩
  rw [read, if_pos (by simp [h.toHost_eq]), h.toHost_eq]
  simp [hserve]

/-- **A simulated board answers each poll at once.** -/
theorem answersPolls :
    AnswersPolls (fun line : BoardLine ↦ line.Attends []) fun line ↦
      ∃ reply, line.Attends [reply] where
  write line h := by
    obtain ⟨reply, line', hwrite, hasked⟩ := h.write_poll
    exact ⟨line', hwrite, reply, hasked⟩
  flush line h := ⟨line, rfl, h⟩
  read line limit h hlimit := by
    obtain ⟨reply, h⟩ := h
    exact ⟨reply, h.read_reply hlimit⟩

end BoardLine

/-! ## How often a poll loop polls -/

/-- How often a poll loop polls that has been started, whatever the board and the host do. -/
structure Watch.Paced (start : Watch) (interval : ℕ) : Prop where
  /-- Up to any time there is a poll for each rest that this time has room for, one for each change,
  and one more. -/
  bounded : ∀ moves span, (start.run moves).session.clock ≤ start.session.clock + span →
    (start.pollTimes moves).length ≤ span / interval + 1 + (start.run moves).changed
  /-- Between two polls lies a whole rest if an answer between them was that nothing has changed. -/
  apart : ∀ before m after outcome t t',
    ((start.run before).step m).answers = (start.run before).answers ++ [outcome] →
      PollLoop.judge outcome = .ok .unchanged → t ∈ start.pollTimes before →
        t' ∈ ((start.run before).step m).pollTimes after → t + interval ≤ t'

/-- When a poll loop polls that has been started at a bench, if nothing disturbs it. -/
structure Bench.Punctual {σ : Type} [ByteStream σ] (b : Bench σ) (start : Watch) (interval : ℕ) :
    Prop where
  /-- A poll is written when all polls before it have been answered, and at the time that the rests
  after them have taken. -/
  exact_time : ∀ moves b', Path b moves b' → ∀ k t, (start.pollTimes moves)[k]? = some t →
    k ≤ (start.run moves).answers.length ∧ t = start.session.clock +
      ((start.run moves).answers.take k).countP PollLoop.isUnchanged * interval
  /-- This time does not pass without the poll, unless a poll has failed. -/
  not_late : ∀ moves b', Path b moves b' → (start.run moves).AllValid →
    ∀ k ≤ (start.run moves).answers.length, start.session.clock +
        ((start.run moves).answers.take k).countP PollLoop.isUnchanged * interval <
      b'.session.clock → k < (start.pollTimes moves).length
  /-- There is always a next poll, unless one has failed. -/
  next_poll : 0 < start.session.channel.capacity → ∀ moves b', Path b moves b' →
    ∃ more b'', Path b (moves ++ more) b'' ∧ ((start.run (moves ++ more)).AllValid →
      (start.pollTimes moves).length < (start.pollTimes (moves ++ more)).length)

namespace Watch

/-- **A poll loop does not ask more often than it has to**, on a connection that may have been used
before and that others may use beside it. If nobody else uses it and the board answers at once, each
poll comes at its time. -/
theorem paced_run (peer : String) (earlier : List Move) (switches : SwitchTable)
    (capacity interval : ℕ) (hinterval : 0 < interval) :
    (polling peer earlier switches capacity interval).Paced interval ∧
      ∀ (σ : Type) [ByteStream σ] (quiet asked : σ → Prop), AnswersPolls quiet asked →
        ∀ (b : Bench σ) (side : String) (spent : ℕ),
          b.session = (polling peer earlier switches capacity interval).session →
          b.session.connection = .resting side ⟨.idle, [], [], spent⟩ → quiet b.stream →
            b.Punctual (polling peer earlier switches capacity interval) interval := by
  refine ⟨⟨fun moves span ↦ length_pollTimes_le hinterval, fun before m after outcome t t' ↦
    add_interval_le_of_unchanged⟩, fun σ _ quiet asked hprompt b side spent hsession hconnection
    hquiet ↦ ?_⟩
  have hticket : b.session.pollTicket? = none := by
    rw [hsession]
    rfl
  have hstands : Bench.Stands quiet asked side 0 b := .free hticket hconnection hquiet
  have hready : (polling peer earlier switches capacity interval).session.phase? ≠
      some (.ended none) := nofun
  refine ⟨fun moves b' hpath k t ht ↦ ?_, fun moves b' hpath hvalid k hk hdue ↦ ?_,
    fun hcapacity moves b' hpath ↦ hpath.next_poll hprompt hcapacity hsession hstands⟩
  · exact pollTimes_of_undisturbed (hpath.stands hstands hprompt hsession).2 ht
  · rw [hpath.session_eq hsession] at hdue
    exact lt_length_pollTimes_of_undisturbed (hpath.stands hstands hprompt hsession).2 hvalid
      (hpath.not_cancelled hready) hk hdue

/-- A simulated board has a change to tell of. The second poll comes with the first one, and the
third after a rest of ten milliseconds. -/
theorem paced_run_simulated :
    let start := polling "board" [] .empty 8 10
    let b : Bench BoardLine :=
      { session := start.session, stream := { board := { changes := [133] } } }
    let ask : List Move := [.advance, .link .proceed, .link (.accept 1), .link .flush]
    let before := ask ++ [.link (.receive [133]), .advance] ++ ask
    let after : List Move := [.elapse 10, .advance] ++ ask
    let moves := before ++ .link (.receive [127]) :: after
    start.pollTimes moves = [0, 0, 10] ∧
      (start.pollTimes moves).length ≤ 10 / 10 + 1 + (start.run moves).changed ∧
      (∀ t ∈ start.pollTimes before,
        ∀ t' ∈ ((start.run before).step (.link (.receive [127]))).pollTimes after, t + 10 ≤ t') ∧
      b.Punctual start 10 := by
  intro start b ask before after moves
  obtain ⟨⟨hbounded, hapart⟩, hpunctual⟩ := paced_run "board" [] .empty 8 10 (by decide)
  refine ⟨by decide +kernel, hbounded moves 10 (by decide +kernel), fun t ht t' ht' ↦ ?_, ?_⟩
  · exact hapart before _ after (.reply (.byte 127)) t t' (by decide +kernel) rfl ht ht'
  · exact hpunctual BoardLine _ _ BoardLine.answersPolls b "board" 0 rfl rfl
      ⟨rfl, rfl, nofun, rfl, rfl, rfl, rfl, rfl, rfl⟩

end Watch

end PinballBoard
