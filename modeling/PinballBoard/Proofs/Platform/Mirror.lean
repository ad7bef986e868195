import PinballBoard.Proofs.Platform.HostAndBoard
import PinballBoard.Proofs.Simulator.Serve

/-!
# The table is a mirror

The simulated board turns a switch at the moment at which it reports the change to a poll, and not
when somebody pushes the change. So what it answers to a question about a switch is a matter of the
replies that it has given to polls, and of nothing else. The host learns the same replies, later and
one by one, from a table that it has read switch by switch before there was any poll.

Both sides are thus folds over replies. `SwitchTable.Mirrors` says that a table shows how the
switches of a board stand. A command keeps a mirror true once the table has learnt what the board
has replied (`SwitchTable.Mirrors.obey`), and the table of the host is what the handshake has read
and the replies that the poll loop has got. These are the first that the board has given
(`HostAndBoard.InStep.polled`). So the table is true whenever they are all that it has given.

A status that names no address turns something in the board that no question about an address can
see, and teaches the host nothing.
-/

namespace PinballBoard

/-! ## The simulated board as a partner -/

/-- The simulated board. Changes may be pushed at any time. -/
instance : Responder Board where
  Incident := UInt8
  answer b c := (b.obey c, b.replyTo c)
  incur := Board.pushChange

namespace Board

variable {b : Board} {c : Command}

/-- A board that has read whole frames, stays, and whose strings end where they end. -/
structure InOrder (b : Board) : Prop where
  between : b.gathered = []
  stays : b.isLeaving = false
  unbroken : ∀ text ∈ b.texts, '\x00' ∉ text.toList

theorem InOrder.obey (h : b.InOrder) (c : Command) : (b.obey c).InOrder := by
  obtain ⟨hgathered, hleaving, htexts⟩ := b.obey_same c
  exact ⟨hgathered.trans h.between, hleaving.trans h.stays, htexts ▸ h.unbroken⟩

theorem faithful : Responder.Faithful InOrder where
  answer _ c h := h.obey c
  incur _ _ h := ⟨h.between, h.stays, h.unbroken⟩
  kind b c _ := b.kind_replyTo c
  unbroken b c data h hreply := by
    obtain ⟨text, htext, rfl⟩ := mem_texts_of_replyTo hreply
    rw [Text.terminator_mem_utf8]
    exact h.unbroken text htext

theorem switchReply_setSwitchReply (b : Board) (number reply other : UInt8) :
    (b.setSwitchReply number reply).switchReply other =
      if other = number then reply else b.switchReply other := by
  have hset : (b.setSwitchReply number reply).switchReply other =
      if number.toNat = other.toNat then reply else b.switchReply other :=
    Vector.getElem_set number.toNat_lt other.toNat_lt
  rw [hset]
  simp only [UInt8.toNat_inj, eq_comm]

theorem answer_readSwitch (b : Board) (hstays : b.isLeaving = false) (s : Switch) :
    (b.answer (Command.readSwitch s).frame).2 = some [b.switchReply s.number] := by
  have hframe : (Command.readSwitch s).HasFrame := rfl
  rw [answer_frame hframe hstays]
  rfl

theorem replyTo_obey (b : Board) {c : Command} (hc : c ≠ .pollChanges) (other : Command) :
    (b.obey c).replyTo other = b.replyTo other := by
  rw [obey, if_neg hc]
  cases other <;> rfl

end Board

/-! ## Mirrors -/

/-- The change that a reply to a poll reports, if it reports one. -/
def Reply.change? : Reply → Option (Switch × Bool)
  | .byte status => SwitchReport.change? status
  | .string _ => none

/-- The poll loop learns from replies, and from nothing else. -/
theorem PollLoop.change?_eq_bind (outcome : Outcome) :
    change? outcome = outcome.reply?.bind Reply.change? := by
  cases outcome with
  | reply reply => cases reply <;> rfl
  | _ => rfl

namespace SwitchTable

/-- The table shows how the switches of a board stand. -/
def Mirrors (t : SwitchTable) (b : Board) : Prop :=
  ∀ s : Switch, t.get? s = some (decide (b.switchReply s.number = 1))

variable {t : SwitchTable} {b : Board}

/-- What the board reports turns the switch in the board and in the table. -/
private theorem Mirrors.report (h : t.Mirrors b) (status : UInt8) :
    (t.learn (SwitchReport.change? status).toList).Mirrors
      (b.setSwitchReply (status &&& Code.addressMask)
        (if status &&& Code.stateBit != 0 then 1 else 0)) := by
  intro s
  rw [Board.switchReply_setSwitchReply]
  cases hchange : SwitchReport.change? status with
  | none =>
    rw [if_neg (SwitchReport.number_ne_of_change?_eq_none hchange s)]
    exact h s
  | some change =>
    obtain ⟨switch, active⟩ := change
    obtain ⟨-, hnumber, rfl⟩ := SwitchReport.change?_eq_some.mp hchange
    rw [← hnumber, Option.toList_some, learn_cons]
    by_cases hsame : s = switch
    · subst hsame
      rw [if_pos rfl]
      refine (get?_insert_self t s _).trans ?_
      cases status &&& Code.stateBit != 0 <;> rfl
    · rw [if_neg fun heq ↦ hsame (Switch.ext heq)]
      exact (get?_insert_of_ne t _ hsame).trans (h s)

/-- **A command keeps a mirror true**, once the reply to a poll has been learnt. -/
theorem Mirrors.obey (h : t.Mirrors b) (c : Command) :
    (c = .pollChanges → (t.learn ((b.replyTo c).bind Reply.change?).toList).Mirrors (b.obey c)) ∧
      (c ≠ .pollChanges → t.Mirrors (b.obey c)) := by
  constructor
  · rintro rfl
    rw [Board.obey, if_pos rfl, Board.answerPoll, Board.replyTo]
    cases hchanges : b.changes with
    | nil =>
      -- no address has the number 127
      have hnone : (some (Reply.byte Code.noChange)).bind Reply.change? = none := rfl
      rw [List.headD_nil, hnone]
      dsimp only
      split <;> exact h
    | cons status changes =>
      have hrest : t.Mirrors { b with changes, polls := b.polls + 1 } := h
      exact hrest.report status
  · intro hc
    rw [Board.obey, if_neg hc]
    exact h

end SwitchTable

namespace HostAndBoard

/-- What the replies of a board have to do with how it stands now and how it stood at first. -/
structure Reflects (start : Board) (said : List (Command × Reply)) (b : Board) : Prop where
  polls_eq : b.polls = start.polls + (pollReplies said).length
  /-- Whoever has seen at first how the switches stood, and hears the replies to polls, knows how
  they stand. -/
  mirrors : ∀ t : SwitchTable, t.Mirrors start →
    (t.learn ((pollReplies said).filterMap Reply.change?)).Mirrors b
  /-- Before the first poll the board answers as it did at first. -/
  unpolled : pollReplies said = [] → ∀ c ≠ .pollChanges, b.replyTo c = start.replyTo c ∧
    ∀ reply, (c, reply) ∈ said → start.replyTo c = some reply

variable {start b : Board} {said : List (Command × Reply)}

theorem reflects_self (start : Board) : Reflects start [] start where
  polls_eq := rfl
  mirrors _ h := h
  unpolled _ _ _ := ⟨rfl, nofun⟩

private theorem Reflects.polled (h : Reflects start said b) (hstays : b.isLeaving = false)
    {reply : Reply} (hreply : b.replyTo .pollChanges = some reply) :
    Reflects start (said ++ [(.pollChanges, reply)]) (b.obey .pollChanges) := by
  have hpolls : pollReplies (said ++ [(.pollChanges, reply)]) = pollReplies said ++ [reply] := by
    simp [pollReplies]
  constructor <;> rw [hpolls]
  · rw [Board.polls_obey hstays, h.polls_eq, List.count_singleton_self, List.length_append,
      Nat.add_assoc]
    rfl
  · intro t ht
    have hlearnt := ((h.mirrors t ht).obey .pollChanges).1 rfl
    rw [hreply, ← SwitchTable.learn_append] at hlearnt
    rwa [List.filterMap_append, List.filterMap_cons, List.filterMap_nil]
  · intro hnone
    exact absurd hnone (by simp)

private theorem Reflects.obey (h : Reflects start said b) (hstays : b.isLeaving = false)
    {c : Command} (hc : c ≠ .pollChanges) :
    Reflects start (said ++ ((b.replyTo c).map (c, ·)).toList) (b.obey c) := by
  have hpolls : pollReplies (said ++ ((b.replyTo c).map (c, ·)).toList) = pollReplies said := by
    cases b.replyTo c <;> simp [pollReplies, hc]
  constructor <;> rw [hpolls]
  · rw [Board.polls_obey hstays, h.polls_eq, List.count_singleton, beq_false_of_ne hc]
    rfl
  · intro t ht
    exact ((h.mirrors t ht).obey c).2 hc
  · intro hnone other hother
    obtain ⟨hsame, hsaid⟩ := h.unpolled hnone other hother
    refine ⟨(b.replyTo_obey hc other).trans hsame, fun reply hmem ↦ ?_⟩
    rcases List.mem_append.mp hmem with hold | hnew
    · exact hsaid reply hold
    · obtain ⟨_, hreply, hpair⟩ := Option.map_eq_some_iff.mp (Option.mem_toList.mp hnew)
      cases hpair
      rw [← hsame, hreply]

variable {g : HostAndBoard Board}

theorem Reflects.step (h : Reflects start g.said g.board) (hstays : g.board.isLeaving = false)
    (step : Step Board) : Reflects start (g.step step).said (g.step step).board := by
  obtain hsame | ⟨move, -, -, hstep⟩ | ⟨chunk, after, -, -, hstep⟩ | ⟨command, -, -, hstep⟩ |
    ⟨incident, hstep⟩ := g.step_cases step
  · rwa [hsame]
  · rwa [hstep]
  · rwa [hstep]
  · rw [hstep]
    have hsaid :
        HostAndBoard.said { g with heard := g.heard ++ [(command, g.board.replyTo command)] } =
          g.said ++ ((g.board.replyTo command).map (command, ·)).toList := by
      cases g.board.replyTo command <;> simp [HostAndBoard.said]
    change Reflects start
      (HostAndBoard.said { g with heard := g.heard ++ [(command, g.board.replyTo command)] })
      (g.board.obey command)
    rw [hsaid]
    by_cases hc : command = .pollChanges
    · subst hc
      exact h.polled hstays rfl
    · exact h.obey hstays hc
  · rw [hstep]
    refine ⟨h.polls_eq, h.mirrors, fun hnone c hc ↦ ⟨?_, (h.unpolled hnone c hc).2⟩⟩
    rw [← (h.unpolled hnone c hc).1]
    cases c <;> first | rfl | exact absurd rfl hc

/-- At every moment the replies tell how the board stands. -/
theorem Reflects.run (h : Reflects start g.said g.board) (hstep : g.InStep Board.InOrder)
    (steps : List (Step Board)) : Reflects start (g.run steps).said (g.run steps).board := by
  induction steps generalizing g with
  | nil => exact h
  | cons step steps ih =>
    exact ih (h.step hstep.good.stays step) (hstep.step Board.faithful step)

/-! ## What the handshake reads -/

/-- A question ends with the reply of this board, or it fails. -/
def Honest (start : Board) (call : Call) (outcome : Outcome) : Prop :=
  ∀ command reply, call = .request command → outcome = .reply reply →
    start.replyTo command = some reply

private theorem mirrors_of_introduction {i : Introduction}
    (h : List.Forall₂ (fun q reply ↦ Honest start (.request q.2) (.reply reply)) Handshake.script
      i.replies) : i.discovery.switches.Mirrors start := by
  intro s
  have hstates : List.Forall₂
      (fun (q : HandshakeStage × Command) reply ↦ Honest start (.request q.2) (.reply reply))
      (Switch.all.map fun switch ↦ (.bulkSwitchRead, .readSwitch switch))
      (i.states.toList.map fun active ↦ .byte (Introduction.stateByte active)) := by
    cases h with | cons _ h => cases h with | cons _ h => cases h with | cons _ h =>
      cases h with | cons _ h => cases h with | cons _ h => exact h
  rw [List.forall₂_map_left_iff, List.forall₂_map_right_iff, List.forall₂_iff_get] at hstates
  have hall : (s.index : Nat) < Switch.all.length := by
    rw [Switch.length_all]
    exact s.index.isLt
  have hswitch : Switch.all[(s.index : Nat)] = s :=
    Switch.index_injective (Switch.index_getElem_all hall)
  have hreply := hstates.2 s.index hall (by simp) _ _ rfl rfl
  simp only [List.get_eq_getElem, hswitch, Board.replyTo, Option.some.injEq, Reply.byte.injEq,
    Vector.getElem_toList] at hreply
  rw [hreply]
  simp only [Introduction.discovery, SwitchTable.get?, Fin.getElem_fin, Vector.getElem_map,
    Option.some.injEq]
  cases i.states[(s.index : Nat)] <;> rfl

/-- A handshake that has got the replies of a board has read how its switches stand. -/
theorem yields_start (start : Board) :
    Platform.start.Yields Call.IsFree (Honest start) fun _ result ↦
      ∀ discovery, result = .ok discovery → discovery.switches.Mirrors start := by
  have hscript : ∀ q ∈ Handshake.script, Call.IsFree (.request q.2) := by
    have hnone : ∀ q ∈ Handshake.script, q.2 ≠ .pollChanges := by decide
    exact fun q hq hpoll ↦ hnone q hq (Option.some.inj hpoll)
  refine ((Handshake.follows_course.yields hscript).view _).andThen fun _ calls result hresult ↦ ?_
  cases result with
  | ok found =>
    rintro discovery ⟨⟩
    obtain ⟨-, _, ⟨i, rfl, rfl⟩, hreplies⟩ := hresult found rfl
    exact mirrors_of_introduction hreplies
  | error e => exact ⟨nofun, fun outcome _ discovery hok ↦ nomatch hok⟩

/-- Before there is a poll loop nobody asks what has changed. -/
private theorem pollReplies_of_unpolled (h : g.InStep Board.InOrder) (hpolls : g.watch.polls = []) :
    pollReplies g.said = [] := by
  rw [pollReplies, List.map_eq_nil_iff, List.filter_eq_nil_iff]
  intro p hp hpoll
  have hasked : p.1 ∈ g.watch.usage.events.asked.map Prod.snd :=
    h.books.said_asked.subset (List.mem_map_of_mem hp)
  obtain ⟨q, hq, hsame⟩ := List.mem_map.mp hasked
  obtain ⟨call, hcall, hcommand⟩ :=
    h.linked.sound.orderly.encoded_call q (List.mem_of_mem_filter hq)
  have hmem := h.polls_of q.1 (by rw [hcall, ← of_decide_eq_true hpoll, ← hsame]; exact hcommand)
  rw [hpolls] at hmem
  exact absurd hmem List.not_mem_nil

theorem started_mirrors {peer : String} {options : PlatformOptions}
    {schedule : List (List (Step Board))} (horder : start.InOrder)
    (h : started peer start options schedule = some g) :
    g.InStep Board.InOrder ∧ Reflects start g.said g.board ∧ ∃ moves switches,
      switches.Mirrors start ∧
        g.watch = .polling peer moves switches options.eventCapacity options.pollInterval := by
  obtain ⟨⟨later, result⟩, hconduct, hresult⟩ := Option.bind_eq_some_iff.mp h
  cases result with
  | error e => cases hresult
  | ok discovery =>
    cases hresult
    obtain ⟨steps, rfl⟩ := conduct_run hconduct
    have hstep := (inStep_fresh peer horder).run Board.faithful steps
    have hreflects := (reflects_self start).run (inStep_fresh peer horder) steps
    obtain ⟨moves, hmoves⟩ := (fresh peer start).watch_run steps
    have hmoves : ((fresh peer start).run steps).watch = (Watch.fresh peer).run moves := hmoves
    have hunpolled := pollReplies_of_unpolled hstep
      (hmoves ▸ (Watch.unpolled_run peer moves).polls_eq)
    obtain ⟨-, hmirrors⟩ := conduct_yields (Watch.linked_fresh peer) (yields_start start) hconduct
      (by
        rintro t call outcome hcall hsettled command reply rfl rfl
        have hsaid := hstep.own_reply hcall hsettled
        refine (hreflects.unpolled hunpolled command ?_).2 reply hsaid
        rintro rfl
        have hmem : reply ∈ pollReplies ((fresh peer start).run steps).said :=
          List.mem_map.mpr ⟨_, List.mem_filter.mpr ⟨hsaid, rfl⟩, rfl⟩
        rw [hunpolled] at hmem
        exact absurd hmem List.not_mem_nil)
    have hwatch : (((fresh peer start).run steps).beginPolling discovery.switches
        options.eventCapacity options.pollInterval).watch =
          .polling peer moves discovery.switches options.eventCapacity options.pollInterval := by
      rw [beginPolling, hmoves]
      rfl
    have hlinked := Watch.linked_polling peer moves discovery.switches options.eventCapacity
      options.pollInterval
    rw [← hwatch] at hlinked
    exact ⟨{ hstep with linked := hlinked }, hreflects, moves, discovery.switches,
      hmirrors discovery rfl, hwatch⟩

/-- **The table is a mirror.** Whenever the poll loop has got every reply that the board has given
to a poll, the host knows of each address what the board would answer if it were asked. -/
theorem mirrored_run {peer : String} {options : PlatformOptions}
    {schedule : List (List (Step Board))} (horder : start.InOrder)
    (hstarted : started peer start options schedule = some g) (steps : List (Step Board))
    (hcount : (g.run steps).board.polls =
      start.polls + ((g.run steps).watch.answers.filterMap Outcome.reply?).length) :
    ∀ s : Switch, (g.run steps).watch.session.switches.get? s =
      some (decide (((g.run steps).board.answer (Command.readSwitch s).frame).2 = some [1])) := by
  obtain ⟨hstep, hreflects, moves, switches, hmirrors, hwatch⟩ := started_mirrors horder hstarted
  have hreflects := hreflects.run hstep steps
  have hstep := hstep.run Board.faithful steps
  obtain ⟨more, hmore⟩ := g.watch_run steps
  rw [hwatch] at hmore
  have hkept := Watch.kept_run peer moves switches options.eventCapacity options.pollInterval more
  rw [← hmore] at hkept
  generalize g.run steps = g at *
  -- the poll loop has got all replies
  have hall : g.watch.answers.filterMap Outcome.reply? = pollReplies g.said := by
    refine hstep.polled.eq_of_length ?_
    have hpolls := hreflects.polls_eq
    omega
  have hlearnt : g.watch.session.switches =
      switches.learn ((pollReplies g.said).filterMap Reply.change?) := by
    rw [← hall, List.filterMap_filterMap]
    refine hkept.cached.trans ?_
    exact congrArg (switches.learn <| g.watch.answers.filterMap ·)
      (funext PollLoop.change?_eq_bind)
  intro s
  rw [hlearnt, hreflects.mirrors switches hmirrors s,
    Board.answer_readSwitch _ hstep.good.stays s]
  simp

/-- A command gets to the board at once, and the answer back. -/
def promptly (c : Command) : List (Step Board) :=
  [.move (.link .proceed), .move (.link (.accept 8)), .move (.link .flush), .hear c, .bring 8]

/-- The schedule of a handshake without delays. -/
def introduced : List (List (Step Board)) := Handshake.script.map fun q ↦ promptly q.2

/-- A board that has a change to report before anybody asks. -/
def eagerBoard : Board := { changes := [133] }

/-- It reports the change, and a status that names no address ends polling. -/
def reporting : List (Step Board) :=
  .incident (200 : UInt8) :: .move .advance :: promptly .pollChanges ++
    .move .advance :: .move .advance :: promptly .pollChanges

private theorem started_eagerBoard :
    ((started "board" eagerBoard ⟨1, 50⟩ introduced).map fun g ↦
        ((g.run reporting).board.polls,
          ((g.run reporting).watch.answers.filterMap Outcome.reply?).length)) =
      some (2, 2) := by
  decide +kernel

theorem mirrored_run_eagerBoard :
    ∃ g, started "board" eagerBoard ⟨1, 50⟩ introduced = some g ∧
      (g.run reporting).board.polls = 2 ∧
      ∀ s : Switch, (g.run reporting).watch.session.switches.get? s =
        some (decide (((g.run reporting).board.answer (Command.readSwitch s).frame).2 =
          some [1])) := by
  obtain ⟨g, hstarted, hcounts⟩ := Option.map_eq_some_iff.mp started_eagerBoard
  obtain ⟨hpolls, hanswers⟩ := Prod.mk.inj hcounts
  refine ⟨g, hstarted, hpolls, mirrored_run ⟨rfl, rfl, by decide⟩ hstarted reporting ?_⟩
  rw [hpolls, hanswers]
  rfl

/-- A board whose name ends before its end, and whose switch 5 is active. -/
def babblingBoard : Board :=
  { Board.setSwitchReply {} 5 1 with identifier := "LISY1\x00", displays := 1 }

private theorem started_babblingBoard :
    ((started "board" babblingBoard ⟨1, 50⟩ introduced).map fun g ↦
        (g.board.polls, (g.watch.answers.filterMap Outcome.reply?).length,
          g.watch.session.switches.get? ⟨5, by decide, by decide⟩,
          (g.board.answer (Command.readSwitch ⟨5, by decide, by decide⟩).frame).2)) =
      some (0, 0, some false, some [1]) := by
  decide +kernel

/-- What stands behind the terminator is taken for the answer to the next question, and so is every
answer from then on. All of them are proper by chance, and the handshake succeeds; but the host has
got each state for the switch after it. -/
theorem mirror_of_babblingBoard :
    (∀ s ∈ Switch.all, babblingBoard.switchReply s.number = 0 ∨
      babblingBoard.switchReply s.number = 1) ∧
    ∃ g, started "board" babblingBoard ⟨1, 50⟩ introduced = some g ∧
      g.board.polls =
        babblingBoard.polls + (g.watch.answers.filterMap Outcome.reply?).length ∧
      ∃ s : Switch, g.watch.session.switches.get? s ≠
        some (decide ((g.board.answer (Command.readSwitch s).frame).2 = some [1])) := by
  obtain ⟨g, hstarted, hnow⟩ := Option.map_eq_some_iff.mp started_babblingBoard
  obtain ⟨hpolls, hnow⟩ := Prod.mk.inj hnow
  obtain ⟨hanswers, hnow⟩ := Prod.mk.inj hnow
  obtain ⟨hknown, hanswer⟩ := Prod.mk.inj hnow
  refine ⟨by decide, g, hstarted, ?_, ⟨5, by decide, by decide⟩, ?_⟩
  · rw [hpolls, hanswers]
    rfl
  · rw [hknown, hanswer]
    decide

end HostAndBoard

end PinballBoard
