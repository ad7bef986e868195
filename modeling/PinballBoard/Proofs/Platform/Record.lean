import PinballBoard.Proofs.Platform.Shutdown

/-!
# Benches on record

A bench carries out a task with a stream in its hands: it settles, waits, and moves on. While there
is no poll loop each of its moves is a move of a watch, and the trace of the bench is what the watch
has seen. `Bench.records_converse` says so for whole tasks. So the laws of runs hold for benches:
only what has been asked is encoded, a stream is dropped once, and only a task that ends a stream
tells it to shut down.
-/

namespace PinballBoard

/-! ## Calls of a task -/

namespace Dialogue

variable {σ τ α β : Type} {Q Q' : Call → Prop} {d : Dialogue σ α}

/-- Every call that a task can make is of this kind. -/
def Asks (Q : Call → Prop) : Dialogue σ α → Prop
  | done _ _ => True
  | ask _ call next => Q call ∧ ∀ outcome, (next outcome).Asks Q

theorem Asks.mono (h : d.Asks Q) (hQ : ∀ call, Q call → Q' call) : d.Asks Q' := by
  induction d with
  | done state result => trivial
  | ask state call next ih => exact ⟨hQ call h.1, fun outcome ↦ ih outcome (h.2 outcome)⟩

theorem Asks.view (h : d.Asks Q) (f : σ → τ) : (d.view f).Asks Q := by
  induction d with
  | done state result => trivial
  | ask state call next ih => exact ⟨h.1, fun outcome ↦ ih outcome (h.2 outcome)⟩

theorem Asks.andThen (h : d.Asks Q) {k : σ → α → Dialogue σ β}
    (hk : ∀ state result, (k state result).Asks Q) : (d.andThen k).Asks Q := by
  induction d with
  | done state result => exact hk state result
  | ask state call next ih => exact ⟨h.1, fun outcome ↦ ih outcome (h.2 outcome)⟩

end Dialogue

/-! ## Sessions without a poll loop -/

theorem Watch.events_step {w : Watch} (hlinked : w.Linked) (hpoll : w.session.poll = none)
    (m : Move) :
    (w.step m).usage.events = w.usage.events ++ (w.session.step m).2 ∧
      (w.step m).session.poll = none := by
  have hticket : w.session.pollTicket? = none := by rw [Session.pollTicket?, hpoll]; rfl
  have hphase : w.session.phase? = none := by rw [Session.phase?, hpoll]; rfl
  -- all moves of the connection are noted alike
  have hact : ∀ (s : Session) (a : Action), (∀ t call, a ≠ .enter t call) →
      s.connection = w.session.connection → s.poll = none → w.session.turn? m = some (.act a) →
      w.session.step m = s.stepLink a →
      (w.step m).usage.events = w.usage.events ++ (w.session.step m).2 ∧
        (w.step m).session.poll = none := by
    intro s a ha hconnection hs hturn hstep
    have hlink := Bench.stepLink_of_no_poll hs a
    constructor
    · rw [Watch.step, hturn, hstep, hlink, hconnection, hlinked.connection_eq]
      exact congrArg Usage.events (Usage.step_act ha)
    · rw [Watch.step, hstep, hlink]
      exact hs
  cases m with
  | call call =>
    have hlink := Bench.stepLink_of_no_poll
      (s := { w.session with nextTicket := w.session.nextTicket + 1 }) hpoll
      (.enter w.session.nextTicket call)
    constructor
    · rw [Session.step, hlink, hlinked.nextTicket_eq, hlinked.connection_eq]
      rfl
    · rw [Watch.step, Session.step, hlink]
      exact hpoll
  | giveUp ticket =>
    have hother : w.session.pollTicket? ≠ some ticket := by simp [hticket]
    exact hact w.session (.cancel ticket) (by simp) rfl hpoll (if_neg hother) (if_neg hother)
  | abort => exact hact w.session .abort (by simp) rfl hpoll rfl rfl
  | link a =>
    by_cases ha : a.isProgress
    · refine hact w.session a ?_ rfl hpoll (if_pos ha) (if_pos ha)
      rintro t call rfl
      cases ha
    · have hturn : w.session.turn? (.link a) = none := if_neg ha
      have hstep : w.session.step (.link a) = (w.session, []) := if_neg ha
      rw [Watch.step, hturn, hstep]
      exact ⟨(List.append_nil _).symm, hpoll⟩
  | advance =>
    have hturn : w.session.turn? .advance = none := if_neg (by simp [hphase])
    have hstep : w.session.step .advance = (w.session, []) := by
      simp [Session.step, Session.advance?, hpoll]
    rw [Watch.step, hturn, hstep]
    exact ⟨(List.append_nil _).symm, hpoll⟩
  | cancelPolling =>
    have hturn : w.session.turn? .cancelPolling = none := by simp [Session.turn?, hticket]
    have hstep : w.session.step .cancelPolling = (w.session, []) := by
      simp [Session.step, Session.cancelPolling, hpoll]
    rw [Watch.step, hturn, hstep]
    exact ⟨(List.append_nil _).symm, hpoll⟩
  | take =>
    constructor
    · rw [Session.step]
      split <;> exact (List.append_nil _).symm
    · rw [Watch.step, Session.step]
      split <;> exact hpoll
  | abandon => exact ⟨(List.append_nil _).symm, hpoll⟩
  | elapse ms =>
    exact hact { w.session with clock := w.session.clock + ms } (.elapse ms) (by simp) rfl hpoll rfl
      rfl

theorem Watch.calls_step {w : Watch} {m : Move} (hm : ∀ call, m ≠ .call call)
    (hpoll : w.session.poll = none) : (w.step m).usage.calls = w.usage.calls := by
  have hphase : w.session.phase? = none := by rw [Session.phase?, hpoll]; rfl
  have hact : ∀ turn, w.session.turn? m = some turn → ∃ a, turn = .act a := by
    intro turn hturn
    cases m with
    | call call => exact absurd rfl (hm call)
    | advance =>
      obtain ⟨hready, -⟩ := Option.ite_none_right_eq_some.mp hturn
      rw [hphase] at hready
      cases hready
    | giveUp | link =>
      rw [Session.turn?] at hturn
      split at hturn <;> cases hturn
      exact ⟨_, rfl⟩
    | cancelPolling =>
      obtain ⟨t, -, rfl⟩ := Option.map_eq_some_iff.mp hturn
      exact ⟨_, rfl⟩
    | take | abandon => cases hturn
    | abort | elapse =>
      cases hturn
      exact ⟨_, rfl⟩
  rw [Watch.step]
  cases hturn : w.session.turn? m with
  | none => rfl
  | some turn =>
    obtain ⟨a, rfl⟩ := hact turn hturn
    cases a <;> rfl

/-! ## Watches behind benches -/

namespace Bench

variable {σ τ α : Type} [ByteStream σ] {b : Bench σ} {w : Watch}

/-- What a bench without a poll loop has gone through is what a watch has gone through. -/
structure Records (b : Bench σ) (w : Watch) : Prop where
  linked : w.Linked
  poll_none : w.session.poll = none
  session_eq : b.session = w.session
  trace_eq : b.trace.reverse = w.usage.events

omit [ByteStream σ] in
theorem records_ofStream (peer : String) (stream : σ) :
    (ofStream peer stream).Records (.fresh peer) where
  linked := Watch.linked_fresh peer
  poll_none := rfl
  session_eq := rfl
  trace_eq := rfl

theorem Records.move (h : b.Records w) (m : Move) : (b.move m).Records (w.step m) := by
  obtain ⟨hevents, hpoll⟩ := Watch.events_step h.linked h.poll_none m
  refine ⟨h.linked.run [m], hpoll, ?_, ?_⟩
  · rw [Bench.move, resume, session_foldl_note, h.session_eq]
    rfl
  · rw [Bench.move, resume, trace_foldl_note, List.reverse_append, List.reverse_reverse, hevents,
      h.session_eq, ← h.trace_eq]

/-- What needs no host is a move all the same. -/
theorem next?_eq_move {b' : Bench σ} (h : b.next? = some b') :
    ∃ stream m, (∀ call, m ≠ .call call) ∧ b' = Bench.move { b with stream } m := by
  rw [next?] at h
  split at h
  · rename_i a stream _
    cases h
    exact ⟨stream, .link a, by simp, rfl⟩
  · obtain ⟨later, hadvance, rfl⟩ := Option.map_eq_some_iff.mp h
    refine ⟨b.stream, .advance, by simp, ?_⟩
    rw [Bench.move, Session.step, hadvance]
    rfl

section Invariants

variable {P : Bench σ → Prop} {Q : Call → Prop} {enough : Bench σ → Bool} {deadline : Nat}

theorem settleWithin_invariant (hnext : ∀ b b', P b → b.next? = some b' → P b') (fuel : Nat)
    (h : P b) : P (settleWithin enough fuel b) := by
  induction fuel generalizing b with
  | zero => exact h
  | succ fuel ih =>
    rw [settleWithin]
    split
    · exact h
    · cases hcase : b.next? with
      | none => exact h
      | some b' => exact ih (hnext b b' h hcase)

/-- What the moves that need no host keep, and what time keeps, is kept by waiting. -/
theorem waitWithin_invariant (hnext : ∀ b b', P b → b.next? = some b' → P b')
    (helapse : ∀ b ms, P b → P (b.move (.elapse ms))) (fuel : Nat) (h : P b) :
    P (waitWithin deadline enough fuel b) := by
  induction fuel generalizing b with
  | zero => exact settleWithin_invariant hnext restLimit h
  | succ fuel ih =>
    have hsettled : P (b.settleUntil enough) := settleWithin_invariant hnext restLimit h
    rw [waitWithin]
    split
    · exact hsettled
    · exact ih (helapse _ _ hsettled)

private theorem await_invariant
    (hmove : ∀ b (stream : σ) m, (∀ call, m ≠ .call call) → P b →
      P (Bench.move { b with stream } m))
    (houtcomes : ∀ b outcomes, P b → P { b with outcomes }) (t : Ticket) (h : P b) :
    P (b.await deadline t).2 := by
  have hnext : ∀ b b', P b → b.next? = some b' → P b' := by
    intro b b' hb hcase
    obtain ⟨stream, m, hm, rfl⟩ := next?_eq_move hcase
    exact hmove b stream m hm hb
  have hwaited : P (b.waitUntil deadline fun b ↦ (b.outcome? t).isSome) :=
    waitWithin_invariant hnext (fun b _ hb ↦ hmove b b.stream _ (by simp) hb) _ h
  rw [await]
  split
  · exact houtcomes _ _ hwaited
  · exact hmove _ _ (.giveUp t) (by simp) hwaited

theorem converse_call (deadline : Nat) (state : τ) (call : Call) (next : Outcome → Dialogue τ α)
    (b : Bench σ) :
    b.converse deadline (.ask state call next) =
      match (b.enter call).2.await deadline (b.enter call).1 with
      | (some outcome, b') => b'.converse deadline (next outcome)
      | (none, b') => ((state, none), b') :=
  (converse.eq_2 ..).trans rfl

/-- A task ends with its last call. -/
theorem converse_last {deadline : Nat} {state state' : τ} {call : Call} {outcome : Outcome}
    {result : α} {b b' : Bench σ}
    (h : (b.enter call).2.await deadline (b.enter call).1 = (some outcome, b')) :
    b.converse deadline (.ask state call fun _ ↦ .done state' result) =
      ((state', some result), b') := by
  rw [converse_call, h]
  rfl

/-- An invariant of a task is proved move by move: for its calls, and for all that happens
besides. -/
theorem converse_induction (hcall : ∀ b call, Q call → P b → P (b.move (.call call)))
    (hmove : ∀ b (stream : σ) m, (∀ call, m ≠ .call call) → P b →
      P (Bench.move { b with stream } m))
    (houtcomes : ∀ b outcomes, P b → P { b with outcomes }) {d : Dialogue τ α} (hd : d.Asks Q)
    (h : P b) : P (b.converse deadline d).2 := by
  induction d generalizing b with
  | done state result => exact h
  | ask state call next ih =>
    have hended : P ((b.enter call).2.await deadline (b.enter call).1).2 :=
      await_invariant hmove houtcomes _ (hcall b call hd.1 h)
    rw [converse_call]
    generalize (b.enter call).2.await deadline (b.enter call).1 = ended at hended ⊢
    obtain ⟨outcome?, b'⟩ := ended
    cases outcome? with
    | none => exact hended
    | some outcome => exact ih outcome (hd.2 outcome) hended

end Invariants

/-- **A bench is a run.** Whatever comes of a task on a connection without a poll loop, a watch
could have gone through it, and no calls have been made but those of the task. -/
theorem records_converse {Q : Call → Prop} {d : Dialogue τ α} (hd : d.Asks Q) (deadline : Nat)
    (h : b.Records w) (hcalls : ∀ call ∈ w.usage.calls, Q call) :
    ∃ w', (b.converse deadline d).2.Records w' ∧ ∀ call ∈ w'.usage.calls, Q call := by
  refine converse_induction (P := fun b ↦ ∃ w, b.Records w ∧ ∀ call ∈ w.usage.calls, Q call)
    ?_ ?_ ?_ hd ⟨w, h, hcalls⟩
  · rintro b call hcall ⟨w, hrecords, hcalls⟩
    refine ⟨w.step (.call call), hrecords.move _, fun other hother ↦ ?_⟩
    have hother : other ∈ w.usage.calls ++ [call] := hother
    rcases List.mem_append.mp hother with hold | hnew
    · exact hcalls other hold
    · exact List.mem_singleton.mp hnew ▸ hcall
  · rintro b stream m hm ⟨w, hrecords, hcalls⟩
    have hsame : ({ b with stream } : Bench σ).Records w :=
      ⟨hrecords.linked, hrecords.poll_none, hrecords.session_eq, hrecords.trace_eq⟩
    refine ⟨w.step m, hsame.move m, ?_⟩
    rwa [Watch.calls_step hm hrecords.poll_none]
  · rintro b outcomes ⟨w, hrecords, hcalls⟩
    exact ⟨w, ⟨hrecords.linked, hrecords.poll_none, hrecords.session_eq, hrecords.trace_eq⟩, hcalls⟩

section Records

omit [ByteStream σ]

/-- The stream of a bench has been dropped once, unless it is still there. -/
theorem Records.count_dropped (h : b.Records w) :
    b.trace.count .dropped + b.session.connection.streams = 1 := by
  obtain ⟨peer, turns, husage⟩ := h.linked.usage_eq
  have hone := Usage.one_stream peer turns
  rwa [← husage, ← h.trace_eq, List.count_reverse, ← h.linked.connection_eq, ← h.session_eq] at hone

theorem Records.close_of_shutdown (h : b.Records w) (hshutdown : .shutdown ∈ b.trace) :
    .close ∈ w.usage.calls := by
  obtain ⟨peer, turns, husage⟩ := h.linked.usage_eq
  rw [husage]
  apply Usage.close_of_shutdown peer turns
  rw [← husage, ← h.trace_eq]
  exact List.mem_reverse.mpr hshutdown

theorem Records.call_of_encoded (h : b.Records w) {t : Ticket} {command : Command}
    (hmem : .encoded t command ∈ b.trace) :
    ∃ call ∈ w.usage.calls, call.command? = some command := by
  have hencoded : (t, command) ∈ w.usage.encoded := by
    rw [Usage.encoded, ← h.trace_eq]
    exact List.mem_filterMap.mpr ⟨_, List.mem_reverse.mpr hmem, rfl⟩
  obtain ⟨call, hcall, hcommand⟩ := h.linked.sound.orderly.encoded_call _ hencoded
  exact ⟨call, List.mem_of_getElem? hcall, hcommand⟩

end Records

end Bench

end PinballBoard
