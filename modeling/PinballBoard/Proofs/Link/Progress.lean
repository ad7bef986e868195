import PinballBoard.Proofs.Link.Smooth

/-!
# Getting on

The task at the head of a line waits for one thing at a time: to run, for the stream to take its
bytes, for the stream to pass them on, or for its reply (`Needs`). Whatever else happens leaves it
where it is, and what it waits for brings it to a later stage, out of the line, or at least closer
to the end of what it has to write (`progress_or_stays`).

A call ends when all that stand in front of it have gone through their stages, and then itself. So
the stages that are to come up to its end (`left`) are a number that only becomes smaller. Tasks
that come later stand behind and do not count.
-/

namespace PinballBoard

/-- The number of stages that are still to come. -/
def Stage.left : Stage → Nat
  | waiting => 3
  | draining => 2
  | writing => 1
  | reading => 0

namespace Connection

/-- The number of stages that are to come in a line up to the end of a call. -/
def left (t : Ticket) : List Caller → Nat
  | [] => 0
  | k :: line => if k.ticket ≤ t then k.stage.left + 1 + left t line else 0

theorem left_le (t : Ticket) (line : List Caller) : left t line ≤ 4 * line.length := by
  induction line with
  | nil => exact Nat.le_refl 0
  | cons k line ih =>
    have hstage : k.stage.left ≤ 3 := by cases k.stage <;> decide
    rw [left, List.length_cons]
    split <;> omega

/-- Who comes later does not count. -/
theorem left_append_of_lt {t : Ticket} (line : List Caller) {k : Caller} (hk : t < k.ticket) :
    left t (line ++ [k]) = left t line := by
  induction line with
  | nil => exact if_neg (Nat.not_le_of_lt hk)
  | cons first line ih => rw [List.cons_append, left, left, ih]

variable {c : Connection} {k : Caller} {rest : List Caller} {l : Link} {command : Command}

/-- The task at the head has left, or has got to a later stage. -/
def Progress (k : Caller) (rest line : List Caller) : Prop :=
  line = rest ∨ ∃ stage : Stage, stage.left < k.stage.left ∧ line = { k with stage } :: rest

theorem Progress.left_lt {t : Ticket} {line : List Caller} (h : Progress k rest line)
    (hk : k.ticket ≤ t) : left t line < left t (k :: rest) := by
  have hleft : left t (k :: rest) = k.stage.left + 1 + left t rest := if_pos hk
  rcases h with rfl | ⟨stage, hstage, rfl⟩
  · omega
  · have hlater : left t ({ k with stage } :: rest) = stage.left + 1 + left t rest := if_pos hk
    omega

/-- What the task at the head waits for. Who reads waits for bytes, of which any can be the last. -/
inductive Needs (k : Caller) (l : Link) : Action → Prop where
  | proceed (hstage : k.stage = .waiting) : Needs k l .proceed
  | accept {count : Nat} (hstage : k.stage = .draining ∨ k.stage = .writing)
      (hfull : l.outgoing ≠ []) : Needs k l (.accept count)
  | flush (hstage : k.stage = .draining ∨ k.stage = .writing) (hempty : l.outgoing = []) :
      Needs k l .flush

private theorem progress_submit (hline : c.line = k :: rest) (hstage : 1 < k.stage.left) :
    Progress k rest (c.submit l k command).1.line := by
  unfold submit
  split
  · exact .inr ⟨.writing, hstage, by simp [setStage, hline]⟩
  · exact .inl (by simp [leave, hline])

theorem progress_proceed (hline : c.line = k :: rest) (hlink : c.link = some l)
    (hopen : c.aborted = false) (hstage : k.stage = .waiting)
    (hcall : k.call.command? = some command) : Progress k rest (c.step .proceed).1.line := by
  have hleft : k.stage.left = 3 := by rw [hstage]; rfl
  have hheed : c.heedAbort = (c, []) := if_neg (by simp [hopen])
  have hproceed : (c.step .proceed).1 = (c.serve k).1 := by
    simp [step, proceed, hline, hstage, hheed]
  rw [hproceed]
  cases hmade : k.call with
  | probe | close =>
    rw [hmade] at hcall
    cases hcall
  | send | request =>
    simp only [serve, hmade, hlink]
    split
    · exact .inr ⟨.draining, by rw [hleft]; decide, by simp [setStage, hline]⟩
    · exact progress_submit hline (by omega)

theorem progress_flush (hline : c.line = k :: rest) (hlink : c.link = some l)
    (hempty : l.outgoing = []) (hstage : k.stage = .draining ∨ k.stage = .writing)
    (hcall : k.call.command? = some command) : Progress k rest (c.step .flush).1.line := by
  have hwriter : c.writer? = some (k, l) := by simp [writer?, hline, hlink, hstage]
  have hflush : (c.step .flush).1 = (c.flushed l k).1 := by
    simp [step, flush, hwriter, hempty]
  rw [hflush]
  have hnone : ∀ {made : Call}, k.call = made → made.command? ≠ none := by
    rintro made rfl
    rw [hcall]
    exact Option.some_ne_none _
  rcases hstage with hstage | hstage
  · have hleft : 1 < k.stage.left := by rw [hstage]; decide
    cases hmade : k.call with
    | probe | close => exact absurd rfl (hnone hmade)
    | send | request =>
      simp only [flushed, hstage, hmade]
      exact progress_submit hline hleft
  · cases hmade : k.call with
    | probe | close => exact absurd rfl (hnone hmade)
    | send =>
      simp only [flushed, hstage, hmade]
      exact .inl (by simp [leave, hline])
    | request =>
      simp only [flushed, hstage, hmade]
      unfold deliver
      split
      · exact .inl (by simp [leave, setStage, hline])
      · exact .inr ⟨.reading, by rw [hstage]; decide, by simp [setStage, hline]⟩
      · exact .inl (by simp [leave, setStage, hline])

/-- The task at the head stays where it is. It has less to write, or what it waits for has not
happened. -/
def Stays (c : Connection) (k : Caller) (l : Link) (a : Action) : Prop :=
  ∃ l', (c.step a).1 = { c with link := some l' } ∧ Trace.encoded (c.step a).2 = [] ∧
    (l'.outgoing.length < l.outgoing.length ∨ l'.outgoing = l.outgoing ∧ ¬Needs k l a)

/-- What does not apply changes nothing. -/
private theorem stays_of_idle {a : Action} (hlink : c.link = some l) (hidle : c.step a = (c, []))
    (hneeds : ¬Needs k l a) : c.Stays k l a := by
  rw [Stays, hidle]
  exact ⟨l, by rw [← hlink], rfl, .inr ⟨rfl, hneeds⟩⟩

private theorem stays_accept {count : Nat} (hline : c.line = k :: rest) (hlink : c.link = some l)
    (hcount : count ≠ 0) : c.Stays k l (.accept count) := by
  by_cases hwrites : k.stage = .draining ∨ k.stage = .writing
  · have hwriter : c.writer? = some (k, l) := by simp [writer?, hline, hlink, hwrites]
    by_cases hfull : l.outgoing = []
    · refine stays_of_idle hlink (by simp [step, accept, hwriter, hfull]) ?_
      rintro (_ | ⟨-, hnot⟩)
      exact hnot hfull
    · have hstep : c.step (.accept count) =
          ({ c with link := some (l.taken count) }, [.accepted (l.outgoing.take count)]) := by
        simp [step, accept, hwriter, hfull, hcount]
      have hpos := List.length_pos_iff.mpr hfull
      rw [Stays, hstep]
      refine ⟨_, rfl, rfl, .inl ?_⟩
      rw [Link.taken, List.length_drop]
      omega
  · refine stays_of_idle hlink (by simp [step, accept, writer?, hline, hlink, hwrites]) ?_
    rintro (_ | ⟨hstage, -⟩)
    exact hwrites hstage

private theorem progress_or_stays_receive (chunk : Bytes) (hline : c.line = k :: rest)
    (hlink : c.link = some l) :
    Progress k rest (c.step (.receive chunk)).1.line ∨ c.Stays k l (.receive chunk) := by
  have hneeds : ¬Needs k l (.receive chunk) := by rintro ⟨⟩
  by_cases hreads : k.stage = .reading ∧ chunk ≠ []
  · have hreader : c.reader? = some (k, l) := by simp [reader?, hline, hlink, hreads.1]
    have hstep : c.step (.receive chunk) =
        { c with link := some (l.received chunk) }.deliver (l.received chunk) := by
      simp [step, receive, hreader, hreads.2]
    rw [Stays, hstep, deliver]
    split
    · exact .inl (.inl (by simp [leave, hline]))
    · exact .inr ⟨_, rfl, rfl, .inr ⟨l.received_outgoing chunk, hneeds⟩⟩
    · exact .inl (.inl (by simp [leave, hline]))
  · refine .inr (stays_of_idle hlink ?_ hneeds)
    rw [not_and_or, not_not] at hreads
    rcases hreads with hstage | rfl
    · simp [step, receive, reader?, hline, hlink, hstage]
    · rw [step, receive]
      split <;> simp

/-- **The task at the head gets on, or what it waits for has not happened.** -/
theorem progress_or_stays {a : Action} (hline : c.line = k :: rest) (hlink : c.link = some l)
    (hopen : c.aborted = false) (hcloser : c.closer = none)
    (hcall : k.call.command? = some command) (ha : a.isSmooth) :
    Progress k rest (c.step a).1.line ∨ c.Stays k l a := by
  cases a with
  | proceed =>
    by_cases hstage : k.stage = .waiting
    · exact .inl (progress_proceed hline hlink hopen hstage hcall)
    · refine .inr (stays_of_idle hlink (by simp [step, proceed, hline, hstage]) ?_)
      rintro ⟨hwaiting⟩
      exact hstage hwaiting
  | accept count => exact .inr (stays_accept hline hlink (bne_iff_ne.mp ha))
  | flush =>
    by_cases hwrites : k.stage = .draining ∨ k.stage = .writing
    · by_cases hempty : l.outgoing = []
      · exact .inl (progress_flush hline hlink hempty hwrites hcall)
      · refine .inr (stays_of_idle hlink
          (by simp [step, flush, writer?, hline, hlink, hwrites, hempty]) ?_)
        rintro (_ | _ | ⟨-, hnot⟩)
        exact hempty hnot
    · refine .inr (stays_of_idle hlink
        (by simp [step, flush, writer?, hline, hlink, hwrites]) ?_)
      rintro (_ | _ | ⟨hstage, -⟩)
      exact hwrites hstage
  | receive chunk => exact progress_or_stays_receive chunk hline hlink
  | closerAccept | closerFlush | shutdownEnds =>
    refine .inr (stays_of_idle hlink ?_ (by rintro ⟨⟩))
    simp [step, closerAccept, closerFlush, shutdownEnds, updateCloser, hcloser]
  | elapse ms => exact .inr (stays_of_idle hlink (by simp [step, elapse, hcloser]) (by rintro ⟨⟩))
  | enter | writeFails | ends | readFails | cancel | abort | closerWriteFails => cases ha

end Connection

end PinballBoard
