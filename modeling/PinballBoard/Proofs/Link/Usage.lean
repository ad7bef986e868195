import Mathlib.Data.List.Induction
import PinballBoard.Proofs.Link.Order

/-!
# Connections in use

A connection is used by any number of tasks at once. What they do reaches it one action at a time,
in any order, and so does what the stream does for them. `Usage` is a connection together with all
that has been noted since it was opened; `Usage.run` takes it through any list of turns. A statement
about all lists of turns is a statement about all interleavings, cancellations at any moment and any
behaviour of the stream.

The usage hands out the tickets: the call made first gets ticket 0, the next one ticket 1, and so
on. So the ticket of a call tells when it was made, and `calls` tells what it asked.

## What holds in every usage

`Usage.Sound` says that the line is in order (`Orderly`), and that a call that has ended is not in
line any more. `sound_run` proves it of every usage.
-/

namespace PinballBoard

/-! ## Traces -/

/-- The bytes that the stream has taken in an event. -/
@[simp] def Event.bytes : Event → Bytes
  | .accepted bytes => bytes
  | _ => []

/-- The call whose command the codec has accepted in an event. -/
@[simp] def Event.encoding? : Event → Option (Ticket × Command)
  | .encoded ticket command => some (ticket, command)
  | _ => none

/-- The call that has got the lock in an event. -/
@[simp] def Event.locking? : Event → Option Ticket
  | .locked ticket => some ticket
  | _ => none

/-- The call that has ended in an event, and how. -/
@[simp] def Event.settling? : Event → Option (Ticket × Outcome)
  | .settled ticket outcome => some (ticket, outcome)
  | _ => none

/-- What has been noted, oldest first. -/
abbrev Trace := List Event

namespace Trace

/-- The bytes that the stream has taken. -/
def written (t : Trace) : Bytes := t.flatMap Event.bytes

/-- The calls whose commands the codec has accepted, oldest first. -/
def encoded (t : Trace) : List (Ticket × Command) := t.filterMap Event.encoding?

/-- The calls that have got the lock, oldest first. -/
def locked (t : Trace) : List Ticket := t.filterMap Event.locking?

/-- The calls that have ended, and how, oldest first. -/
def settled (t : Trace) : List (Ticket × Outcome) := t.filterMap Event.settling?

@[simp] theorem written_nil : written [] = [] := rfl

@[simp] theorem written_cons (e : Event) (t : Trace) :
    written (e :: t) = e.bytes ++ written t := rfl

@[simp] theorem written_append (t s : Trace) : written (t ++ s) = written t ++ written s :=
  List.flatMap_append

@[simp] theorem encoded_nil : encoded [] = [] := rfl

@[simp] theorem encoded_cons (e : Event) (t : Trace) :
    encoded (e :: t) = e.encoding?.toList ++ encoded t := by
  cases e <;> rfl

@[simp] theorem encoded_append (t s : Trace) : encoded (t ++ s) = encoded t ++ encoded s :=
  List.filterMap_append

@[simp] theorem locked_nil : locked [] = [] := rfl

@[simp] theorem locked_cons (e : Event) (t : Trace) :
    locked (e :: t) = e.locking?.toList ++ locked t := by
  cases e <;> rfl

@[simp] theorem locked_append (t s : Trace) : locked (t ++ s) = locked t ++ locked s :=
  List.filterMap_append

@[simp] theorem settled_nil : settled [] = [] := rfl

@[simp] theorem settled_cons (e : Event) (t : Trace) :
    settled (e :: t) = e.settling?.toList ++ settled t := by
  cases e <;> rfl

@[simp] theorem settled_append (t s : Trace) : settled (t ++ s) = settled t ++ settled s :=
  List.filterMap_append

theorem mem_settled {t : Trace} {k : Ticket} {outcome : Outcome} :
    (k, outcome) ∈ t.settled ↔ Event.settled k outcome ∈ t := by
  rw [settled, List.mem_filterMap]
  constructor
  · rintro ⟨e, he, hsettling⟩
    cases e with
    | settled =>
      cases hsettling
      exact he
    | _ => cases hsettling
  · exact fun hmem ↦ ⟨_, hmem, rfl⟩

theorem mem_of_lookup {t : Trace} {k : Ticket} {outcome : Outcome}
    (h : t.settled.lookup k = some outcome) : Event.settled k outcome ∈ t := by
  obtain ⟨before, after, hsplit, -⟩ := List.lookup_eq_some_iff.mp h
  exact mem_settled.mp (by simp [hsplit])

@[simp] theorem settled_dropped (l : Option Link) : settled (droppedEvents l) = [] := by
  cases l <;> rfl

@[simp] theorem settled_not_mem_dropped (t : Ticket) (outcome : Outcome) (l : Option Link) :
    Event.settled t outcome ∉ droppedEvents l := by
  cases l <;> simp [droppedEvents]

@[simp] theorem written_dropped (l : Option Link) : written (droppedEvents l) = [] := by
  cases l <;> rfl

@[simp] theorem encoded_dropped (l : Option Link) : encoded (droppedEvents l) = [] := by
  cases l <;> rfl

@[simp] theorem locked_dropped (l : Option Link) : locked (droppedEvents l) = [] := by
  cases l <;> rfl

end Trace

/-! ## Usages -/

/-- A connection in use, and what has been noted of it. -/
structure Usage where
  connection : Connection
  /-- The calls that have been made; the place of a call is its ticket. -/
  calls : List Call
  events : Trace

/-- What can happen to a connection in use. -/
inductive Turn where
  /-- A task makes a call. -/
  | call (call : Call)
  /-- Anything else. -/
  | act (action : Action)

namespace Usage

/-- A connection over a stream that has just been opened. -/
def fresh (peer : String) : Usage := ⟨.fresh peer, [], []⟩

/-- The connection makes a step. -/
def act (u : Usage) (action : Action) : Usage :=
  { u with
    connection := (u.connection.step action).1
    events := u.events ++ (u.connection.step action).2 }

/-- One turn. Nobody picks a ticket for himself. -/
def step (u : Usage) : Turn → Usage
  | .call call => { u.act (.enter u.calls.length call) with calls := u.calls ++ [call] }
  | .act (.enter _ _) => u
  | .act action => u.act action

/-- Any number of turns. -/
def run (u : Usage) (turns : List Turn) : Usage := turns.foldl step u

/-- The bytes that the stream has taken. -/
def written (u : Usage) : Bytes := u.events.written

/-- The calls whose commands the codec has accepted, with these commands, oldest first. -/
def encoded (u : Usage) : List (Ticket × Command) := u.events.encoded

/-- The calls that have got the lock, oldest first. -/
def locked (u : Usage) : List Ticket := u.events.locked

theorem written_act (u : Usage) (a : Action) :
    (u.act a).written = u.written ++ Trace.written (u.connection.step a).2 :=
  Trace.written_append _ _

theorem encoded_act (u : Usage) (a : Action) :
    (u.act a).encoded = u.encoded ++ Trace.encoded (u.connection.step a).2 :=
  Trace.encoded_append _ _

/-- A call has been made and is not in line any more. -/
def Gone (u : Usage) (t : Ticket) : Prop :=
  t < u.calls.length ∧ ∀ k ∈ u.connection.line, k.ticket ≠ t

theorem step_act {u : Usage} {a : Action} (ha : ∀ t call, a ≠ .enter t call) :
    u.step (.act a) = u.act a := by
  cases a with
  | enter t call => exact absurd rfl (ha t call)
  | _ => rfl

/-- What holds in every usage. -/
structure Sound (u : Usage) : Prop where
  orderly : Orderly u.calls u.connection.line u.locked u.encoded
  settled_gone : ∀ t outcome, Event.settled t outcome ∈ u.events → u.Gone t
  closer_gone : ∀ k, u.connection.closer = some k →
    u.Gone k.ticket ∧ u.calls[k.ticket]? = some .close

theorem Sound.behind_waiting {u : Usage} (h : u.Sound) {caller : Caller} {rest : List Caller}
    (hline : u.connection.line = caller :: rest) : ∀ k ∈ rest, k.stage = .waiting := by
  have htail := h.orderly.tail_waiting
  rwa [hline] at htail

theorem sound_fresh (peer : String) : (fresh peer).Sound := by
  refine ⟨Orderly.init, ?_, ?_⟩ <;> simp [fresh, Connection.fresh]

/-- An invariant of usages is proved turn by turn: for the calls, and for all other actions. -/
theorem run_induction {P : Usage → Prop} (peer : String) (hfresh : P (fresh peer))
    (hcall : ∀ u call, P u → P (u.step (.call call)))
    (hact : ∀ u action, (∀ t call, action ≠ .enter t call) → P u → P (u.act action))
    (turns : List Turn) : P ((fresh peer).run turns) := by
  have hstep : ∀ u turn, P u → P (u.step turn) := by
    intro u turn h
    cases turn with
    | call call => exact hcall u call h
    | act action =>
      cases action with
      | enter t call => exact h
      | _ => exact hact u _ (by simp) h
  -- histories grow at the end, and so does the induction
  induction turns using List.reverseRecOn with
  | nil => exact hfresh
  | append_singleton turns turn ih =>
    rw [run, List.foldl_append]
    exact hstep _ turn ih

/-! ## Every usage is sound -/

variable {u : Usage}

theorem step_call_of_refusal {call : Call} {e : LinkError} (hcall : call.refusal = some e) :
    u.step (.call call) =
      { u with
        calls := u.calls ++ [call]
        events := u.events ++ [.settled u.calls.length (.failed e)] } := by
  simp [step, act, Connection.step, Connection.enter, hcall]

theorem step_call_of_not_refusal {call : Call} (hcall : call.refusal = none) :
    u.step (.call call) =
      { u with
        connection := { u.connection with
          line := u.connection.line ++ [⟨u.calls.length, call, .waiting⟩] }
        calls := u.calls ++ [call] } := by
  simp [step, act, Connection.step, Connection.enter, hcall]

theorem Gone.call {t : Ticket} (h : u.Gone t) (call : Call) : (u.step (.call call)).Gone t := by
  have hlt : t < (u.calls ++ [call]).length := by
    rw [List.length_append]
    exact Nat.lt_add_right _ h.1
  cases hcall : call.refusal with
  | some e =>
    rw [step_call_of_refusal hcall]
    exact ⟨hlt, h.2⟩
  | none =>
    rw [step_call_of_not_refusal hcall]
    refine ⟨hlt, fun k hk ↦ ?_⟩
    rcases List.mem_append.mp hk with hk | hk
    · exact h.2 k hk
    · rw [List.mem_singleton.mp hk]
      exact Nat.ne_of_gt h.1

theorem Sound.call (h : u.Sound) (call : Call) : (u.step (.call call)).Sound := by
  have hcloser : ∀ k, u.connection.closer = some k →
      (u.step (.call call)).Gone k.ticket ∧ (u.calls ++ [call])[k.ticket]? = some .close := by
    intro k hk
    obtain ⟨hgone, hclose⟩ := h.closer_gone k hk
    exact ⟨hgone.call call, by rw [List.getElem?_append_left hgone.1, hclose]⟩
  have hsettled : ∀ t outcome, Event.settled t outcome ∈ u.events →
      (u.step (.call call)).Gone t :=
    fun t outcome hmem ↦ (h.settled_gone t outcome hmem).call call
  cases hcall : call.refusal with
  | some e =>
    rw [step_call_of_refusal hcall] at hcloser hsettled ⊢
    refine ⟨?_, fun t outcome hmem ↦ ?_, hcloser⟩
    · simpa [locked, encoded] using h.orderly.refuse call
    · rcases List.mem_append.mp hmem with hmem | hmem
      · exact hsettled t outcome hmem
      · obtain ⟨rfl, -⟩ : t = u.calls.length ∧ outcome = .failed e := by simpa using hmem
        exact ⟨by simp, fun k hk ↦ Nat.ne_of_lt (h.orderly.ticket_lt hk)⟩
  | none =>
    rw [step_call_of_not_refusal hcall] at hcloser hsettled ⊢
    exact ⟨by simpa [locked, encoded] using h.orderly.enqueue hcall, hsettled, hcloser⟩

/-- What a step that is no new call has to show. Whoever is in line after it was in line before. -/
theorem Sound.of_change (h : u.Sound) {c : Connection} {events : Trace}
    (horderly : Orderly u.calls c.line (u.locked ++ events.locked) (u.encoded ++ events.encoded))
    (hline : ∀ k ∈ c.line, ∃ k' ∈ u.connection.line, k'.ticket = k.ticket)
    (hsettled : ∀ t outcome, Event.settled t outcome ∈ events →
      t < u.calls.length ∧ ∀ k ∈ c.line, k.ticket ≠ t)
    (hcloser : ∀ k, c.closer = some k →
      (k.ticket < u.calls.length ∧ ∀ k' ∈ c.line, k'.ticket ≠ k.ticket) ∧
        u.calls[k.ticket]? = some .close) :
    Sound { u with connection := c, events := u.events ++ events } := by
  refine ⟨by simpa [locked, encoded] using horderly, fun t outcome hmem ↦ ?_, hcloser⟩
  rcases List.mem_append.mp hmem with hmem | hmem
  · obtain ⟨hlt, hne⟩ := h.settled_gone t outcome hmem
    refine ⟨hlt, fun k hk ↦ ?_⟩
    obtain ⟨k', hk', hticket⟩ := hline k hk
    exact hticket ▸ hne k' hk'
  · exact hsettled t outcome hmem

private theorem Gone.of_line {t : Ticket} (h : u.Gone t) {line : List Caller}
    (hline : ∀ k ∈ line, ∃ k' ∈ u.connection.line, k'.ticket = k.ticket) :
    t < u.calls.length ∧ ∀ k ∈ line, k.ticket ≠ t := by
  refine ⟨h.1, fun k hk ↦ ?_⟩
  obtain ⟨k', hk', hticket⟩ := hline k hk
  exact hticket ▸ h.2 k' hk'

section Head

variable {c : Connection} {caller : Caller} {rest : List Caller} {events : Trace}

/-- The head leaves the line and ends his call. -/
private theorem Sound.of_leave (h : u.Sound) (hline : u.connection.line = caller :: rest)
    (hrest : c.line = rest) (hcloser : c.closer = u.connection.closer)
    (horderly : Orderly u.calls rest (u.locked ++ events.locked) (u.encoded ++ events.encoded))
    (hsettled : ∀ t outcome, Event.settled t outcome ∈ events → t = caller.ticket) :
    Sound { u with connection := c, events := u.events ++ events } := by
  have hsub : ∀ k ∈ c.line, ∃ k' ∈ u.connection.line, k'.ticket = k.ticket := by
    rw [hrest, hline]
    exact fun k hk ↦ ⟨k, List.mem_cons_of_mem _ hk, rfl⟩
  have hhead := hline ▸ h.orderly
  refine h.of_change (by rwa [hrest]) hsub (fun t outcome hmem ↦ ?_) fun k hk ↦ ?_
  · rw [hsettled t outcome hmem, hrest]
    exact ⟨hhead.ticket_lt List.mem_cons_self, fun k hk ↦ hhead.ticket_ne_head hk⟩
  · obtain ⟨hgone, hclose⟩ := h.closer_gone k (hcloser ▸ hk)
    exact ⟨hgone.of_line hsub, hclose⟩

/-- The head gets to another stage. -/
private theorem Sound.of_stay (h : u.Sound) {stage : Stage}
    (hline : u.connection.line = caller :: rest)
    (hrest : c.line = { caller with stage := stage } :: rest)
    (hcloser : c.closer = u.connection.closer)
    (horderly : Orderly u.calls ({ caller with stage := stage } :: rest)
      (u.locked ++ events.locked) (u.encoded ++ events.encoded))
    (hsettled : ∀ t outcome, Event.settled t outcome ∉ events) :
    Sound { u with connection := c, events := u.events ++ events } := by
  have hsub : ∀ k ∈ c.line, ∃ k' ∈ u.connection.line, k'.ticket = k.ticket := by
    rw [hrest, hline]
    exact List.forall_mem_cons.mpr ⟨⟨caller, List.mem_cons_self, rfl⟩,
      fun k hk ↦ ⟨k, List.mem_cons_of_mem _ hk, rfl⟩⟩
  refine h.of_change (by rwa [hrest]) hsub (fun t outcome hmem ↦ ?_) fun k hk ↦ ?_
  · exact absurd hmem (hsettled t outcome)
  · obtain ⟨hgone, hclose⟩ := h.closer_gone k (hcloser ▸ hk)
    exact ⟨hgone.of_line hsub, hclose⟩

end Head

/-- Something happens to the stream or to the task that ends it, and the line stays as it is or
loses some tasks. -/
private theorem Sound.of_aside (h : u.Sound) {c : Connection} {events : Trace}
    (hsub : c.line.Sublist u.connection.line)
    (hcloser : ∀ k, c.closer = some k → ∃ k', u.connection.closer = some k' ∧ k'.ticket = k.ticket)
    (hlocked : events.locked = []) (hencoded : events.encoded = [])
    (hsettled : ∀ t outcome, Event.settled t outcome ∈ events → u.Gone t) :
    Sound { u with connection := c, events := u.events ++ events } := by
  have hline : ∀ k ∈ c.line, ∃ k' ∈ u.connection.line, k'.ticket = k.ticket :=
    fun k hk ↦ ⟨k, hsub.subset hk, rfl⟩
  refine h.of_change ?_ hline (fun t outcome hmem ↦ ?_) fun k hk ↦ ?_
  · rw [hlocked, hencoded, List.append_nil, List.append_nil]
    exact h.orderly.leave hsub
  · exact (hsettled t outcome hmem).of_line hline
  · obtain ⟨k', hk', hticket⟩ := hcloser k hk
    obtain ⟨hgone, hclose⟩ := h.closer_gone k' hk'
    exact hticket ▸ ⟨hgone.of_line hline, hclose⟩

private theorem Sound.admitted (h : u.Sound) {caller : Caller} {rest : List Caller} {l : Link}
    {a : Action} {pre : List Event} (hline : u.connection.line = caller :: rest)
    (hfrom : u.connection.Admits caller l a pre) :
    Orderly u.calls ({ caller with stage := .draining } :: rest)
      (u.locked ++ Trace.locked pre) u.encoded := by
  have hhead := hline ▸ h.orderly
  cases hfrom with
  | atOnce hstage => exact hhead.lock hstage
  | drained hstage =>
    have hsame : { caller with stage := .draining } = caller := by rw [← hstage]
    simpa [hsame] using hhead

theorem events_of_admits {c : Connection} {caller : Caller} {l : Link} {a : Action}
    {pre : List Event} (hfrom : c.Admits caller l a pre) :
    Trace.encoded pre = [] ∧ ∀ t outcome, Event.settled t outcome ∉ pre := by
  cases hfrom <;> simp

/-- A step ends one call at most, and this call is in line or has ended the stream. -/
theorem settled_of_change {c c' : Connection} {a : Action} {events : Trace}
    (ha : ∀ t call, a ≠ .enter t call) (h : c.Change a c' events) :
    events.settled = [] ∨ ∃ t outcome, events.settled = [(t, outcome)] ∧
      ((∃ k ∈ c.line, k.ticket = t) ∨
        ∃ k, c.closer = some k ∧ k.ticket = t ∧ c'.closer = none) := by
  have hhead : ∀ {k rest}, c.line = k :: rest → ∃ k' ∈ c.line, k'.ticket = k.ticket :=
    fun hline ↦ ⟨_, hline ▸ List.mem_cons_self, rfl⟩
  cases h with
  | refused | queued => exact absurd rfl (ha _ _)
  | foundClosed hline | foundOpen hline | sent hline | replied hline | misreads hline
  | breaks hline =>
    exact .inr ⟨_, _, by simp; rfl, .inl (hhead hline)⟩
  | @rejects _ pre k rest l command e hline hlink hcall hfrom =>
    refine .inr ⟨k.ticket, .failed (.protocol e), ?_, .inl (hhead hline)⟩
    cases hfrom <;> rfl
  | encodes hline hlink hcall hfrom =>
    refine .inl ?_
    cases hfrom <;> rfl
  | @closerEnds _ closer hcloser => exact .inr ⟨_, _, rfl, .inr ⟨closer, hcloser, rfl, rfl⟩⟩
  | _ => exact .inl (by simp)

theorem closer_of_change {c c' : Connection} {a : Action} {events : Trace} {k : Closer}
    (h : c.Change a c' events) (hk : c'.closer = some k) :
    (∃ k', c.closer = some k' ∧ k'.ticket = k.ticket) ∨
      events.settled = [] ∧ ∃ k' ∈ c.line, k'.ticket = k.ticket := by
  cases h with
  | takesStream hline =>
    cases hk
    exact .inr ⟨rfl, _, hline ▸ List.mem_cons_self, rfl⟩
  | deserts | retires => exact .inl ⟨k, Option.eq_some_of_filter_eq_some hk, rfl⟩
  | closerAccepts hcloser | closerShuts hcloser | closerWaits hcloser =>
    cases hk
    exact .inl ⟨_, hcloser, rfl⟩
  | closerEnds => cases hk
  | _ => exact .inl ⟨k, hk, rfl⟩

theorem written_of_change {c c' : Connection} {a : Action} {events : Trace}
    (h : c.Change a c' events) (haccept : ∀ count, a ≠ .accept count)
    (hcloser : ∀ t count, a ≠ .closerAccept t count) : events.written = [] := by
  cases h with
  | accepts => exact absurd rfl (haccept _)
  | closerAccepts => exact absurd rfl (hcloser _ _)
  | encodes hline hlink hcall hfrom => cases hfrom <;> rfl
  | rejects hline hlink hcall hfrom => cases hfrom <;> rfl
  | _ => simp

theorem line_of_change {c c' : Connection} {a : Action} {events : Trace}
    (ha : ∀ t call, a ≠ .enter t call) (h : c.Change a c' events) :
    ∀ k ∈ c'.line, ∃ k' ∈ c.line, k'.ticket = k.ticket := by
  -- the head may have got to another stage
  have hstays : ∀ {k : Caller} {rest : List Caller} {stage : Stage}, c.line = k :: rest →
      ∀ k' ∈ ({ k with stage := stage } :: rest : List Caller),
        ∃ k'' ∈ c.line, k''.ticket = k'.ticket := by
    intro k rest stage hline
    rw [hline]
    exact List.forall_mem_cons.mpr ⟨⟨k, List.mem_cons_self, rfl⟩,
      fun k' hk' ↦ ⟨k', List.mem_cons_of_mem _ hk', rfl⟩⟩
  cases h with
  | refused | queued => exact absurd rfl (ha _ _)
  | foundClosed hline | foundOpen hline | takesStream hline | rejects hline | sent hline
  | replied hline | misreads hline | breaks hline =>
    exact fun k hk ↦ ⟨k, hline ▸ List.mem_cons_of_mem _ hk, rfl⟩
  | drains hline | encodes hline | waits hline => exact hstays hline
  | deserts | retires => exact fun k hk ↦ ⟨k, List.mem_of_mem_filter hk, rfl⟩
  | _ => exact fun k hk ↦ ⟨k, hk, rfl⟩

/-- Every action of which nobody is told a ticket keeps a usage sound. -/
theorem Sound.change (h : u.Sound) {a : Action} {c : Connection} {events : Trace}
    (ha : ∀ t call, a ≠ .enter t call) (hchange : u.connection.Change a c events) :
    Sound { u with connection := c, events := u.events ++ events } := by
  cases hchange with
  | idle => exact h.of_aside (List.Sublist.refl _) (fun k hk ↦ ⟨k, hk, rfl⟩) rfl rfl (by simp)
  | refused => exact absurd rfl (ha _ _)
  | queued => exact absurd rfl (ha _ _)
  | @foundClosed caller rest hline hstage hclosed =>
    refine h.of_leave hline rfl rfl ?_ (by simp)
    simpa using ((hline ▸ h.orderly).lock hstage).leave (List.sublist_cons_self _ _)
  | @foundOpen caller rest l hline hstage hlink hopen hcall =>
    refine h.of_leave hline rfl rfl ?_ (by simp)
    simpa using ((hline ▸ h.orderly).lock hstage).leave (List.sublist_cons_self _ _)
  | @takesStream caller rest l hline hstage hlink hopen hcall =>
    have hhead := hline ▸ h.orderly
    have hrest : ∀ k ∈ rest, k.ticket ≠ caller.ticket := fun k hk ↦ hhead.ticket_ne_head hk
    refine h.of_change ?_ (fun k hk ↦ ⟨k, hline ▸ List.mem_cons_of_mem _ hk, rfl⟩) (by simp) ?_
    · simpa using (hhead.lock hstage).leave (List.sublist_cons_self _ _)
    · -- the task that was at the head is now the one that ends the stream
      rintro k ⟨rfl⟩
      have hclose := hhead.call_of caller List.mem_cons_self
      exact ⟨⟨hhead.ticket_lt List.mem_cons_self, hrest⟩, hcall ▸ hclose⟩
  | @drains caller rest l command hline hstage hlink hopen hcall hroom =>
    refine h.of_stay hline rfl rfl ?_ (by simp)
    simpa using (hline ▸ h.orderly).lock hstage
  | @encodes a pre caller rest l l' command hline hlink hcall hfrom hsubmit =>
    obtain ⟨hencoded, hsettled⟩ := events_of_admits hfrom
    refine h.of_stay hline rfl rfl ?_ (by simp [hsettled])
    simpa [hencoded] using (h.admitted hline hfrom).encode rfl hcall
  | @rejects a pre caller rest l command e hline hlink hcall hfrom hsubmit =>
    obtain ⟨hencoded, hsettled⟩ := events_of_admits hfrom
    refine h.of_leave hline rfl rfl ?_ (by simp [hsettled])
    simpa [hencoded] using (h.admitted hline hfrom).leave (List.sublist_cons_self _ _)
  | accepts => exact h.of_aside (List.Sublist.refl _) (fun k hk ↦ ⟨k, hk, rfl⟩) rfl rfl (by simp)
  | @sent caller rest l command hline hlink hcall hstage hempty =>
    refine h.of_leave hline rfl rfl ?_ (by simp)
    simpa using (hline ▸ h.orderly).leave (List.sublist_cons_self _ _)
  | @replied a caller rest l l' reply left hline hlink hfrom hdecode =>
    refine h.of_leave hline rfl rfl ?_ (by simp)
    simpa using (hline ▸ h.orderly).leave (List.sublist_cons_self _ _)
  | @waits a caller rest l l' hline hlink hfrom hdecode =>
    refine h.of_stay hline rfl rfl ?_ (by simp)
    have hhead := hline ▸ h.orderly
    cases hfrom with
    | sent command hcall hstage => simpa using hhead.read (.inl hstage) ⟨command, hcall⟩
    | fed chunk hstage =>
      simpa using hhead.read (.inr hstage) (hhead.reading_request _ List.mem_cons_self hstage)
    | ended hstage =>
      simpa using hhead.read (.inr hstage) (hhead.reading_request _ List.mem_cons_self hstage)
  | @misreads a caller rest l l' e hline hlink hfrom hdecode =>
    refine h.of_leave hline rfl rfl ?_ (by simp)
    simpa using (hline ▸ h.orderly).leave (List.sublist_cons_self _ _)
  | @breaks a caller rest l e hline hlink hstage herror =>
    refine h.of_leave hline rfl rfl ?_ (by simp)
    simpa using (hline ▸ h.orderly).leave (List.sublist_cons_self _ _)
  | deserts | retires =>
    refine h.of_aside List.filter_sublist (fun k hk ↦ ⟨k, ?_, rfl⟩) (by simp) (by simp) (by simp)
    exact (Option.filter_eq_some_iff.mp hk).1
  | abortsFree | abortsBusy =>
    exact h.of_aside (List.Sublist.refl _) (fun k hk ↦ ⟨k, hk, rfl⟩) (by simp) (by simp) (by simp)
  | @closerAccepts closer count hcloser hstage hcount =>
    exact h.of_aside (List.Sublist.refl _) (fun k hk ↦ ⟨closer, hcloser, by cases hk; rfl⟩) rfl rfl
      (by simp)
  | @closerShuts a closer hcloser hstage hflush =>
    exact h.of_aside (List.Sublist.refl _) (fun k hk ↦ ⟨closer, hcloser, by cases hk; rfl⟩) rfl rfl
      (by simp)
  | @closerWaits closer ms hcloser hpatience =>
    exact h.of_aside (List.Sublist.refl _) (fun k hk ↦ ⟨closer, hcloser, by cases hk; rfl⟩) rfl rfl
      (by simp)
  | @closerEnds a closer hcloser hstage =>
    refine h.of_aside (List.Sublist.refl _) (by simp) rfl rfl fun t outcome hmem ↦ ?_
    obtain ⟨rfl, -⟩ : t = closer.ticket ∧ outcome = .done := by simpa using hmem
    exact (h.closer_gone closer hcloser).1

/-! ### Calls that have gone -/

theorem Gone.act {t : Ticket} (h : u.Gone t) {a : Action} (ha : ∀ t call, a ≠ .enter t call) :
    (u.act a).Gone t :=
  h.of_line (line_of_change ha (u.connection.change_step a))

theorem Gone.run {t : Ticket} (h : u.Gone t) (turns : List Turn) : (u.run turns).Gone t := by
  induction turns generalizing u with
  | nil => exact h
  | cons turn turns ih =>
    refine ih (u := u.step turn) ?_
    cases turn with
    | call call => exact h.call call
    | act action =>
      cases action with
      | enter => exact h
      | _ => exact h.act (by simp)

/-- A call that has gone does not end again, unless it ends the stream. -/
theorem Sound.not_settled_of_gone (h : u.Sound) {t : Ticket} {call : Call} (hgone : u.Gone t)
    (hcalls : u.calls[t]? = some call) (hcall : call ≠ .close) {a : Action}
    (ha : ∀ t call, a ≠ .enter t call) (outcome : Outcome) :
    (t, outcome) ∉ Trace.settled (u.connection.step a).2 := by
  intro hmem
  obtain hnone | ⟨t', outcome', hsettled, hwho⟩ :=
    settled_of_change ha (u.connection.change_step a)
  · rw [hnone] at hmem
    exact absurd hmem List.not_mem_nil
  · rw [hsettled] at hmem
    obtain ⟨rfl, -⟩ : t = t' ∧ outcome = outcome' := by simpa using hmem
    rcases hwho with ⟨k, hk, hticket⟩ | ⟨k, hk, hticket, -⟩
    · exact hgone.2 k hk hticket
    · have hclose := (h.closer_gone k hk).2
      rw [hticket, hcalls] at hclose
      exact hcall (Option.some.inj hclose)

/-! ### All usages -/

theorem sound_run (peer : String) (turns : List Turn) : ((fresh peer).run turns).Sound :=
  run_induction peer (sound_fresh peer) (fun _ call h ↦ h.call call)
    (fun u action ha h ↦ h.change ha (u.connection.change_step action)) turns

/-- The same for invariants that are only kept by sound usages: for the calls, and for all that can
happen besides. -/
theorem change_induction {P : Usage → Prop} (peer : String) (hfresh : P (fresh peer))
    (hcall : ∀ u call, u.Sound → P u → P (u.step (.call call)))
    (hchange : ∀ u a c events, (∀ t call, a ≠ .enter t call) → u.Sound →
      u.connection.Change a c events → P u →
        P { u with connection := c, events := u.events ++ events })
    (turns : List Turn) : P ((fresh peer).run turns) := by
  have h : ((fresh peer).run turns).Sound ∧ P ((fresh peer).run turns) := by
    refine run_induction (P := fun u ↦ u.Sound ∧ P u) peer ⟨sound_fresh peer, hfresh⟩ ?_ ?_ turns
    · exact fun u call h ↦ ⟨h.1.call call, hcall u call h.1 h.2⟩
    · intro u action ha h
      have hstep := u.connection.change_step action
      exact ⟨h.1.change ha hstep, hchange u action _ _ ha h.1 hstep h.2⟩
  exact h.2

/-- No call is told twice how it has ended, and who ends a stream has not been told yet. -/
structure SettledOnce (u : Usage) : Prop where
  nodup : (u.events.settled.map Prod.fst).Nodup
  closer : ∀ k, u.connection.closer = some k → k.ticket ∉ u.events.settled.map Prod.fst

private theorem Sound.gone_of_settled (h : u.Sound) {t : Ticket}
    (ht : t ∈ u.events.settled.map Prod.fst) : u.Gone t := by
  obtain ⟨p, hp, rfl⟩ := List.mem_map.mp ht
  exact h.settled_gone _ _ (Trace.mem_settled.mp hp)

private theorem SettledOnce.call (h : u.SettledOnce) (hsound : u.Sound) (call : Call) :
    (u.step (.call call)).SettledOnce := by
  cases hcall : call.refusal with
  | none =>
    rw [step_call_of_not_refusal hcall]
    exact ⟨h.nodup, h.closer⟩
  | some e =>
    rw [step_call_of_refusal hcall]
    constructor
    · simp only [Trace.settled_append, List.map_append]
      refine List.nodup_append.mpr ⟨h.nodup, by simp, fun t ht s hs ↦ ?_⟩
      obtain rfl : s = u.calls.length := by simpa using hs
      exact Nat.ne_of_lt (hsound.gone_of_settled ht).1
    · intro k hk hmem
      simp only [Trace.settled_append, List.map_append] at hmem
      rcases List.mem_append.mp hmem with hold | hnew
      · exact h.closer k hk hold
      · have hticket : k.ticket = u.calls.length := by simpa using hnew
        exact absurd hticket (Nat.ne_of_lt (hsound.closer_gone k hk).1.1)

private theorem SettledOnce.change (h : u.SettledOnce) (hsound : u.Sound) {a : Action}
    {c : Connection} {events : Trace} (ha : ∀ t call, a ≠ .enter t call)
    (hchange : u.connection.Change a c events) :
    SettledOnce { u with connection := c, events := u.events ++ events } := by
  -- whoever has been told is neither in line nor ends the stream
  have hnew : ∀ t ∈ events.settled.map Prod.fst, t ∉ u.events.settled.map Prod.fst ∧
      ∀ k, c.closer = some k → k.ticket ≠ t := by
    intro t ht
    obtain hnone | ⟨_, outcome, hone, hwho⟩ := settled_of_change ha hchange
    · simp [hnone] at ht
    · obtain rfl : t = _ := by simpa [hone] using ht
      rcases hwho with ⟨k, hk, rfl⟩ | ⟨k, hk, rfl, hnone⟩
      · refine ⟨fun hold ↦ (hsound.gone_of_settled hold).2 k hk rfl, fun k' hk' heq ↦ ?_⟩
        obtain ⟨k'', hk'', hticket⟩ | ⟨hnone, -⟩ := closer_of_change hchange hk'
        · exact (hsound.closer_gone k'' hk'').1.2 k hk (heq.symm.trans hticket.symm)
        · rw [hnone] at hone
          cases hone
      · exact ⟨h.closer k hk, fun k' hk' ↦ nomatch hnone.symm.trans hk'⟩
  constructor
  · simp only [Trace.settled_append, List.map_append]
    refine List.nodup_append.mpr ⟨h.nodup, ?_, fun t ht s hs heq ↦ (hnew s hs).1 (heq ▸ ht)⟩
    obtain hnone | ⟨t, outcome, hone, -⟩ := settled_of_change ha hchange
    · simp [hnone]
    · simp [hone]
  · intro k hk hmem
    simp only [Trace.settled_append, List.map_append] at hmem
    rcases List.mem_append.mp hmem with hold | hlate
    · obtain ⟨k', hk', hticket⟩ | ⟨-, k', hk', hticket⟩ := closer_of_change hchange hk
      · exact h.closer k' hk' (hticket ▸ hold)
      · exact (hsound.gone_of_settled hold).2 k' hk' hticket
    · exact (hnew _ hlate).2 k hk rfl

/-- **A call ends once.** -/
theorem settledOnce_run (peer : String) (turns : List Turn) :
    ((fresh peer).run turns).SettledOnce :=
  change_induction peer ⟨List.nodup_nil, nofun⟩ (fun _ call hsound h ↦ h.call hsound call)
    (fun _ _ _ _ ha hsound hchange h ↦ h.change hsound ha hchange) turns

end Usage

end PinballBoard
