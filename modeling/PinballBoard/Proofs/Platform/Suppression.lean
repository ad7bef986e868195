import Mathlib.Data.List.Chain
import PinballBoard.Proofs.Link.Share
import PinballBoard.Proofs.Platform.Coils

/-!
# What one handle puts on the wire

A handle of a coil sends a pulse time only if it is another one than the last. So what an order puts
on the wire depends on the orders before it, and an order is up to two calls, of which the first can
end well and the second fail. `CoilOrder.script` is what comes of it in numbers: the frames of some
orders, one after the other, with the duration that is in force passed on from order to order.

`DriverRun` is a handle in the hands of one task, on a connection that others use as they like. The
task gives one order after the other and goes on when a call has ended, whenever it gets to it
(`DriverRun.Step.resume`); between any two of its steps the connection may do anything, end and fail
included. Nothing is given up here, but a call need not end either.

## Two invariants

`DriverRun.Kept` holds at every moment, whatever has failed. The handle remembers the last pulse
time that it knows to be sent, and of what it has put in front of the stream the last one is what it
remembers, or what it is just sending, or else there is no stream any more
(`DriverRun.Abreast.known`). So the next one that is encoded differs from it.

`DriverRun.Flow` follows the orders up to the first that fails. As long as none has, the commands
whose calls have ended are the script so far and a part of the order under way.
-/

namespace PinballBoard

/-! ## The script of some orders -/

namespace CoilOrder

/-- The order asks for a duration that does not fit the wire. -/
def IsTooLong (order : CoilOrder) : Prop := ∃ ms, order.duration? = some ms ∧ 65535 < ms.toNat

/-- The frames of a duration and of the code that fires the coil. Nothing is sent for a duration
that does not fit, and the duration itself only if it is not the last one that has been set. -/
def firing (n code : UInt8) (last : Option Nat) (ms : Nat) : Bytes :=
  if 65535 < ms then []
  else (if last = some ms then [] else [24, n, UInt8.ofNat (ms / 256), UInt8.ofNat (ms % 256)]) ++
    [code, n]

/-- What an order puts on the wire for a coil for which this duration has been set last. -/
def frames (n : UInt8) (last : Option Nat) : CoilOrder → Bytes
  | pulse settings => firing n 23 last settings.duration.toNat
  | enable settings _ => firing n 21 last settings.duration.toNat
  | disable => [22, n]

/-- The duration that has been set last when the order has been carried out. -/
def lastSet (last : Option Nat) (order : CoilOrder) : Option Nat :=
  match order.duration? with
  | some ms => if 65535 < ms.toNat then last else some ms.toNat
  | none => last

/-- The duration that has been set last when some orders have been carried out. -/
def lastOf (last : Option Nat) (orders : List CoilOrder) : Option Nat := orders.foldl lastSet last

/-- What some orders put on the wire. -/
def script (n : UInt8) : Option Nat → List CoilOrder → Bytes
  | _, [] => []
  | last, order :: orders => order.frames n last ++ script n (order.lastSet last) orders

variable {n : UInt8} {last : Option Nat} {orders : List CoilOrder} {order : CoilOrder}

theorem script_append :
    script n last (orders ++ [order]) =
      script n last orders ++ order.frames n (lastOf last orders) := by
  induction orders generalizing last with
  | nil => exact List.append_nil _
  | cons first orders ih =>
    rw [List.cons_append, script, ih, script, List.append_assoc]
    rfl

theorem lastOf_append : lastOf last (orders ++ [order]) = order.lastSet (lastOf last orders) := by
  rw [lastOf, List.foldl_append]
  rfl

theorem frames_of_isTooLong (h : order.IsTooLong) (n : UInt8) (last : Option Nat) :
    order.frames n last = [] ∧ order.lastSet last = last := by
  obtain ⟨ms, hms, hlong⟩ := h
  cases order with
  | disable => cases hms
  | pulse settings | enable settings hold =>
    cases hms
    exact ⟨if_pos hlong, if_pos hlong⟩

end CoilOrder

/-! ## The plan of an order -/

/-- The command can be sent, and nothing answers it. -/
def Command.IsPlain (command : Command) : Prop := command.replyKind = none ∧ command.HasFrame

/-- The duration that a handle remembers, in milliseconds. -/
def Coil.lastMs (coil : Coil) : Option Nat := coil.pulseTime.map (·.ms.toNat)

theorem toNat_toUInt16 {ms : UInt32} (hfits : ¬65535 < ms.toNat) :
    ms.toUInt16.toNat = ms.toNat := by
  rw [UInt32.toNat_toUInt16]
  exact Nat.mod_eq_of_lt (by omega)

/-- What a handle remembers is a pulse time just as it is a duration. -/
theorem Coil.pulseTime_eq_iff {ms : UInt32} (hfits : ¬65535 < ms.toNat) {coil : Coil} :
    coil.pulseTime = some ⟨ms.toUInt16⟩ ↔ coil.lastMs = some ms.toNat := by
  rw [Coil.lastMs, Option.map_eq_some_iff]
  constructor
  · exact fun h ↦ ⟨_, h, toNat_toUInt16 hfits⟩
  · rintro ⟨⟨time⟩, htime, hsame⟩
    rw [htime, ← UInt16.toNat_inj.mp (hsame.trans (toNat_toUInt16 hfits).symm)]

namespace Coil

/-- If all goes well, the task sends these commands and ends well, and then the handle remembers
this pulse time. With the first command that fails the task fails too, and in the same way. -/
def Plans (final : Option PulseTime) : List Command → Coil.Task → Prop
  | [], task => ∃ coil, task = .done coil (.ok ()) ∧ coil.pulseTime = final
  | command :: rest, task => ∃ coil next, task = .ask coil (.send command) next ∧ ∀ outcome,
      (outcome.asDone = .ok () → Plans final rest (next outcome)) ∧
        ∀ e, outcome.asDone = .error e → next outcome = .done coil (.error e)

/-- The task only sends, and only what can be sent, and it sends a pulse time only to a coil for
which another one is remembered. -/
def Varies : Coil.Task → Prop
  | .done _ _ => True
  | .ask coil call next =>
    (∃ command, call = .send command ∧ command.IsPlain ∧
      ∀ time, command = .setPulseTime coil.number time → coil.pulseTime ≠ some time) ∧
    ∀ outcome, Varies (next outcome)

variable {coil : Coil} {command : Command} {next : Coil → Task}

theorem plans_command (coil : Coil) (command : Command) :
    Plans coil.pulseTime [command] (coil.command command) := by
  refine ⟨coil, _, rfl, fun outcome ↦ ⟨fun hdone ↦ ⟨coil, ?_, rfl⟩, fun e hfailed ↦ ?_⟩⟩
  · rw [hdone]
  · rw [hfailed]

theorem varies_command (coil : Coil) (hplain : command.IsPlain)
    (h : ∀ n time, command ≠ .setPulseTime n time) : Varies (coil.command command) :=
  ⟨⟨command, rfl, hplain, fun time heq ↦ absurd heq (h _ time)⟩, fun _ ↦ trivial⟩

/-- The pulse time is sent first, unless it is remembered. -/
theorem plans_withDuration {ms : UInt32} {rest : List Command} (hfits : ¬65535 < ms.toNat)
    (hnext : ∀ coil' : Coil, coil'.pulseTime = some ⟨ms.toUInt16⟩ → coil'.number = coil.number →
      Plans (some ⟨ms.toUInt16⟩) rest (next coil')) :
    Plans (some ⟨ms.toUInt16⟩)
      (if coil.pulseTime = some ⟨ms.toUInt16⟩ then rest
        else .setPulseTime coil.number ⟨ms.toUInt16⟩ :: rest)
      (coil.withDuration ms next) := by
  have htime : PulseTime.ofMs ms = .ok ⟨ms.toUInt16⟩ := if_pos (by omega)
  rw [withDuration, htime]
  dsimp only
  unfold withPulseTime
  split
  · exact hnext coil ‹_› rfl
  · refine ⟨coil, _, rfl, fun outcome ↦ ⟨fun hdone ↦ ?_, fun e hfailed ↦ ?_⟩⟩
    · rw [hdone]
      exact hnext _ rfl rfl
    · rw [hfailed]

theorem varies_withDuration (coil : Coil) (ms : UInt32) (hnext : ∀ coil, Varies (next coil)) :
    Varies (coil.withDuration ms next) := by
  unfold withDuration
  split
  · unfold withPulseTime
    split
    · exact hnext coil
    · rename_i time _ hother
      refine ⟨⟨_, rfl, ⟨rfl, rfl⟩, fun time' heq ↦ ?_⟩, fun outcome ↦ ?_⟩
      · cases heq
        exact hother
      · dsimp only
        split
        · exact hnext _
        · trivial
  · trivial

end Coil

namespace CoilOrder

/-- The commands of an order that can be carried out. -/
def plan (coil : Coil) (order : CoilOrder) : List Command :=
  match order.duration? with
  | none => [order.command coil.number]
  | some ms =>
    if coil.pulseTime = some ⟨ms.toUInt16⟩ then [order.command coil.number]
    else [.setPulseTime coil.number ⟨ms.toUInt16⟩, order.command coil.number]

/-- The pulse time that a handle remembers when it has carried out an order. -/
def final (coil : Coil) (order : CoilOrder) : Option PulseTime :=
  match order.duration? with
  | none => coil.pulseTime
  | some ms => some ⟨ms.toUInt16⟩

variable {n : UInt8} {order : CoilOrder} {coil : Coil}

theorem varies_task (order : CoilOrder) (coil : Coil) : Coil.Varies (order.task coil) := by
  cases order with
  | pulse | enable =>
    exact coil.varies_withDuration _ fun coil ↦ coil.varies_command ⟨rfl, rfl⟩ fun _ _ ↦ nofun
  | disable => exact coil.varies_command ⟨rfl, rfl⟩ fun _ _ ↦ nofun

/-- An order that fits is carried out as planned, -/
theorem plans_task (h : ¬order.IsTooLong) :
    Coil.Plans (order.final coil) (order.plan coil) (order.task coil) := by
  cases order with
  | disable => exact coil.plans_command _
  | pulse settings | enable settings hold =>
    have hfits : ¬65535 < settings.duration.toNat := fun hlong ↦ h ⟨_, rfl, hlong⟩
    refine Coil.plans_withDuration hfits fun coil' htime hnumber ↦ ?_
    rw [← htime, ← hnumber]
    exact coil'.plans_command _

/-- and the plan is what the script says. -/
theorem frames_plan (h : ¬order.IsTooLong) (coil : Coil) :
    Command.frames (order.plan coil) = order.frames coil.number coil.lastMs ∧
      (order.final coil).map (·.ms.toNat) = order.lastSet coil.lastMs := by
  cases order with
  | disable => exact ⟨rfl, rfl⟩
  | pulse settings | enable settings hold =>
    have hfits : ¬65535 < settings.duration.toNat := fun hlong ↦ h ⟨_, rfl, hlong⟩
    have hbytes := PulseTime.bytes_eq ⟨settings.duration.toUInt16⟩
    rw [toNat_toUInt16 hfits] at hbytes
    constructor
    · simp only [plan, duration?, Coil.pulseTime_eq_iff hfits, frames, firing, if_neg hfits]
      split
      · rfl
      · simp only [Command.frames, List.flatMap_cons, Command.frame, Command.encode, hbytes]
        rfl
    · simp only [final, duration?, lastSet, if_neg hfits, Option.map_some, toNat_toUInt16 hfits]

theorem task_of_isTooLong {ms : UInt32} (hms : order.duration? = some ms) (hlong : 65535 < ms.toNat)
    (coil : Coil) :
    order.task coil = .done coil
      (.error (.invalidData ("Invalid pulse time: " ++ s!"{ms.toNat}ms exceeds 65535ms"))) := by
  have htime : PulseTime.ofMs ms = .error (.invalidPulseTime s!"{ms.toNat}ms exceeds 65535ms") :=
    if_neg (by omega)
  cases order with
  | disable => cases hms
  | pulse settings | enable settings hold =>
    cases hms
    simp only [task, Coil.pulse, Coil.enable, Coil.withDuration, htime]
    rfl

end CoilOrder

/-! ## A handle at work -/

/-- An order under way, and how it goes on when its last call has ended. -/
structure OpenOrder where
  order : CoilOrder
  ticket : Ticket
  call : Call
  next : Outcome → Coil.Task

/-- A call that has ended, as far as the task knows. -/
structure EndedCall where
  ticket : Ticket
  call : Call
  outcome : Outcome

/-- A handle in the hands of one task, on a connection that others use as they like. -/
structure DriverRun where
  usage : Usage
  coil : Coil
  openOrder? : Option OpenOrder
  /-- The calls of the task that have ended, oldest first. -/
  endedCalls : List EndedCall
  /-- The orders that have ended, and how, oldest first. -/
  orders : List (CoilOrder × Except DeviceError Unit)

namespace DriverRun

/-- What happens to a handle and its connection. -/
inductive Step where
  /-- Anything that can happen to the connection. -/
  | turn (turn : Turn)
  /-- The task gives an order, if none is under way. -/
  | order (order : CoilOrder)
  /-- The task goes on, if its call has ended. -/
  | resume

/-- A new handle on a connection that has just been opened. -/
def fresh (peer : String) (number : UInt8) (config : CoilConfig) : DriverRun :=
  ⟨.fresh peer, { number, config }, none, [], []⟩

/-- Something happens to the connection. -/
def after (d : DriverRun) (turn : Turn) : DriverRun := { d with usage := d.usage.step turn }

/-- The task makes the next call of an order, or comes to the end of it. -/
def goOn (d : DriverRun) (order : CoilOrder) : Coil.Task → DriverRun
  | .done coil result =>
    { d with coil, openOrder? := none, orders := d.orders ++ [(order, result)] }
  | .ask coil call next =>
    { d with
      usage := d.usage.step (.call call)
      coil
      openOrder? := some ⟨order, d.usage.calls.length, call, next⟩ }

/-- The task is told how its call has ended. -/
def hear (d : DriverRun) (p : OpenOrder) (outcome : Outcome) : DriverRun :=
  { d with
    coil := (p.next outcome).state
    openOrder? := none
    endedCalls := d.endedCalls ++ [⟨p.ticket, p.call, outcome⟩] }

/-- One step. -/
def step (d : DriverRun) : Step → DriverRun
  | .turn turn => d.after turn
  | .order order =>
    match d.openOrder? with
    | none => d.goOn order (order.task d.coil)
    | some _ => d
  | .resume =>
    match d.openOrder? with
    | none => d
    | some p =>
      match d.usage.events.settled.lookup p.ticket with
      | none => d
      | some outcome => (d.hear p outcome).goOn p.order (p.next outcome)

/-- One step after the other. -/
def run (d : DriverRun) (steps : List Step) : DriverRun := steps.foldl step d

/-- The calls of the task, oldest first. -/
def calls (d : DriverRun) : List (Ticket × Call) :=
  d.endedCalls.map (fun e ↦ (e.ticket, e.call)) ++
    d.openOrder?.toList.map fun p ↦ (p.ticket, p.call)

/-- The tickets of these calls. -/
def tickets (d : DriverRun) : List Ticket := d.calls.map Prod.fst

/-- The bytes that the stream has taken of the task. -/
def bytes (d : DriverRun) : Bytes := d.usage.events.share d.tickets

/-- The pulse times that the codec has accepted from these calls. -/
def acceptedTimes (n : UInt8) (tickets : List Ticket) (encoded : List (Ticket × Command)) :
    List PulseTime :=
  encoded.filterMap fun p ↦ if p.1 ∈ tickets then p.2.pulseTimeFor? n else none

/-- The pulse times that the task has put in front of the stream. -/
def setTimes (d : DriverRun) : List PulseTime :=
  acceptedTimes d.coil.number d.tickets d.usage.encoded

/-- The pulse times whose calls have ended well. -/
def learnt (n : UInt8) (endedCalls : List EndedCall) : List PulseTime :=
  endedCalls.filterMap fun e ↦ e.outcome.sent? n (some e.call)

/-- What the handle will remember if the call under way ends well, as soon as the codec has accepted
its command. -/
def expected (d : DriverRun) : Option PulseTime :=
  match d.openOrder? with
  | none => d.coil.pulseTime
  | some p =>
    if p.ticket ∈ d.usage.encoded.map Prod.fst then (d.coil.told p.call .done).pulseTime
    else d.coil.pulseTime

/-! ## What holds at every moment -/

/-- What the task has put in front of the stream. -/
structure Abreast (d : DriverRun) : Prop where
  /-- It is never the same pulse time twice in a row. -/
  distinct : d.setTimes.IsChain (· ≠ ·)
  /-- As long as there is a stream, the last one is what the handle remembers, or is about to. -/
  known : d.usage.connection.link ≠ none → d.setTimes.getLast? = d.expected

/-- What is true of a handle at every moment, whatever has failed. -/
structure Kept (n : UInt8) (d : DriverRun) : Prop extends d.Abreast where
  reached : ∃ peer turns, d.usage = (Usage.fresh peer).run turns
  number : d.coil.number = n
  called : ∀ p ∈ d.calls, d.usage.calls[p.1]? = some p.2 ∧
    ∃ command, p.2 = .send command ∧ command.IsPlain
  ascending : d.tickets.Pairwise (· < ·)
  settled : ∀ e ∈ d.endedCalls, Event.settled e.ticket e.outcome ∈ d.usage.events
  remembers : d.coil.pulseTime = (learnt n d.endedCalls).getLast?
  /-- What is being sent is no pulse time that is remembered, and this will not change. -/
  pursued : ∀ p, d.openOrder? = some p →
    (∀ time, p.call = .send (.setPulseTime n time) → d.coil.pulseTime ≠ some time) ∧
      ∀ outcome, (p.next outcome).state = d.coil.told p.call outcome ∧
        Coil.Minds (p.next outcome) ∧ Coil.Varies (p.next outcome)

variable {n : UInt8} {d : DriverRun}

theorem acceptedTimes_append (tickets : List Ticket) (encoded : List (Ticket × Command))
    (p : Ticket × Command) :
    acceptedTimes n tickets (encoded ++ [p]) = acceptedTimes n tickets encoded ++
      if p.1 ∈ tickets then (p.2.pulseTimeFor? n).toList else [] := by
  rw [acceptedTimes, List.filterMap_append, ← acceptedTimes]
  congr 1
  split <;> cases hset : p.2.pulseTimeFor? n <;> simp [*]

theorem acceptedTimes_of_new (tickets : List Ticket) {encoded : List (Ticket × Command)}
    {t : Ticket} (hnew : ∀ p ∈ encoded, p.1 ≠ t) :
    acceptedTimes n (tickets ++ [t]) encoded = acceptedTimes n tickets encoded :=
  List.filterMap_congr fun p hp ↦ by simp [hnew p hp]

theorem Kept.sound (h : d.Kept n) : d.usage.Sound := by
  obtain ⟨peer, turns, hreached⟩ := h.reached
  exact hreached ▸ Usage.sound_run peer turns

theorem Kept.decided (h : d.Kept n) : d.usage.Decided := by
  obtain ⟨peer, turns, hreached⟩ := h.reached
  exact hreached ▸ Usage.decided_run peer turns

theorem Kept.endedWell (h : d.Kept n) : d.usage.Settled := by
  obtain ⟨peer, turns, hreached⟩ := h.reached
  exact hreached ▸ Usage.settled_run peer turns

theorem Kept.explained (h : d.Kept n) : d.usage.Explained := by
  obtain ⟨peer, turns, hreached⟩ := h.reached
  exact hreached ▸ Usage.explained_run peer turns

theorem Kept.told (h : d.Kept n) : d.usage.Told := by
  obtain ⟨peer, turns, hreached⟩ := h.reached
  exact hreached ▸ (Usage.armed_told_run peer turns).2

theorem kept_fresh (peer : String) (n : UInt8) (config : CoilConfig) :
    (fresh peer n config).Kept n where
  reached := ⟨peer, [], rfl⟩
  number := rfl
  called _ hp := absurd hp List.not_mem_nil
  ascending := .nil
  settled _ he := absurd he List.not_mem_nil
  remembers := rfl
  pursued p hp := absurd hp (Option.some_ne_none p).symm
  distinct := .nil
  known _ := rfl

private theorem Kept.accepted (h : d.Kept n) {turn : Turn} {q : Ticket × Command}
    (hq : (d.usage.step turn).encoded = d.usage.encoded ++ [q]) (hgone : ¬d.usage.Gone q.1)
    (hown : q.1 ∈ d.tickets) :
    ∃ p, d.openOrder? = some p ∧ p.ticket = q.1 ∧ p.call = .send q.2 ∧
      q.1 ∉ d.usage.encoded.map Prod.fst := by
  have horderly := (h.sound.step turn).orderly
  obtain ⟨⟨t, call⟩, hmem, rfl⟩ := List.mem_map.mp hown
  obtain ⟨hcall, command, rfl, -⟩ := h.called _ hmem
  obtain ⟨p, hp, hpursued⟩ :
      ∃ p ∈ d.openOrder?.toList, (p.ticket, p.call) = (q.1, .send command) := by
    rcases List.mem_append.mp hmem with hended | hpursued
    · obtain ⟨e, he, heq⟩ := List.mem_map.mp hended
      have hticket : e.ticket = q.1 := congrArg Prod.fst heq
      exact absurd (hticket ▸ h.sound.settled_gone _ _ (h.settled e he)) hgone
    · exact List.mem_map.mp hpursued
  obtain ⟨hticket, hsend⟩ := Prod.mk.inj hpursued
  refine ⟨p, Option.mem_toList.mp hp, hticket, ?_, fun hearlier ↦ ?_⟩
  · obtain ⟨call, hmade, hcommand⟩ := horderly.encoded_call q (by simp [hq])
    obtain ⟨more, hmore⟩ := d.usage.calls_prefix_step turn
    rw [← hmore, getElem?_append_of_some hcall] at hmade
    obtain rfl : Call.send command = call := Option.some.inj hmade
    rw [hsend, Option.some.inj hcommand]
  · -- nothing is accepted twice
    have hlt := horderly.encoded_lt
    rw [hq, List.map_append, List.pairwise_append] at hlt
    exact Nat.lt_irrefl _ (hlt.2.2 q.1 hearlier q.1 (by simp))

theorem expected_of_idle (hidle : d.openOrder? = none) : d.expected = d.coil.pulseTime := by
  rw [expected, hidle]

/-- The call under way is one of the task. -/
theorem mem_tickets_of_openOrder {p : OpenOrder} (hp : d.openOrder? = some p) :
    p.ticket ∈ d.tickets := by
  simp [tickets, calls, hp]

/-- What the call under way puts in front of the stream is another pulse time, and the one that the
handle is about to remember. -/
private theorem Kept.abreast_accepted (h : d.Kept n) {turn : Turn} {q : Ticket × Command}
    (hq : (d.usage.step turn).encoded = d.usage.encoded ++ [q]) (hgone : ¬d.usage.Gone q.1)
    (hopen : d.usage.connection.link ≠ none) (hown : q.1 ∈ d.tickets) :
    (d.after turn).Abreast := by
  obtain ⟨p, hp, hticket, hsend, hnew⟩ := h.accepted hq hgone hown
  have htimes : (d.after turn).setTimes = d.setTimes ++ (q.2.pulseTimeFor? n).toList := by
    change acceptedTimes d.coil.number d.tickets (d.usage.step turn).encoded = _
    rw [hq, acceptedTimes_append, if_pos hown, h.number, setTimes, h.number]
  have hbefore : d.setTimes.getLast? = d.coil.pulseTime := by
    rw [h.known hopen]
    simp [expected, hp, hticket, hnew]
  have hafter : (d.after turn).expected = (q.2.pulseTimeFor? n).or d.coil.pulseTime := by
    have hmem : p.ticket ∈ (d.usage.step turn).encoded.map Prod.fst := by simp [hq, hticket]
    rw [expected, show (d.after turn).openOrder? = some p from hp, ← h.number]
    exact (if_pos hmem).trans (by rw [hsend]; rfl)
  constructor
  · rw [htimes]
    refine h.distinct.append (by cases q.2.pulseTimeFor? n <;> simp) fun last hlast time hset ↦ ?_
    have hcommand : q.2.pulseTimeFor? n = some time := by
      cases hfor : q.2.pulseTimeFor? n <;> simp_all
    rintro rfl
    refine (h.pursued p hp).1 last ?_ (hbefore.symm.trans hlast)
    rw [hsend, Command.pulseTimeFor?_eq_some.mp hcommand]
  · rw [htimes, hafter, List.getLast?_append, hbefore]
    cases q.2.pulseTimeFor? n <;> simp

private theorem Kept.abreast_after (h : d.Kept n) (turn : Turn) : (d.after turn).Abreast := by
  have hstays (htimes : (d.after turn).setTimes = d.setTimes)
      (hexpected : (d.after turn).expected = d.expected) : (d.after turn).Abreast := by
    refine ⟨htimes ▸ h.distinct, fun hlink ↦ ?_⟩
    rw [htimes, hexpected]
    exact h.known (mt (Usage.link_none_run · [turn]) hlink)
  rcases Usage.encoded_step h.decided turn with hsame | ⟨q, hq, hgone, hopen⟩
  · refine hstays ?_ ?_
    · simp only [after, setTimes, tickets, calls, hsame]
    · simp only [after, expected, hsame]
  by_cases hown : q.1 ∈ d.tickets
  · exact h.abreast_accepted hq hgone hopen hown
  -- somebody else's command
  refine hstays ?_ ?_
  · change acceptedTimes d.coil.number d.tickets (d.usage.step turn).encoded = _
    rw [hq, acceptedTimes_append, if_neg hown, List.append_nil, setTimes]
  · cases hp : d.openOrder? with
    | none => simp only [after, expected, hp]
    | some p =>
      have hne : p.ticket ≠ q.1 := fun heq ↦ hown (heq ▸ mem_tickets_of_openOrder hp)
      have hmem : p.ticket ∈ (d.usage.step turn).encoded.map Prod.fst ↔
          p.ticket ∈ d.usage.encoded.map Prod.fst := by simp [hq, hne]
      simp only [after, expected, hp, hmem]

theorem Kept.after (h : d.Kept n) (turn : Turn) : (d.after turn).Kept n := by
  obtain ⟨peer, turns, hreached⟩ := h.reached
  obtain ⟨more, hmore⟩ := d.usage.calls_prefix_step turn
  refine ⟨h.abreast_after turn, ⟨peer, turns ++ [turn], ?_⟩, h.number, fun p hp ↦ ?_, h.ascending,
    fun e he ↦ ?_, h.remembers, h.pursued⟩
  · rw [Usage.run_append, ← hreached]
    rfl
  · obtain ⟨hcall, hsend⟩ := h.called p hp
    refine ⟨?_, hsend⟩
    rw [DriverRun.after, ← hmore, getElem?_append_of_some hcall]
  · rw [DriverRun.after, Usage.events_step]
    exact List.mem_append_left _ (h.settled e he)

section Ask

variable {order : CoilOrder} {coil : Coil} {call : Call} {next : Outcome → Coil.Task}

theorem calls_ask (hidle : d.openOrder? = none) :
    (d.goOn order (.ask coil call next)).calls = d.calls ++ [(d.usage.calls.length, call)] := by
  simp [goOn, calls, hidle]

theorem tickets_ask (hidle : d.openOrder? = none) :
    (d.goOn order (.ask coil call next)).tickets = d.tickets ++ [d.usage.calls.length] := by
  rw [tickets, calls_ask hidle, List.map_append]
  rfl

theorem Kept.ticket_lt (h : d.Kept n) {t : Ticket} (ht : t ∈ d.tickets) :
    t < d.usage.calls.length := by
  obtain ⟨p, hp, rfl⟩ := List.mem_map.mp ht
  exact (List.getElem?_eq_some_iff.mp (h.called p hp).1).1

private theorem Kept.abreast_ask (h : d.Kept n) (hidle : d.openOrder? = none) :
    (d.goOn order (.ask d.coil call next)).Abreast := by
  have hencoded := d.usage.encoded_call call
  have hnew : ∀ p ∈ d.usage.encoded, p.1 ≠ d.usage.calls.length :=
    fun p hp ↦ Nat.ne_of_lt (h.sound.orderly.encoded_bound hp)
  have htimes : (d.goOn order (.ask d.coil call next)).setTimes = d.setTimes := by
    rw [setTimes, tickets_ask hidle]
    change acceptedTimes _ _ (d.usage.step (.call call)).encoded = _
    rw [hencoded, acceptedTimes_of_new _ hnew]
    rfl
  have hexpected : (d.goOn order (.ask d.coil call next)).expected = d.coil.pulseTime := by
    refine if_neg fun hmem ↦ ?_
    change d.usage.calls.length ∈ (d.usage.step (.call call)).encoded.map _ at hmem
    rw [hencoded] at hmem
    obtain ⟨p, hp, hticket⟩ := List.mem_map.mp hmem
    exact hnew p hp hticket
  refine ⟨htimes ▸ h.distinct, fun hlink ↦ ?_⟩
  have hopen : d.usage.connection.link ≠ none := mt (Usage.link_none_run · [.call call]) hlink
  rw [htimes, hexpected, h.known hopen, expected_of_idle hidle]

end Ask

private theorem Kept.goOn (h : d.Kept n) (hidle : d.openOrder? = none) (order : CoilOrder)
    {task : Coil.Task} (hstate : task.state = d.coil) (hminds : Coil.Minds task)
    (hvaries : Coil.Varies task) : (d.goOn order task).Kept n := by
  cases task with
  | done coil result =>
    obtain rfl : coil = d.coil := hstate
    have hsame : d.goOn order (.done d.coil result) =
        { d with orders := d.orders ++ [(order, result)] } := by rw [DriverRun.goOn, ← hidle]
    rw [hsame]
    exact ⟨⟨h.distinct, h.known⟩, h.reached, h.number, h.called, h.ascending, h.settled,
      h.remembers, h.pursued⟩
  | ask coil call next =>
    obtain rfl : coil = d.coil := hstate
    obtain ⟨⟨command, rfl, hplain, hother⟩, hnext⟩ := hvaries
    have hafter := h.after (.call (.send command))
    refine ⟨h.abreast_ask hidle, hafter.reached, h.number, ?_, ?_, hafter.settled, h.remembers, ?_⟩
    · rw [calls_ask hidle]
      refine List.forall_mem_append.mpr
        ⟨hafter.called, List.forall_mem_singleton.mpr ⟨?_, _, rfl, hplain⟩⟩
      exact List.getElem?_concat_length
    · rw [tickets_ask hidle]
      refine List.pairwise_append.mpr ⟨h.ascending, List.pairwise_singleton _ _, ?_⟩
      intro t ht t' ht'
      rw [List.mem_singleton.mp ht']
      exact h.ticket_lt ht
    · rintro p ⟨⟩
      refine ⟨fun time heq ↦ hother time ?_, fun outcome ↦ ?_⟩
      · rw [h.number]
        exact Call.send.inj heq
      · exact ⟨(hminds outcome).1, (hminds outcome).2, hnext outcome⟩

/-- While there is a stream, a call has ended well just if its command has been accepted. -/
private theorem Kept.expected_eq (h : d.Kept n) {p : OpenOrder} (hp : d.openOrder? = some p)
    {outcome : Outcome} (hmem : Event.settled p.ticket outcome ∈ d.usage.events)
    (hlink : d.usage.connection.link ≠ none) :
    d.expected = (d.coil.told p.call outcome).pulseTime := by
  obtain ⟨hmade, command, hsend, -⟩ := h.called (p.ticket, p.call) (by simp [calls, hp])
  dsimp only at hmade hsend
  rw [expected, hp]
  dsimp only
  cases hdone : outcome.asDone with
  | ok =>
    have hcommand : d.usage.calls[p.ticket]?.bind Call.command? = some command := by
      rw [hmade, hsend]
      rfl
    have hencoded : p.ticket ∈ d.usage.encoded.map Prod.fst :=
      List.mem_map_of_mem (Usage.not_due_of_ended h.sound h.endedWell hcommand hmem
        (Outcome.ne_failed hdone)).1
    rw [if_pos hencoded, Coil.told, Coil.told, Outcome.sent?, Outcome.sent?, hdone]
    rfl
  | error e =>
    obtain ⟨fault, rfl, -⟩ := Outcome.eq_failed hdone
    rw [if_neg, Coil.told, Outcome.sent?, hdone, Option.none_or]
    exact fun hencoded ↦ hlink
      (Usage.link_none_of_failed h.explained h.decided hmem (hsend ▸ hmade) hencoded)

private theorem Kept.hear (h : d.Kept n) {p : OpenOrder} (hp : d.openOrder? = some p)
    {outcome : Outcome} (hmem : Event.settled p.ticket outcome ∈ d.usage.events) :
    (d.hear p outcome).Kept n := by
  obtain ⟨hstate, -, -⟩ := (h.pursued p hp).2 outcome
  have hcoil : (d.hear p outcome).coil = d.coil.told p.call outcome := hstate
  have hcalls : (d.hear p outcome).calls = d.calls := by
    simp [DriverRun.hear, calls, hp]
  have htimes : (d.hear p outcome).setTimes = d.setTimes := by
    rw [setTimes, tickets, hcalls, hcoil]
    rfl
  refine ⟨⟨htimes ▸ h.distinct, fun hlink ↦ ?_⟩, h.reached, hcoil ▸ h.number, hcalls ▸ h.called,
    ?_, ?_, ?_, fun _ hnone ↦ (nomatch hnone)⟩
  · have hidle : (d.hear p outcome).openOrder? = none := rfl
    rw [htimes, h.known hlink, h.expected_eq hp hmem hlink, expected_of_idle hidle, hcoil]
  · rw [tickets, hcalls]
    exact h.ascending
  · exact List.forall_mem_append.mpr ⟨h.settled, List.forall_mem_singleton.mpr hmem⟩
  · rw [hcoil, Coil.told, h.number, h.remembers, DriverRun.hear, learnt, learnt,
      List.filterMap_append, List.getLast?_append]
    cases hsent : outcome.sent? n (some p.call) <;> simp [hsent]

/-- **A handle is kept whatever happens.** -/
theorem Kept.step (h : d.Kept n) (step : Step) : (d.step step).Kept n := by
  cases step with
  | turn turn => exact h.after turn
  | order order =>
    rw [DriverRun.step]
    split
    · obtain ⟨hstate, hminds⟩ := order.minds_task d.coil
      exact h.goOn ‹_› order hstate hminds (order.varies_task d.coil)
    · exact h
  | resume =>
    rw [DriverRun.step]
    split
    · exact h
    · rename_i p hp
      split
      · exact h
      · rename_i outcome hlookup
        have hmem := Trace.mem_of_lookup hlookup
        obtain ⟨-, hminds, hvaries⟩ := (h.pursued p hp).2 outcome
        exact (h.hear hp hmem).goOn rfl p.order rfl hminds hvaries

/-! ## The orders up to the first that fails -/

/-- The commands of some calls that have ended, each with its ticket. -/
def spoken (endedCalls : List EndedCall) : List (Ticket × Command) :=
  endedCalls.filterMap fun e ↦ e.call.command?.map (e.ticket, ·)

/-- The frames of these commands. -/
def frames (endedCalls : List EndedCall) : Bytes :=
  Command.frames ((spoken endedCalls).map Prod.snd)

/-- An order has been carried out, or could not be and was refused. -/
def IsFine (o : CoilOrder × Except DeviceError Unit) : Prop := o.2 = .ok () ∨ o.1.IsTooLong

/-- How the orders of a handle go. -/
inductive Flow (n : UInt8) (d : DriverRun) : Prop where
  /-- No order is under way and none has failed. -/
  | idle (hidle : d.openOrder? = none) (hfine : ∀ o ∈ d.orders, IsFine o)
      (hwell : ∀ e ∈ d.endedCalls, e.outcome.asDone = .ok ())
      (hframes : frames d.endedCalls = CoilOrder.script n none (d.orders.map Prod.fst))
      (hlast : d.coil.lastMs = CoilOrder.lastOf none (d.orders.map Prod.fst))
  /-- An order is under way and goes as planned. -/
  | busy {p : OpenOrder} {command : Command} {begun rest : List Command} {final : Option PulseTime}
      (hopenOrder : d.openOrder? = some p) (hcall : p.call = .send command)
      (hfits : ¬p.order.IsTooLong) (hfine : ∀ o ∈ d.orders, IsFine o)
      (hwell : ∀ e ∈ d.endedCalls, e.outcome.asDone = .ok ())
      (hframes : frames d.endedCalls =
        CoilOrder.script n none (d.orders.map Prod.fst) ++ Command.frames begun)
      (hplan : Command.frames (begun ++ command :: rest) =
        p.order.frames n (CoilOrder.lastOf none (d.orders.map Prod.fst)))
      (hfinal : final.map (·.ms.toNat) =
        p.order.lastSet (CoilOrder.lastOf none (d.orders.map Prod.fst)))
      (hnext : ∀ outcome, (outcome.asDone = .ok () → Coil.Plans final rest (p.next outcome)) ∧
        ∀ e, outcome.asDone = .error e → p.next outcome = .done d.coil (.error e))
  /-- An order has just failed, with its last call. -/
  | broken {order : CoilOrder} {good : List (CoilOrder × Except DeviceError Unit)}
      {earlier : List EndedCall} {t : Ticket} {command : Command} {begun rest : List Command}
      {fault : LinkError} (hidle : d.openOrder? = none)
      (horders : d.orders = good ++ [(order, .error (.ofLink fault))]) (hfits : ¬order.IsTooLong)
      (hendedCalls : d.endedCalls = earlier ++ [⟨t, .send command, .failed fault⟩])
      (hwell : ∀ e ∈ earlier, e.outcome.asDone = .ok ())
      (hframes : frames earlier =
        CoilOrder.script n none (good.map Prod.fst) ++ Command.frames begun)
      (hplan : Command.frames (begun ++ command :: rest) =
        order.frames n (CoilOrder.lastOf none (good.map Prod.fst)))
  /-- An order has failed some time ago. -/
  | past {good later : List (CoilOrder × Except DeviceError Unit)}
      {bad : CoilOrder × Except DeviceError Unit} (horders : d.orders = good ++ bad :: later)
      (hbad : ¬IsFine bad) (hlater : later ≠ [] ∨ d.openOrder? ≠ none)

theorem spoken_concat (endedCalls : List EndedCall) (t : Ticket) (command : Command)
    (outcome : Outcome) :
    spoken (endedCalls ++ [⟨t, .send command, outcome⟩]) = spoken endedCalls ++ [(t, command)] :=
  List.filterMap_append

theorem frames_concat (endedCalls : List EndedCall) (t : Ticket) (command : Command)
    (outcome : Outcome) :
    frames (endedCalls ++ [⟨t, .send command, outcome⟩]) =
      frames endedCalls ++ Command.frames [command] := by
  rw [frames, spoken_concat, List.map_append, Command.frames_append]
  rfl

theorem not_isFine_of_error {order : CoilOrder} {e : DeviceError} (hfits : ¬order.IsTooLong) :
    ¬IsFine (order, .error e) := by
  rintro (hok | hlong)
  · cases hok
  · exact hfits hlong

theorem not_fine_of_failed {order : CoilOrder} {e : DeviceError}
    {good : List (CoilOrder × Except DeviceError Unit)}
    (horders : d.orders = good ++ [(order, .error e)]) (hfits : ¬order.IsTooLong) :
    ¬∀ o ∈ d.orders, IsFine o := by
  intro hfine
  rw [horders, List.forall_mem_append, List.forall_mem_singleton] at hfine
  exact not_isFine_of_error hfits hfine.2

private theorem flow_of_plans {order : CoilOrder} {task : Coil.Task}
    {final : Option PulseTime} (begun commands : List Command) (hfits : ¬order.IsTooLong)
    (hfine : ∀ o ∈ d.orders, IsFine o)
    (hwell : ∀ e ∈ d.endedCalls, e.outcome.asDone = .ok ())
    (hframes : frames d.endedCalls =
      CoilOrder.script n none (d.orders.map Prod.fst) ++ Command.frames begun)
    (hplan : Command.frames (begun ++ commands) =
      order.frames n (CoilOrder.lastOf none (d.orders.map Prod.fst)))
    (hfinal : final.map (·.ms.toNat) =
      order.lastSet (CoilOrder.lastOf none (d.orders.map Prod.fst)))
    (hplans : Coil.Plans final commands task) : (d.goOn order task).Flow n := by
  cases commands with
  | nil =>
    obtain ⟨coil, rfl, hcoil⟩ := hplans
    have horders : (d.goOn order (.done coil (.ok ()))).orders.map Prod.fst =
        d.orders.map Prod.fst ++ [order] := List.map_append
    refine .idle rfl (List.forall_mem_append.mpr ⟨hfine, ?_⟩) hwell ?_ ?_
    · exact List.forall_mem_singleton.mpr (.inl rfl)
    · rw [horders, CoilOrder.script_append, ← hplan, List.append_nil]
      exact hframes
    · rw [horders, CoilOrder.lastOf_append, ← hfinal, ← hcoil]
      rfl
  | cons command rest =>
    obtain ⟨coil, next, rfl, hnext⟩ := hplans
    exact .busy rfl rfl hfits hfine hwell hframes hplan hfinal hnext

private theorem flow_of_bad {good later : List (CoilOrder × Except DeviceError Unit)}
    {bad : CoilOrder × Except DeviceError Unit} (horders : d.orders = good ++ bad :: later)
    (hbad : ¬IsFine bad) (order : CoilOrder) (task : Coil.Task) : (d.goOn order task).Flow n := by
  cases task with
  | done coil result =>
    have hlonger : (d.goOn order (.done coil result)).orders =
        good ++ bad :: (later ++ [(order, result)]) := by
      rw [goOn, horders, List.append_assoc, List.cons_append]
    exact .past hlonger hbad (.inl (by simp))
  | ask coil call next => exact .past horders hbad (.inr (Option.some_ne_none _))

private theorem Flow.order (h : d.Flow n) (hidle : d.openOrder? = none)
    (hnumber : d.coil.number = n) (order : CoilOrder) :
    (d.goOn order (order.task d.coil)).Flow n := by
  cases h with
  | idle _ hfine hwell hframes hlast =>
    by_cases hlong : order.IsTooLong
    · obtain ⟨hnothing, hsame⟩ := CoilOrder.frames_of_isTooLong hlong n
        (CoilOrder.lastOf none (d.orders.map Prod.fst))
      obtain ⟨ms, hms, hbig⟩ := id hlong
      rw [CoilOrder.task_of_isTooLong hms hbig]
      refine .idle rfl (List.forall_mem_append.mpr ⟨hfine, ?_⟩) hwell ?_ ?_
      · exact List.forall_mem_singleton.mpr (.inr hlong)
      · rw [goOn, List.map_append, List.map_singleton, CoilOrder.script_append, hnothing,
          List.append_nil]
        exact hframes
      · rw [goOn, List.map_append, List.map_singleton, CoilOrder.lastOf_append, hsame]
        exact hlast
    · obtain ⟨hplan, hfinal⟩ := CoilOrder.frames_plan hlong d.coil
      rw [hlast] at hplan hfinal
      exact flow_of_plans [] _ hlong hfine hwell (hframes.trans (List.append_nil _).symm)
        (hnumber ▸ hplan) hfinal (CoilOrder.plans_task hlong)
  | busy hopenOrder => cases hidle.symm.trans hopenOrder
  | broken _ horders hfits => exact flow_of_bad horders (not_isFine_of_error hfits) order _
  | past horders hbad => exact flow_of_bad horders hbad order _

private theorem Flow.resume (h : d.Flow n) {p : OpenOrder} (hp : d.openOrder? = some p)
    (outcome : Outcome) : ((d.hear p outcome).goOn p.order (p.next outcome)).Flow n := by
  cases h with
  | idle hidle => cases hidle.symm.trans hp
  | @busy p' command begun rest final hopenOrder hcall hfits hfine hwell hframes hplan hfinal
      hnext =>
    obtain rfl : p' = p := Option.some.inj (hopenOrder.symm.trans hp)
    cases hdone : outcome.asDone with
    | ok =>
      refine flow_of_plans (begun ++ [command]) rest hfits hfine ?_ ?_ ?_ hfinal
        ((hnext outcome).1 hdone)
      · exact List.forall_mem_append.mpr ⟨hwell, List.forall_mem_singleton.mpr hdone⟩
      · rw [hear, hcall, frames_concat, hframes, Command.frames_append, List.append_assoc]
      · rwa [List.append_assoc]
    | error e =>
      obtain ⟨fault, rfl, rfl⟩ := Outcome.eq_failed hdone
      rw [(hnext _).2 _ hdone]
      have hendedCalls : (d.hear p' (.failed fault)).endedCalls =
          d.endedCalls ++ [⟨p'.ticket, .send command, .failed fault⟩] := by rw [hear, hcall]
      exact .broken rfl rfl hfits hendedCalls hwell hframes hplan
  | broken hidle => cases hidle.symm.trans hp
  | past horders hbad => exact flow_of_bad (d := d.hear p outcome) horders hbad _ _

private theorem Flow.after (h : d.Flow n) (turn : Turn) : (d.after turn).Flow n := by
  cases h with
  | idle hidle hfine hwell hframes hlast => exact .idle hidle hfine hwell hframes hlast
  | busy hopenOrder hcall hfits hfine hwell hframes hplan hfinal hnext =>
    exact .busy hopenOrder hcall hfits hfine hwell hframes hplan hfinal hnext
  | broken hidle horders hfits hendedCalls hwell hframes hplan =>
    exact .broken hidle horders hfits hendedCalls hwell hframes hplan
  | past horders hbad hlater => exact .past horders hbad hlater

theorem Flow.step (h : d.Flow n) (hnumber : d.coil.number = n) (step : Step) :
    (d.step step).Flow n := by
  cases step with
  | turn turn => exact h.after turn
  | order order =>
    rw [DriverRun.step]
    split
    · exact h.order ‹_› hnumber order
    · exact h
  | resume =>
    rw [DriverRun.step]
    split
    · exact h
    · split
      · exact h
      · exact h.resume ‹_› _

/-- **A handle is kept, and its orders go, at every moment.** -/
theorem kept_flow_run (peer : String) (n : UInt8) (config : CoilConfig) (steps : List Step) :
    ((fresh peer n config).run steps).Kept n ∧ ((fresh peer n config).run steps).Flow n := by
  have hstart : (fresh peer n config).Kept n ∧ (fresh peer n config).Flow n :=
    ⟨kept_fresh peer n config, .idle rfl (fun _ ho ↦ absurd ho List.not_mem_nil)
      (fun _ he ↦ absurd he List.not_mem_nil) rfl rfl⟩
  generalize fresh peer n config = d at hstart ⊢
  induction steps generalizing d with
  | nil => exact hstart
  | cons step steps ih => exact ih _ ⟨hstart.1.step step, hstart.2.step hstart.1.number step⟩

/-! ## The bytes of the task -/

theorem map_spoken {endedCalls : List EndedCall}
    (h : ∀ e ∈ endedCalls, ∃ command, e.call = .send command) :
    (spoken endedCalls).map (fun p ↦ (p.1, Call.send p.2)) =
      endedCalls.map fun e ↦ (e.ticket, e.call) := by
  induction endedCalls with
  | nil => rfl
  | cons e endedCalls ih =>
    obtain ⟨command, hcall⟩ := h e List.mem_cons_self
    have hrest := ih fun e' he' ↦ h e' (List.mem_cons_of_mem _ he')
    rw [List.map_cons, ← hrest, spoken, List.filterMap_cons, hcall]
    rfl

/-- If all calls of the task have ended well, but perhaps the last one, then their frames have been
written, and perhaps a part of the last one. -/
private theorem Kept.bytes_eq (h : d.Kept n) {ended : List EndedCall}
    {last? : Option (Ticket × Command)}
    (hcalls : d.calls = (spoken ended ++ last?.toList).map fun p ↦ (p.1, .send p.2))
    (hsub : ∀ e ∈ ended, e ∈ d.endedCalls) (hwell : ∀ e ∈ ended, e.outcome.asDone = .ok ()) :
    ∃ part, d.bytes = frames ended ++ part ∧
      part <+: Command.frames (last?.toList.map Prod.snd) := by
  have htickets : d.tickets = (spoken ended ++ last?.toList).map Prod.fst := by
    rw [tickets, hcalls, List.map_map]
    rfl
  rw [bytes, htickets]
  refine Usage.share_eq h.sound h.endedWell (htickets ▸ h.ascending) (fun p hp ↦ ?_) fun p hp ↦ ?_
  · rw [(h.called (p.1, .send p.2) (hcalls ▸ List.mem_map_of_mem hp)).1]
    rfl
  · obtain ⟨e, he, hsome⟩ := List.mem_filterMap.mp hp
    obtain ⟨command, -, rfl⟩ := Option.map_eq_some_iff.mp hsome
    exact ⟨e.outcome, h.settled e (hsub e he), Outcome.ne_failed (hwell e he)⟩

private theorem Kept.calls_eq (h : d.Kept n) :
    d.calls = (spoken d.endedCalls).map (fun p ↦ (p.1, .send p.2)) ++
      d.openOrder?.toList.map fun p ↦ (p.ticket, p.call) := by
  rw [calls, map_spoken fun e he ↦ ?_]
  obtain ⟨-, command, hsend, -⟩ :=
    h.called (e.ticket, e.call) (List.mem_append_left _ (List.mem_map_of_mem he))
  exact ⟨command, hsend⟩

/-! ## The law -/

/-- What an order under way puts on the wire. -/
def underWay (n : UInt8) (d : DriverRun) : Bytes :=
  match d.openOrder? with
  | none => []
  | some p => p.order.frames n (CoilOrder.lastOf none (d.orders.map Prod.fst))

/-- After these orders this one has failed, and with it the last call of the task. All that was sent
before has been written, and of the frame of that call a part. -/
inductive BreaksOff (n : UInt8) (d : DriverRun) (given : List CoilOrder) (order : CoilOrder) :
    DeviceError → Prop where
  | intro {earlier : List EndedCall} {t : Ticket} {command : Command} {fault : LinkError}
      {begun rest : List Command} {part : Bytes}
      (hendedCalls : d.endedCalls = earlier ++ [⟨t, .send command, .failed fault⟩])
      (hearlier : frames earlier = CoilOrder.script n none given ++ Command.frames begun)
      (horder : order.frames n (CoilOrder.lastOf none given) =
        Command.frames (begun ++ command :: rest))
      (hbytes : d.bytes = frames earlier ++ part) (hpart : part <+: command.frame)
      -- there is no stream any more, or a string of somebody else has run past its limit
      (hlost : fault.isTransport = true ∧ d.usage.connection.link = none ∨
        d.usage.events.Jammed ∧ ∃ expected actual,
          fault = .protocol (.unexpectedReply expected actual)) :
      BreaksOff n d given order (.ofLink fault)

/-- What can be said of the handle of a coil at any moment. -/
structure Accounts (n : UInt8) (d : DriverRun) : Prop where
  /-- It remembers the pulse time of the last call that has sent one and has ended well. -/
  remembers : d.coil.pulseTime = (learnt n d.endedCalls).getLast?
  /-- It never puts a pulse time in front of the stream twice in a row. -/
  distinct : d.setTimes.IsChain (· ≠ ·)
  /-- As long as no order has failed, what has been written is what the orders come to, and a part
  of the order under way. -/
  wrote : (∀ o ∈ d.orders, IsFine o) →
    ∃ part, d.bytes = CoilOrder.script n none (d.orders.map Prod.fst) ++ part ∧
      part <+: d.underWay n
  /-- Between two orders it then remembers the duration that has been set last. -/
  agrees : (∀ o ∈ d.orders, IsFine o) → d.openOrder? = none →
    d.coil.lastMs = CoilOrder.lastOf none (d.orders.map Prod.fst)
  /-- When the first order has failed, it is the connection that has failed it, and what has been
  written is what the orders before come to, and a part of this one. -/
  failed : ∀ good order e, d.orders = good ++ [(order, .error e)] → (∀ o ∈ good, IsFine o) →
    ¬order.IsTooLong → d.openOrder? = none → d.BreaksOff n (good.map Prod.fst) order e
  /-- An order with a duration that does not fit is refused, and nothing else happens. -/
  refuses : ∀ order ms, order.duration? = some ms → 65535 < ms.toNat → d.openOrder? = none →
    d.step (.order order) =
      { d with
        orders := d.orders ++ [(order, .error (.invalidData
          ("Invalid pulse time: " ++ s!"{ms.toNat}ms exceeds 65535ms")))] }
  /-- If nobody else has made a call, all that has been written is of the handle. -/
  alone : (∀ t < d.usage.calls.length, t ∈ d.tickets) → d.bytes = d.usage.written

/-- As long as no order has failed. -/
private theorem Kept.wrote (h : d.Kept n) (hflow : d.Flow n) (hfine : ∀ o ∈ d.orders, IsFine o) :
    ∃ part, d.bytes = CoilOrder.script n none (d.orders.map Prod.fst) ++ part ∧
      part <+: d.underWay n := by
  cases hflow with
  | idle hidle _ hwell hframes =>
    have hcalls : d.calls = (spoken d.endedCalls ++ Option.toList none).map
        fun p : Ticket × Command ↦ (p.1, .send p.2) := by
      rw [h.calls_eq, hidle, List.map_append]
      rfl
    obtain ⟨part, hbytes, hpart⟩ := h.bytes_eq hcalls (fun _ he ↦ he) hwell
    exact ⟨part, hframes ▸ hbytes, List.prefix_nil.mp hpart ▸ List.nil_prefix⟩
  | @busy p command begun rest _ hopenOrder hcall _ _ hwell hframes hplan =>
    have hcalls : d.calls = (spoken d.endedCalls ++ (some (p.ticket, command)).toList).map
        fun p ↦ (p.1, .send p.2) := by
      rw [h.calls_eq, hopenOrder, List.map_append, Option.toList, List.map_singleton, hcall]
      rfl
    obtain ⟨part, hbytes, hpart⟩ := h.bytes_eq hcalls (fun _ he ↦ he) hwell
    refine ⟨Command.frames begun ++ part, by rw [hbytes, hframes, List.append_assoc], ?_⟩
    rw [underWay, hopenOrder]
    dsimp only
    rw [← hplan, Command.frames_append, ← List.singleton_append, Command.frames_append]
    exact (List.prefix_append_right_inj _).mpr (hpart.trans (List.prefix_append _ _))
  | broken _ horders hfits => exact absurd hfine (not_fine_of_failed horders hfits)
  | past horders hbad => exact absurd (hfine _ (by simp [horders])) hbad

/-- When the first order has failed. -/
private theorem Kept.failed (h : d.Kept n) (hflow : d.Flow n) {order : CoilOrder} {e : DeviceError}
    {good : List (CoilOrder × Except DeviceError Unit)}
    (horders : d.orders = good ++ [(order, .error e)]) (hfine : ∀ o ∈ good, IsFine o)
    (hfits : ¬order.IsTooLong) (hidle : d.openOrder? = none) :
    d.BreaksOff n (good.map Prod.fst) order e := by
  cases hflow with
  | idle _ hall => exact absurd hall (not_fine_of_failed horders hfits)
  | busy hopenOrder => cases hidle.symm.trans hopenOrder
  | @broken order' good' earlier t command begun rest fault _ hends _ hendedCalls hwell hframes
      hplan =>
    obtain ⟨rfl, hlast⟩ := List.append_inj' (horders.symm.trans hends) rfl
    cases hlast
    have hcalls : d.calls = (spoken earlier ++ (some (t, command)).toList).map
        fun p ↦ (p.1, .send p.2) := by
      rw [h.calls_eq, hidle, hendedCalls, spoken_concat]
      exact List.append_nil _
    obtain ⟨part, hbytes, hpart⟩ := h.bytes_eq hcalls
      (fun _ he ↦ hendedCalls ▸ List.mem_append_left _ he) hwell
    have hlast : (t, Call.send command) ∈ d.calls := by simp [hcalls]
    obtain ⟨hmade, _, ⟨⟩, hkind, hframe⟩ := h.called _ hlast
    have hmem := h.settled ⟨t, .send command, .failed fault⟩ (by simp [hendedCalls])
    exact .intro hendedCalls hframes hplan.symm hbytes (by simpa using hpart)
      (Usage.lost_or_jammed h.explained h.decided h.told hkind hframe hmem hmade)
  | @past good' later bad hends hbad hlater =>
    -- the order is the last one, so the bad one came before it
    have hne : later ≠ [] := hlater.resolve_right fun hsome ↦ hsome hidle
    obtain ⟨between, last, rfl⟩ := (List.eq_nil_or_concat' later).resolve_left hne
    rw [horders, ← List.cons_append, ← List.append_assoc] at hends
    obtain ⟨rfl, -⟩ := List.append_inj' hends rfl
    exact absurd (hfine bad (by simp)) hbad

/-- **A handle sends what its orders come to.** A task gives any orders to the handle of a coil, one
after the other, on a connection that others use and that may be closed or fail at any moment. -/
theorem suppressed_run (peer : String) (n : UInt8) (config : CoilConfig) (steps : List Step) :
    ((fresh peer n config).run steps).Accounts n := by
  obtain ⟨hkept, hflow⟩ := kept_flow_run peer n config steps
  generalize (fresh peer n config).run steps = d at hkept hflow ⊢
  refine ⟨hkept.remembers, hkept.distinct, hkept.wrote hflow, fun hfine hidle ↦ ?_,
    fun good order e horders hfine hfits hidle ↦ hkept.failed hflow horders hfine hfits hidle,
    fun order ms hms hlong hidle ↦ ?_, fun hall ↦ ?_⟩
  · cases hflow with
    | idle _ _ _ _ hlast => exact hlast
    | busy hopenOrder => cases hidle.symm.trans hopenOrder
    | broken _ horders hfits => exact absurd hfine (not_fine_of_failed horders hfits)
    | past horders hbad => exact absurd (hfine _ (by simp [horders])) hbad
  · rw [step, hidle]
    dsimp only
    rw [CoilOrder.task_of_isTooLong hms hlong, goOn, ← hidle]
  · obtain ⟨peer, turns, hreached⟩ := hkept.reached
    have hprefix : d.usage.events.written <+: d.usage.events.frames :=
      hreached ▸ (Usage.framed_run peer turns).inOrder _ List.prefix_rfl
    exact Usage.share_eq_written hkept.sound hprefix hall

/-- The stream fails between the two calls of a pulse. The handle remembers the pulse time that it
has sent, though the coil has not been fired. -/
example :
    let d := (fresh "board" 1 {}).run [.order (.pulse { duration := 300 }), .turn (.act .proceed),
      .turn (.act (.accept 4)), .turn (.act .flush), .resume, .turn (.act .proceed),
      .turn (.act (.writeFails "broken pipe")), .resume]
    d.bytes = [24, 1, 1, 44] ∧ d.coil.lastMs = some 300 ∧
      d.orders.map Prod.snd = [.error (.transport (.io "broken pipe"))] := by
  decide +kernel

end DriverRun

end PinballBoard
