import PinballBoard.Proofs.Program.Fairness
import PinballBoard.Proofs.Simulator.Compliance

/-!
# Orders from end to end

The whole program with a compliant board, whatever the order asks for and however host, stream and
board take turns. An order that can be carried out is, and one that cannot be fails without a trace
on the wire. Either way the program ends polling and the stream (`Order.Completed`), and it comes to
its end as soon as everybody has done his duty often enough.

This is so with all options for which there can be a channel. With any other the program starts the
board and crashes, whatever the order is (`Order.Crashed`).

What goes on the wire besides are the polls, as many as there is time for. They come between the
frames of the program and never into one of them.
-/

namespace PinballBoard

/-- Whole frames have been written, and without the polls they are these. -/
def HostAndBoard.HasWritten {β : Type} (g : HostAndBoard β) (frames : List Bytes) : Prop :=
  ∃ commands, g.watch.usage.written = Command.frames commands ∧
    (∀ command ∈ commands, command.HasFrame) ∧
    (Command.withoutPolls commands).map Command.frame = frames

namespace Order

/-- How the program has ended with an order. -/
structure Completed {β : Type} (i : Identity) (order : Order)
    (result : Except Failure (List String)) (m : CommandRun β (Except Failure (List String))) :
    Prop where
  /-- The frames of the handshake have been written, and then those of the order, if it can be
  carried out. -/
  written : m.system.HasWritten (Handshake.frames ++ (order.frames? i.profile).getD [])
  /-- If it can be the program succeeds and prints what it has to, else it fails. -/
  result_eq : match order.frames? i.profile with
    | some _ => result = .ok (order.lines i)
    | none => ∃ f, result = .error f
  /-- There is no poll loop any more, -/
  unpolled : m.system.watch.session.isPolling = false
  /-- and no stream. -/
  closed : m.system.watch.session.connection.link = none ∧
    m.system.watch.session.connection.closer = none

/-- How the program has crashed: the board has been started, and that is all. -/
structure Crashed {β α : Type} (m : CommandRun β α) : Prop where
  written : m.system.HasWritten Handshake.frames
  unpolled : m.system.watch.session.isPolling = false

variable {β : Type} {i : Identity} {order : Order}

theorem goesWell_fresh (i : Identity) (order : Order) (options : PlatformOptions) (peer : String)
    {good : β → Prop} {board : β} (hgood : good board) (horder : order ≠ .monitor) :
    (CommandRun.fresh peer board order.plan).GoesWell options good i (order.Ends i) :=
  CommandRun.goesWell_fresh peer hgood (serves_plan i horder)

/-- Calls that have ended well have been written, one after the other. -/
private theorem hasWritten_of_spoken {g : HostAndBoard β} {own : List Call}
    (hspoken : CommandRun.Spoken own g) :
    g.HasWritten ((Call.sendable own).map Command.frame) := by
  obtain ⟨peer, turns, husage⟩ := hspoken.linked.usage_eq
  obtain ⟨commands, hwritten, hwhole, hsame⟩ :=
    Usage.written_of_ended peer turns (husage ▸ hspoken.sent)
  rw [← husage] at hwritten hsame
  refine ⟨commands, hwritten, hwhole, ?_⟩
  rw [hsame, Call.withoutPolls_sendable, hspoken.own_eq]

/-- Who has shut down with an order has completed it. -/
theorem completed_of_closing {m : CommandRun β (Except Failure (List String))}
    {result : Except Failure (List String)} {own : List Call}
    (hends : order.Ends i own (.finished result))
    (hclosing : m.Closing own result) (hlink : m.system.watch.usage.connection.link = none)
    (hcloser : m.system.watch.usage.connection.closer = none) : order.Completed i result m := by
  obtain ⟨hframes, hresult⟩ := hends
  obtain ⟨failure, hended⟩ := hclosing.ended
  refine ⟨?_, hresult, Session.isPolling_of_ended hended, ?_⟩
  · rw [← hframes]
    exact hasWritten_of_spoken hclosing.toSpoken
  · rw [hclosing.linked.connection_eq]
    exact ⟨hlink, hcloser⟩

/-- Who has halted behind the handshake has crashed there. -/
theorem crashed_of_halted {m : CommandRun β (Except Failure (List String))}
    {own : List Call} (hends : order.Ends i own .crashed) (hhalted : m.Halted own) :
    Crashed m := by
  have hpoll := Option.map_eq_none_iff.mp hhalted.unpolled
  refine ⟨?_, by rw [Session.isPolling, hpoll, Option.any_none]⟩
  rw [← show (Call.sendable own).map Command.frame = Handshake.frames from hends]
  exact hasWritten_of_spoken hhalted.toSpoken

/-- **Orders are carried out from end to end, or fail without a trace**, and only a channel that
there cannot be keeps the program from it. -/
theorem completed_run [Responder β] {good : β → Prop} {board : β}
    (hcompliant : Responder.Compliant good i) (hgood : good board) (horder : order ≠ .monitor)
    (peer : String) (options : PlatformOptions) (schedule : ℕ → CommandRun.Step β) :
    let m := CommandRun.fresh peer board order.plan
    (∀ n result, (m.after options schedule n).plan = .ended (.finished result) →
        options.HasChannel ∧ order.Completed i result (m.after options schedule n)) ∧
      (∀ n, (m.after options schedule n).plan = .ended .crashed →
        ¬options.HasChannel ∧ Crashed (m.after options schedule n)) ∧
      (m.Fair options schedule → if options.HasChannel
        then ∃ n result, (m.after options schedule n).plan = .ended (.finished result)
        else ∃ n, (m.after options schedule n).plan = .ended .crashed) := by
  intro m
  have hgoes := order.goesWell_fresh i options peer hgood horder
  have hfinished : ∀ n result, (m.after options schedule n).plan = .ended (.finished result) →
      options.HasChannel ∧ order.Completed i result (m.after options schedule n) := by
    intro n result hplan
    obtain ⟨hchannel, own, hends, hclosing, hlink, hcloser⟩ :=
      (hgoes.after hcompliant schedule n).of_finished hplan
    exact ⟨hchannel, completed_of_closing hends hclosing hlink hcloser⟩
  have hcrashed : ∀ n, (m.after options schedule n).plan = .ended .crashed →
      ¬options.HasChannel ∧ Crashed (m.after options schedule n) := by
    intro n hplan
    obtain ⟨own, hends, hchannel, hhalted⟩ :=
      (hgoes.after hcompliant schedule n).of_crashed hplan
    exact ⟨hchannel, crashed_of_halted hends hhalted⟩
  refine ⟨hfinished, hcrashed, fun hfair ↦ ?_⟩
  obtain ⟨n, ending, hplan⟩ := hgoes.ends hcompliant hfair
  cases ending with
  | finished result => rw [if_pos (hfinished n result hplan).1]; exact ⟨n, result, hplan⟩
  | crashed => rw [if_neg (hcrashed n hplan).1]; exact ⟨n, hplan⟩

/-- A board that has a change to report before anybody asks. -/
def attentiveBoard : CarefulBoard := ⟨{ changes := [133] }⟩

/-- What it is. -/
def attentive : Identity where
  profile := ⟨.system1, 36, 9, 5⟩
  firmware := Text.utf8 "5.28"
  api := Text.utf8 "0.09"

private theorem is_attentiveBoard : attentiveBoard.Is attentive where
  inOrder := ⟨rfl, rfl, by decide⟩
  reset_eq := rfl
  identifier_eq := rfl
  firmware_eq := rfl
  api_eq := rfl
  lamps_eq := rfl
  coils_eq := rfl
  displays_eq := rfl
  switches number := .inl (Vector.getElem_replicate _)
  changes status hstatus := by
    obtain rfl := List.mem_singleton.mp hstatus
    exact ⟨.changed ⟨5, by decide, by decide⟩ true, by decide⟩

theorem completed_run_lamp :
    ∃ schedule n,
      let m := (CommandRun.fresh "board" attentiveBoard (Order.lamp "7" true).plan).after ⟨1, 50⟩
        schedule n
      m.plan = .ended (.finished (.ok [])) ∧ m.system.watch.session.isPolling = false ∧
        m.system.HasWritten (Handshake.frames ++ [[11, 7]]) := by
  have hcompliant : Responder.Compliant (CarefulBoard.Is attentive) attentive :=
    CarefulBoard.compliant (by decide) (by decide)
  have hframes : (Order.lamp "7" true).frames? attentive.profile = some [[11, 7]] := by
    decide +kernel
  have horder : Order.lamp "7" true ≠ .monitor := nofun
  obtain ⟨schedule, hfair⟩ := CommandRun.exists_fair ⟨1, 50⟩
    (CommandRun.fresh "board" attentiveBoard (Order.lamp "7" true).plan)
  have hrun := completed_run hcompliant is_attentiveBoard horder "board" ⟨1, 50⟩ schedule
  have hends := hrun.2.2 hfair
  rw [if_pos (by decide)] at hends
  obtain ⟨n, result, hfinished⟩ := hends
  obtain ⟨-, hcompleted⟩ := hrun.1 n result hfinished
  have hwritten := hcompleted.written
  have hresult := hcompleted.result_eq
  rw [hframes] at hwritten hresult
  exact ⟨schedule, n, hresult ▸ hfinished, hcompleted.unpolled, hwritten⟩

end Order

end PinballBoard
