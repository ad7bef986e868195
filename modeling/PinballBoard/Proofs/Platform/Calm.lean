import PinballBoard.Proofs.Link.Smooth
import PinballBoard.Proofs.Platform.HostAndBoard

/-!
# A host and a board that get along

A board may be slow and may report as many changes as it likes, and still nothing has to go wrong.
`Responder.Compliant` says what it takes: the board has an identity, says nothing that contradicts
it, and reports no change that is none. `HostAndBoard.Step.isSmooth` are the steps of a world in
which the stream works and nobody gives anything up.

A host that only sends commands is then told what the board has replied to them, whenever it is told
anything (`HostAndBoard.Calm.allows`). This does not depend on the poll loop, whose calls come
between those of the host at any time.
-/

namespace PinballBoard

/-! ## Boards -/

/-- What a board is. -/
structure Identity where
  profile : Profile
  /-- What it calls its firmware, -/
  firmware : Bytes
  /-- and the language that it speaks. -/
  api : Bytes

namespace Identity

/-- What a board says that is this one and does what it should. -/
def Admits (i : Identity) : Command → Reply → Prop
  | .reset, reply => reply = .byte Code.resetOk
  | .identify, reply => reply = .string i.profile.family.identifier
  | .firmwareVersion, reply => reply = .string i.firmware
  | .apiVersion, reply => reply = .string i.api
  | .countLamps, reply => reply = .byte i.profile.lamps
  | .countCoils, reply => reply = .byte i.profile.coils
  | .countDisplays, reply => reply = .byte i.profile.displays
  | .readSwitch _, reply => reply = .byte 0 ∨ reply = .byte 1
  | .pollChanges, reply =>
    ∃ status report, reply = .byte status ∧ SwitchReport.ofByte status = .ok report
  | .lampOn _, _ | .lampOff _, _ | .coilOn _, _ | .coilOff _, _ | .coilPulse _, _
  | .setPulseTime _ _, _ | .showText _ _, _ => False

/-- How a call ends on such a board. -/
def Allows (i : Identity) : Call → Outcome → Prop
  | .request command, outcome => ∃ reply, outcome = .reply reply ∧ i.Admits command reply
  | call, outcome => call.EndsWell outcome

variable {i : Identity}

theorem fits_of_admits (hfirmware : Reply.fits (.string i.firmware))
    (hapi : Reply.fits (.string i.api)) {command : Command} {reply : Reply}
    (h : i.Admits command reply) : reply.fits = true := by
  cases command with
  | identify =>
    have hname : ∀ family : Family, Reply.fits (.string family.identifier) := by
      rintro (_ | _) <;> decide
    rw [show reply = _ from h]
    exact hname _
  | firmwareVersion => rwa [show reply = _ from h]
  | apiVersion => rwa [show reply = _ from h]
  | reset | countLamps | countCoils | countDisplays => rw [show reply = _ from h]; rfl
  | readSwitch => rcases h with rfl | rfl <;> rfl
  | pollChanges =>
    obtain ⟨status, -, rfl, -⟩ := h
    rfl
  | lampOn | lampOff | coilOn | coilOff | coilPulse | setPulseTime | showText => cases h

end Identity

/-- What the host relies on, of boards that are in order in some sense and stay so, when nothing is
to go wrong. -/
structure Responder.Compliant {β : Type} [Responder β] (good : β → Prop) (i : Identity) : Prop where
  answer : ∀ b c, good b → good (Responder.answer b c).1
  incur : ∀ b i, good b → good (Responder.incur b i)
  /-- A question is replied to, and nothing else. -/
  replies : ∀ b c, good b → ((Responder.answer b c).2 = none ↔ c.replyKind = none)
  admits : ∀ b c reply, good b → (Responder.answer b c).2 = some reply → i.Admits c reply
  firmware_fits : Reply.fits (.string i.firmware)
  api_fits : Reply.fits (.string i.api)

namespace Responder.Compliant

variable {β : Type} [Responder β] {good : β → Prop} {i : Identity}

theorem kind (h : Compliant good i) {b : β} {c : Command} (hb : good b) :
    (Responder.answer b c).2.map Reply.kind = c.replyKind := by
  have hreplies := h.replies b c hb
  have hadmits := h.admits b c
  cases hanswer : (Responder.answer b c).2 with
  | none => rw [hreplies.mp hanswer, Option.map_none]
  | some reply =>
    have hreply := hadmits reply hb hanswer
    cases c with
    | readSwitch => rcases hreply with rfl | rfl <;> rfl
    | pollChanges =>
      obtain ⟨status, -, rfl, -⟩ := hreply
      rfl
    | lampOn | lampOff | coilOn | coilOff | coilPulse | setPulseTime | showText => cases hreply
    | _ =>
      cases hreply
      rfl

theorem accepts (h : Compliant good i) {b : β} {c : Command} (hb : good b) :
    c.Accepts (Responder.answer b c).2 := by
  refine ⟨h.kind hb, ?_⟩
  cases hanswer : (Responder.answer b c).2 with
  | none => rfl
  | some reply =>
    exact Identity.fits_of_admits h.firmware_fits h.api_fits (h.admits b c reply hb hanswer)

theorem faithful (h : Compliant good i) : Faithful good where
  answer := h.answer
  incur := h.incur
  kind b c hb := h.kind hb
  unbroken b c data hb hanswer := by
    have hfits := (h.accepts (c := c) hb).2
    rw [hanswer] at hfits
    simp only [Option.all_some, Reply.fits, Bool.and_eq_true, decide_eq_true_eq] at hfits
    exact hfits.2

end Responder.Compliant

/-! ## Nothing has gone wrong -/

namespace HostAndBoard

variable {β : Type}

/-- A host and a board with whom nothing has gone wrong. -/
structure Calm (good : β → Prop) (i : Identity) (g : HostAndBoard β) : Prop
    extends InStep good g where
  smooth : g.watch.usage.Smooth
  /-- The board has said nothing that contradicts its identity. -/
  admitted : ∀ p ∈ g.said, i.Admits p.1 p.2
  expects : ∃ unheard, g.heard.map Prod.fst ++ unheard = g.watch.usage.encoded.map Prod.snd ∧
    g.watch.usage.Expects g.heard unheard g.toHost

variable {good : β → Prop} {i : Identity} {g : HostAndBoard β}

theorem calm_fresh (peer : String) {board : β} (hgood : good board) :
    Calm good i (fresh peer board) where
  toInStep := inStep_fresh peer hgood
  smooth := Usage.smooth_fresh peer
  admitted := nofun
  expects := by
    refine ⟨[], rfl, fun l hl ↦ ?_⟩
    cases hl
    exact .nothing rfl nofun

/-- Every call that has ended has ended as it does on such a board. -/
theorem Calm.allows (h : g.Calm good i) {t : Ticket} {call : Call} {outcome : Outcome}
    (hcall : g.watch.usage.calls[t]? = some call)
    (hsettled : Event.settled t outcome ∈ g.watch.usage.events) : i.Allows call outcome := by
  have hended := h.smooth.ended t call outcome hcall hsettled
  cases call with
  | request command =>
    obtain ⟨reply, rfl⟩ := hended
    exact ⟨reply, rfl, h.admitted _ (h.own_reply hcall hsettled)⟩
  | send | probe | close => exact hended

/-- What a turn does to the host does not depend on the board. -/
private theorem Calm.expects_act (h : g.Calm good i) {a : Action} {after : Bytes}
    (hbefore : g.toHost = a.arrived ++ after)
    (hreader : a.arrived = [] ∨ g.watch.usage.connection.reader?.isSome) :
    ∃ unheard, g.heard.map Prod.fst ++ unheard = (g.watch.usage.act a).encoded.map Prod.snd ∧
      (g.watch.usage.act a).Expects g.heard unheard after := by
  obtain ⟨unheard, horder, hexpects⟩ := h.expects
  refine ⟨_, ?_, hexpects.change h.linked.sound h.linked.framed.oneStream hbefore hreader
    (g.watch.usage.connection.change_step a)⟩
  rw [← List.append_assoc, horder, Usage.encoded_act, List.map_append]

private theorem Calm.smooth_act (h : g.Calm good i) {a : Action} (ha : a.isSmooth) {after : Bytes}
    (hbefore : g.toHost = a.arrived ++ after) : (g.watch.usage.act a).Smooth := by
  obtain ⟨unheard, -, hexpects⟩ := h.expects
  exact h.smooth.act h.linked.sound h.linked.framed ha hexpects hbefore

private theorem Calm.expects_call (h : g.Calm good i) (call : Call) :
    ∃ unheard, g.heard.map Prod.fst ++ unheard =
        (g.watch.usage.step (.call call)).encoded.map Prod.snd ∧
      (g.watch.usage.step (.call call)).Expects g.heard unheard g.toHost :=
  h.expects_act (a := .enter g.watch.usage.calls.length call) rfl (.inl rfl)

end HostAndBoard

/-! ## Smooth steps -/

/-- Whether a move can be made while nothing goes wrong, by anybody but the host. -/
def Move.isSmooth : Move → Bool
  | .link action => action.isSmooth
  | .advance | .take | .abandon | .elapse _ => true
  | .call _ | .giveUp _ | .abort | .cancelPolling => false

namespace HostAndBoard

variable {β : Type} [Responder β] {good : β → Prop} {i : Identity} {g : HostAndBoard β}

/-- Whether a step can be done while nothing goes wrong, by anybody but the host. -/
def Step.isSmooth : Step β → Bool
  | .move m => m.isSmooth
  | .bring _ | .hear _ | .incident _ => true

/-- A smooth move of the session is a smooth action, a poll, or nothing that the connection sees. -/
theorem turn?_of_isSmooth {s : Session} {move : Move} (hmove : move.isSmooth) :
    s.turn? move = none ∨
      s.phase? = some .ready ∧ s.turn? move = some (.call (.request .pollChanges)) ∨
        ∃ a, a.isSmooth ∧ s.turn? move = some (.act a) := by
  cases move with
  | link a =>
    rw [Session.turn?]
    split
    · exact .inr (.inr ⟨a, hmove, rfl⟩)
    · exact .inl rfl
  | advance =>
    rw [Session.turn?]
    split
    · exact .inr (.inl ⟨‹_›, rfl⟩)
    · exact .inl rfl
  | take | abandon => exact .inl rfl
  | elapse ms => exact .inr (.inr ⟨.elapse ms, rfl, rfl⟩)
  | call | giveUp | abort | cancelPolling => cases hmove

/-- What a smooth step is to the connection: nothing, a poll, or a smooth action. -/
theorem usage_step_of_isSmooth (g : HostAndBoard β) {step : Step β} (hsmooth : step.isSmooth) :
    (g.step step).watch.usage = g.watch.usage ∨
      g.watch.session.phase? = some .ready ∧
        (g.step step).watch.usage = g.watch.usage.step (.call (.request .pollChanges)) ∨
          ∃ a, a.isSmooth ∧ (g.step step).watch.usage = g.watch.usage.act a := by
  have hmoved : ∀ move : Move, move.isSmooth → (g.watch.step move).usage = g.watch.usage ∨
      g.watch.session.phase? = some .ready ∧
        (g.watch.step move).usage = g.watch.usage.step (.call (.request .pollChanges)) ∨
          ∃ a, a.isSmooth ∧ (g.watch.step move).usage = g.watch.usage.act a := by
    intro move hmove
    unfold Watch.step
    rcases turn?_of_isSmooth (s := g.watch.session) hmove with
      hnone | ⟨hready, hpoll⟩ | ⟨a, ha, hact⟩
    · rw [hnone]
      exact .inl rfl
    · rw [hpoll]
      exact .inr (.inl ⟨hready, rfl⟩)
    · rw [hact]
      refine .inr (.inr ⟨a, ha, Usage.step_act ?_⟩)
      rintro t call rfl
      cases ha
  obtain hsame | ⟨move, rfl, -, hstep⟩ | ⟨chunk, after, -, -, hstep⟩ | ⟨command, -, -, hstep⟩ |
    ⟨incident, hstep⟩ := g.step_cases step
  · exact .inl (by rw [hsame])
  · rw [hstep]
    exact hmoved move hsmooth
  · rw [hstep]
    exact hmoved (.link (.receive chunk)) rfl
  · exact .inl (by rw [hstep])
  · exact .inl (by rw [hstep])

private theorem isOrder_pollChanges : (Call.request .pollChanges).IsOrder :=
  ⟨Option.some_ne_none _, rfl⟩

private theorem Calm.of_turn (h : g.Calm good i) (hfaithful : Responder.Faithful good) {move : Move}
    (hfree : move.isFree = true) (hturn : ∀ turn, g.watch.session.turn? move = some turn →
      (g.watch.usage.step turn).Smooth ∧ ∃ unheard, g.heard.map Prod.fst ++ unheard =
        (g.watch.usage.step turn).encoded.map Prod.snd ∧
          (g.watch.usage.step turn).Expects g.heard unheard g.toHost) :
    (g.step (.move move)).Calm good i := by
  have hstep : g.step (.move move) = { g with watch := g.watch.step move } := if_pos hfree
  have hinStep := h.toInStep.step hfaithful (.move move)
  rw [hstep] at hinStep ⊢
  have husage : (g.watch.step move).usage =
      ((g.watch.session.turn? move).map g.watch.usage.step).getD g.watch.usage := rfl
  cases hsome : g.watch.session.turn? move with
  | none =>
    rw [hsome] at husage
    exact ⟨hinStep, husage ▸ h.smooth, h.admitted, husage ▸ h.expects⟩
  | some turn =>
    rw [hsome] at husage
    obtain ⟨hsmooth, hexpects⟩ := hturn turn hsome
    exact ⟨hinStep, husage ▸ hsmooth, h.admitted, husage ▸ hexpects⟩

theorem Calm.call (h : g.Calm good i) (hfaithful : Responder.Faithful good) {call : Call}
    (hfree : call.IsFree) (horder : call.IsOrder) : (g.step (.move (.call call))).Calm good i := by
  refine h.of_turn hfaithful (bne_iff_ne.mpr hfree) fun turn hturn ↦ ?_
  cases hturn
  exact ⟨h.smooth.call h.linked.sound horder, h.expects_call call⟩

private theorem Calm.move (h : g.Calm good i) (hfaithful : Responder.Faithful good) {move : Move}
    (hmove : move.isSmooth) : (g.step (.move move)).Calm good i := by
  by_cases hfree : move.isFree = true
  · refine h.of_turn hfaithful hfree fun turn hturn ↦ ?_
    rcases turn?_of_isSmooth (s := g.watch.session) hmove with hnone | ⟨-, hpoll⟩ | ⟨a, ha, hact⟩
    · rw [hnone] at hturn
      cases hturn
    · rw [hpoll] at hturn
      cases hturn
      exact ⟨h.smooth.call h.linked.sound isOrder_pollChanges, h.expects_call _⟩
    · rw [hact] at hturn
      cases hturn
      have harrived : a.arrived = [] := arrived_of_turn? hfree hact
      have hbefore : g.toHost = a.arrived ++ g.toHost := by rw [harrived, List.nil_append]
      have henter : ∀ t call, a ≠ .enter t call := by
        rintro t call rfl
        cases ha
      rw [Usage.step_act henter]
      exact ⟨h.smooth_act ha hbefore, h.expects_act hbefore (.inl harrived)⟩
  · have hstep : g.step (.move move) = g := if_neg hfree
    rwa [hstep]

private theorem Calm.bring (h : g.Calm good i) (hfaithful : Responder.Faithful good) (count : Nat) :
    (g.step (.bring count)).Calm good i := by
  have hinStep := h.toInStep.step hfaithful (.bring count)
  by_cases hreader : g.watch.session.connection.reader?.isSome
  · have hstep : g.step (.bring count) =
        { g with
          watch := g.watch.step (.link (.receive (g.toHost.take count)))
          toHost := g.toHost.drop count } := if_pos hreader
    rw [hstep] at hinStep ⊢
    have hbefore : g.toHost =
        Action.arrived (.receive (g.toHost.take count)) ++ g.toHost.drop count :=
      (List.take_append_drop count g.toHost).symm
    rw [h.linked.connection_eq] at hreader
    exact ⟨hinStep, h.smooth_act (a := .receive (g.toHost.take count)) rfl hbefore, h.admitted,
      h.expects_act hbefore (.inr hreader)⟩
  · have hstep : g.step (.bring count) = g := if_neg hreader
    rwa [hstep]

private theorem Calm.hear (h : g.Calm good i) (hcompliant : Responder.Compliant good i)
    (command : Command) : (g.step (.hear command)).Calm good i := by
  have hinStep := h.toInStep.step hcompliant.faithful (.hear command)
  by_cases hfront : command.HasFrame ∧ command.frame <+: g.toBoard
  · rw [step_hear hfront] at hinStep ⊢
    obtain ⟨unheard, horder, hexpects⟩ := h.expects
    obtain ⟨⟨rest, rfl⟩, -⟩ :=
      h.linked.framed.next_heard h.heard_written horder hfront.1 hfront.2
    refine ⟨hinStep, h.smooth, fun p hp ↦ ?_, rest, by simpa using horder, fun l hl ↦ ?_⟩
    · obtain ⟨q, hq, hreply⟩ := List.mem_filterMap.mp hp
      rcases List.mem_append.mp hq with hold | hnew
      · exact h.admitted p (List.mem_filterMap.mpr ⟨q, hold, hreply⟩)
      · obtain rfl := List.mem_singleton.mp hnew
        obtain ⟨reply, hanswer, rfl⟩ := Option.map_eq_some_iff.mp hreply
        exact hcompliant.admits g.board command reply h.good hanswer
    · have hanswer := (hexpects l hl).answer (hcompliant.accepts (c := command) h.good)
      rwa [List.append_assoc] at hanswer
  · have hstep : g.step (.hear command) = g := if_neg hfront
    rwa [hstep]

theorem Calm.step (h : g.Calm good i) (hcompliant : Responder.Compliant good i) {step : Step β}
    (hsmooth : step.isSmooth) : (g.step step).Calm good i := by
  cases step with
  | move move => exact h.move hcompliant.faithful hsmooth
  | bring count => exact h.bring hcompliant.faithful count
  | hear command => exact h.hear hcompliant command
  | incident incident =>
    have hinStep := h.toInStep.step hcompliant.faithful (.incident incident)
    exact ⟨hinStep, h.smooth, h.admitted, h.expects⟩

/-- With a compliant board a smooth world stays calm. -/
theorem Calm.run (h : g.Calm good i) (hcompliant : Responder.Compliant good i)
    {steps : List (Step β)} (hsteps : ∀ step ∈ steps, step.isSmooth) :
    (g.run steps).Calm good i := by
  induction steps generalizing g with
  | nil => exact h
  | cons step steps ih =>
    exact ih (h.step hcompliant (hsteps step List.mem_cons_self))
      fun other hother ↦ hsteps other (List.mem_cons_of_mem _ hother)

end HostAndBoard

end PinballBoard
