import PinballBoard.Proofs.Platform.Calm
import PinballBoard.Proofs.Platform.Mirror

/-!
# Compliant boards

The simulated board does whatever it is told, well or badly. Here it is told to do well: it calls
itself by a name that hosts know, each of its switches is active or is not, and the changes that it
is told to report are changes. Such a board is compliant (`CarefulBoard.compliant`), and so there
are compliant boards of any profile.
-/

namespace PinballBoard

/-- A simulated board that is told nothing but changes. -/
structure CarefulBoard where
  board : Board

/-- A status that says something. -/
def SwitchReport.IsReport (status : UInt8) : Prop := ∃ report, ofByte status = .ok report

instance : Responder CarefulBoard where
  Incident := { status : UInt8 // SwitchReport.IsReport status }
  answer b c := (⟨b.board.obey c⟩, b.board.replyTo c)
  incur b status := ⟨b.board.pushChange status.1⟩

namespace CarefulBoard

variable {i : Identity} {b : CarefulBoard}

/-- A board with this identity that does what it should. -/
structure Is (i : Identity) (b : CarefulBoard) : Prop where
  /-- What it answers is what the simulated board does, byte by byte (`Board.receiveAll_frame`). -/
  inOrder : b.board.InOrder
  reset_eq : b.board.resetCode = Code.resetOk
  identifier_eq : Text.utf8 b.board.identifier = i.profile.family.identifier
  firmware_eq : Text.utf8 b.board.firmwareVersion = i.firmware
  api_eq : Text.utf8 b.board.apiVersion = i.api
  lamps_eq : b.board.lamps = i.profile.lamps
  coils_eq : b.board.coils = i.profile.coils
  displays_eq : b.board.displays = i.profile.displays
  switches : ∀ number, b.board.switchReply number = 0 ∨ b.board.switchReply number = 1
  changes : ∀ status ∈ b.board.changes, SwitchReport.IsReport status

private theorem Is.answerPoll (h : b.Is i) (hinOrder : b.board.answerPoll.1.InOrder) :
    Is i ⟨b.board.answerPoll.1⟩ := by
  unfold Board.answerPoll at hinOrder ⊢
  cases hchanges : b.board.changes with
  | nil =>
    rw [hchanges] at hinOrder
    dsimp only at hinOrder ⊢
    rw [if_neg (by simp [h.inOrder.stays])] at hinOrder ⊢
    exact { h with inOrder := hinOrder, changes := nofun }
  | cons status changes =>
    rw [hchanges] at hinOrder
    refine { h with inOrder := hinOrder, switches := fun number ↦ ?_, changes := ?_ }
    · dsimp only
      rw [Board.switchReply_setSwitchReply]
      split
      · split
        exacts [.inr rfl, .inl rfl]
      · exact h.switches number
    · intro other hother
      exact h.changes other (hchanges ▸ List.mem_cons_of_mem _ hother)

private theorem Is.obey (h : b.Is i) (c : Command) : Is i ⟨b.board.obey c⟩ := by
  have hinOrder := h.inOrder.obey c
  by_cases hpoll : c = .pollChanges
  · have hobey : b.board.obey c = b.board.answerPoll.1 := if_pos hpoll
    rw [hobey] at hinOrder ⊢
    exact h.answerPoll hinOrder
  · have hobey : b.board.obey c = { b.board with frames := b.board.frames ++ [c.frame] } :=
      if_neg hpoll
    rw [hobey] at hinOrder ⊢
    exact { h with inOrder := hinOrder }

private theorem Is.pushChange (h : b.Is i) {status : UInt8}
    (hstatus : SwitchReport.IsReport status) : Is i ⟨b.board.pushChange status⟩ := by
  have hinOrder : (b.board.pushChange status).InOrder :=
    ⟨h.inOrder.between, h.inOrder.stays, h.inOrder.unbroken⟩
  refine { h with inOrder := hinOrder, changes := ?_ }
  intro other hother
  rcases List.mem_append.mp hother with hold | hnew
  · exact h.changes other hold
  · exact List.mem_singleton.mp hnew ▸ hstatus

private theorem Is.admits (h : b.Is i) {c : Command} {reply : Reply}
    (hreply : b.board.replyTo c = some reply) : i.Admits c reply := by
  cases c with
  | readSwitch switch =>
    obtain rfl := Option.some.inj hreply
    exact (h.switches switch.number).imp (congrArg Reply.byte) (congrArg Reply.byte)
  | pollChanges =>
    obtain rfl := Option.some.inj hreply
    have hreport : SwitchReport.IsReport (b.board.changes.headD Code.noChange) := by
      cases hchanges : b.board.changes with
      | nil => exact ⟨.unchanged, rfl⟩
      | cons status changes => exact h.changes status (hchanges ▸ List.mem_cons_self)
    obtain ⟨report, hreport⟩ := hreport
    exact ⟨_, report, rfl, hreport⟩
  | reset => exact (Option.some.inj hreply).symm.trans (congrArg Reply.byte h.reset_eq)
  | identify => exact (Option.some.inj hreply).symm.trans (congrArg Reply.string h.identifier_eq)
  | firmwareVersion =>
    exact (Option.some.inj hreply).symm.trans (congrArg Reply.string h.firmware_eq)
  | apiVersion => exact (Option.some.inj hreply).symm.trans (congrArg Reply.string h.api_eq)
  | countLamps => exact (Option.some.inj hreply).symm.trans (congrArg Reply.byte h.lamps_eq)
  | countCoils => exact (Option.some.inj hreply).symm.trans (congrArg Reply.byte h.coils_eq)
  | countDisplays => exact (Option.some.inj hreply).symm.trans (congrArg Reply.byte h.displays_eq)
  | lampOn | lampOff | coilOn | coilOff | coilPulse | setPulseTime | showText => cases hreply

/-- **A board that is told to do well does so.** -/
theorem compliant (hfirmware : Reply.fits (.string i.firmware))
    (hapi : Reply.fits (.string i.api)) : Responder.Compliant (Is i) i where
  answer _ c hb := hb.obey c
  incur _ status hb := hb.pushChange status.2
  replies b c _ := by
    rw [← b.board.kind_replyTo c]
    exact Option.map_eq_none_iff.symm
  admits _ _ _ hb hreply := hb.admits hreply
  firmware_fits := hfirmware
  api_fits := hapi

end CarefulBoard

end PinballBoard
