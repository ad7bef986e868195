import PinballBoard.Program.Order
import PinballBoard.Proofs.Link.Written
import PinballBoard.Proofs.Platform.Calm

/-!
# What comes of an order

An order names a device by a text and may ask for a pulse time. Whether such a device exists is a
matter of the profile of the board, and so is all that the order puts on the wire:
`Order.frames?` are the frames, if the order can be carried out. `yields_oneShot` says that a task
with a compliant board sends just these and succeeds, or sends none and fails. There is nothing in
between: every check comes before the first command.

The same is said of starting a board (`Platform.yields_start`), which always succeeds.
-/

namespace PinballBoard

/-- A call that a task of the host makes as long as nothing goes wrong. -/
def Call.IsHosts (call : Call) : Prop := call.IsFree ∧ call.IsOrder

namespace Identity

variable {i : Identity} {command : Command} {outcome : Outcome}

theorem eq_done_of_allows (h : i.Allows (.send command) outcome) (hframe : command.HasFrame) :
    outcome = .done := by
  rcases h with ⟨-, hdone⟩ | ⟨e, hencode, -⟩
  · exact hdone
  · rw [Command.HasFrame, hencode] at hframe
    cases hframe

end Identity

/-! ## Starting -/

namespace Handshake

variable {i : Identity} {P : List Call → Except DeviceError Discovery → Prop}

/-- All frames of a handshake. -/
def frames : List Bytes :=
  [[100], [0], [3], [4], [6]] ++ (List.range 8).flatMap fun row ↦
    (List.range 8).map fun column ↦ [40, UInt8.ofNat (10 * row + column)]

example : frames.length = 69 := by decide +kernel

theorem map_frame_script : (script.map Prod.snd).map Command.frame = frames := by decide +kernel

/-- A question whose reply can be read. -/
private theorem yields_question {α : Type} {stage : HandshakeStage} {command : Command}
    {read : Reply → Except DeviceError α} {next : α → Course}
    (hcommand : Call.IsHosts (.request command))
    (hread : ∀ reply, i.Admits command reply → ∃ answer, read reply = .ok answer ∧
      (next answer).Yields Call.IsHosts i.Allows fun calls ↦ P (.request command :: calls)) :
    (question stage command read next).Yields Call.IsHosts i.Allows P := by
  refine ⟨hcommand, ?_⟩
  rintro outcome ⟨reply, rfl, hreply⟩
  obtain ⟨answer, hanswer, hnext⟩ := hread reply hreply
  simpa only [Outcome.asReply, Except.bind, hanswer] using hnext

private theorem isHosts_readSwitch (switch : Switch) :
    Call.IsHosts (.request (.readSwitch switch)) :=
  ⟨nofun, nofun, rfl⟩

private theorem yields_readSwitches (switches : List Switch) (table : SwitchTable) :
    (readSwitches i.profile switches table).Yields Call.IsHosts i.Allows fun calls result ↦
      calls = switches.map (fun switch ↦ .request (.readSwitch switch)) ∧
        ∃ table, result = .ok ⟨i.profile, table⟩ := by
  induction switches generalizing table with
  | nil => exact ⟨rfl, table, rfl⟩
  | cons switch switches ih =>
    refine yields_question (isHosts_readSwitch switch) fun reply hreply ↦ ?_
    obtain ⟨active, hactive⟩ : ∃ active, readState switch reply = .ok active := by
      rcases hreply with rfl | rfl
      exacts [⟨false, rfl⟩, ⟨true, rfl⟩]
    refine ⟨active, hactive, (ih (table.insert switch active)).mono ?_⟩
    rintro calls result ⟨rfl, hresult⟩
    exact ⟨rfl, hresult⟩

/-- With a compliant board the handshake comes to its end. -/
private theorem yields_course :
    course.Yields Call.IsHosts i.Allows fun calls result ↦
      calls = script.map (fun q ↦ .request q.2) ∧
        ∃ table, result = .ok ⟨i.profile, table⟩ := by
  have hcount : ∀ n : UInt8, readCount (.byte n) = .ok n := fun _ ↦ rfl
  refine yields_question ⟨nofun, nofun, rfl⟩ ?_
  rintro reply rfl
  refine ⟨(), rfl, yields_question ⟨nofun, nofun, rfl⟩ ?_⟩
  rintro reply rfl
  refine ⟨i.profile.family, by cases i.profile.family <;> rfl, ?_⟩
  refine yields_question ⟨nofun, nofun, rfl⟩ ?_
  rintro reply rfl
  refine ⟨_, hcount _, yields_question ⟨nofun, nofun, rfl⟩ ?_⟩
  rintro reply rfl
  refine ⟨_, hcount _, yields_question ⟨nofun, nofun, rfl⟩ ?_⟩
  rintro reply rfl
  refine ⟨_, hcount _, (yields_readSwitches Switch.all .empty).mono ?_⟩
  rintro calls result ⟨rfl, hresult⟩
  refine ⟨?_, hresult⟩
  rw [script]
  simp

end Handshake

theorem Platform.yields_start (i : Identity) :
    start.Yields Call.IsHosts i.Allows fun calls result ↦
      (Call.sendable calls).map Command.frame = Handshake.frames ∧
        ∃ table, result = .ok ⟨i.profile, table⟩ := by
  refine (Handshake.yields_course.view _).andThen ?_
  rintro - calls result ⟨rfl, table, rfl⟩
  refine ⟨?_, table, rfl⟩
  rw [List.append_nil, ← Handshake.map_frame_script]
  have hframes : ∀ q ∈ Handshake.script, q.2.HasFrame := by decide +kernel
  have hcommands : (Handshake.script.map fun q ↦ Call.request q.2).filterMap Call.command? =
      Handshake.script.map Prod.snd := by
    rw [List.filterMap_map, ← List.filterMap_eq_map]
    rfl
  rw [Call.sendable, hcommands, List.filter_eq_self.mpr]
  rintro command hcommand
  obtain ⟨q, hq, rfl⟩ := List.mem_map.mp hcommand
  exact decide_eq_true (hframes q hq)

/-! ## Orders -/

namespace Order

/-- What an order puts on the wire, if a board with this profile can carry it out. -/
def frames? (p : Profile) : Order → Option (List Bytes)
  | monitor => none
  | info => some [[1], [2]]
  | pulse text ms => (Text.byte? text).bind fun n ↦
    if p.hasCoil n ∧ ms.toNat ≤ 65535 then
      some [[24, n, UInt8.ofNat (ms.toNat / 256), UInt8.ofNat (ms.toNat % 256)], [23, n]]
    else none
  | lamp text on => (Text.byte? text).bind fun n ↦
    if p.hasLamp n then some [[if on then 11 else 12, n]] else none
  | display number text => (Text.byte? number).bind fun n ↦
    if p.hasDisplay n ∧ '\x00' ∉ text.toList then
      some [(30 + n) :: (Text.utf8 text ++ [0])]
    else none

/-- What the program prints in the end. -/
def lines (i : Identity) : Order → List String
  | info => infoLines i.profile ⟨Text.lossy i.firmware, Text.lossy i.api⟩
  | _ => []

/-- The order has been carried out by these calls, or could not be and has sent nothing. -/
def Serves (i : Identity) (order : Order) (calls : List Call)
    (result : Except DeviceError (List String)) : Prop :=
  match order.frames? i.profile with
  | some frames =>
    (Call.sendable calls).map Command.frame = frames ∧ result = .ok (order.lines i)
  | none => Call.sendable calls = [] ∧ ∃ e, result = .error e

variable {i : Identity} {order : Order} {calls : List Call}

theorem serves_of_frames {frames : List Bytes} (h : order.frames? i.profile = some frames)
    (hcalls : (Call.sendable calls).map Command.frame = frames) :
    order.Serves i calls (.ok (order.lines i)) := by
  rw [Serves, h]
  exact ⟨hcalls, rfl⟩

theorem serves_of_none {e : DeviceError} (h : order.frames? i.profile = none)
    (hcalls : Call.sendable calls = []) : order.Serves i calls (.error e) := by
  rw [Serves, h]
  exact ⟨hcalls, e, rfl⟩

/-- A device that a text denotes, and a task on it. -/
private theorem yields_onDevice {α σ : Type} {kind text : String} (has : UInt8 → Bool)
    {make : UInt8 → α} {fault : UInt8 → DeviceError}
    {task : α → Dialogue σ (Except DeviceError Unit)}
    (hnone : (∀ n, Text.byte? text = some n → has n = false) → order.frames? i.profile = none)
    (hsome : ∀ n, Text.byte? text = some n → has n = true →
      (task (make n)).Yields Call.IsHosts i.Allows fun calls result ↦
        order.Serves i calls (result.map fun _ ↦ [])) :
    (onDevice ((Platform.indexOf kind text).bind fun n ↦
      if has n then .ok (make n) else .error (fault n)) task).Yields Call.IsHosts i.Allows
        (order.Serves i) := by
  unfold Platform.indexOf
  cases hbyte : Text.byte? text with
  | none => exact serves_of_none (hnone (by simp [hbyte])) rfl
  | some n =>
    simp only [Except.bind]
    cases hhas : has n with
    | true =>
      rw [if_pos rfl]
      refine ((hsome n hbyte hhas).view _).andThen fun _ calls result hresult ↦ ?_
      change order.Serves i (calls ++ []) _
      rwa [List.append_nil]
    | false =>
      rw [if_neg Bool.false_ne_true]
      refine serves_of_none (hnone fun m hm ↦ ?_) rfl
      obtain rfl := Option.some.inj (hbyte.symm.trans hm)
      exact hhas

private theorem isHosts_send {command : Command} (h : command.replyKind = none) :
    Call.IsHosts (.send command) := by
  refine ⟨?_, nofun, by simp [Call.refusal, h]⟩
  intro hpoll
  rw [Option.some.inj hpoll] at h
  cases h

private theorem bytes_of_ms {ms : UInt32} (h : ms.toNat ≤ 65535) :
    PulseTime.bytes ⟨ms.toUInt16⟩ =
      [UInt8.ofNat (ms.toNat / 256), UInt8.ofNat (ms.toNat % 256)] := by
  have hsmall : ms.toUInt16.toNat = ms.toNat := by
    rw [UInt32.toNat_toUInt16, Nat.mod_eq_of_lt (Nat.lt_succ_of_le h)]
  rw [PulseTime.bytes_eq, hsmall]

private theorem yields_pulse (text : String) (ms : UInt32) :
    (onDevice (Platform.configureCoil i.profile text {}) (·.pulse { duration := ms })).Yields
      Call.IsHosts i.Allows ((pulse text ms).Serves i) := by
  refine yields_onDevice i.profile.hasCoil (fun hbad ↦ ?_) fun n hbyte hcoil ↦ ?_
  · cases hbyte : Text.byte? text with
    | none => simp [frames?, hbyte]
    | some n => simp [frames?, hbyte, hbad n hbyte]
  · unfold Coil.pulse Coil.withDuration PulseTime.ofMs
    by_cases hms : ms.toNat < 65536
    · rw [if_pos hms]
      refine ⟨isHosts_send rfl, fun outcome hallowed ↦ ?_⟩
      obtain rfl := Identity.eq_done_of_allows hallowed rfl
      refine ⟨isHosts_send rfl, fun outcome hallowed ↦ ?_⟩
      obtain rfl := Identity.eq_done_of_allows hallowed rfl
      have hms : ms.toNat ≤ 65535 := Nat.le_of_lt_succ hms
      have hframes : (pulse text ms).frames? i.profile =
          some [24 :: n :: PulseTime.bytes ⟨ms.toUInt16⟩, [23, n]] := by
        simp [frames?, hbyte, hcoil, hms, bytes_of_ms hms]
      exact serves_of_frames hframes rfl
    · rw [if_neg hms]
      refine serves_of_none ?_ rfl
      simp [frames?, hbyte, Nat.lt_of_not_le fun h ↦ hms (Nat.lt_succ_of_le h)]

private theorem yields_lamp (text : String) (on : Bool) :
    (onDevice (Platform.configureLamp i.profile text)
      (·.setBrightness (if on then .one else .zero))).Yields Call.IsHosts i.Allows
        ((Order.lamp text on).Serves i) := by
  refine yields_onDevice i.profile.hasLamp (fun hbad ↦ ?_) fun n hbyte hlamp ↦ ?_
  · cases hbyte : Text.byte? text with
    | none => simp [frames?, hbyte]
    | some n => simp [frames?, hbyte, hbad n hbyte]
  · have hcommand : Lamp.brightnessCommand ⟨n⟩ (if on then .one else .zero) =
        if on then .lampOn n else .lampOff n := by
      have hone : Decimal.Single.one.isPositive = true := by decide +kernel
      have hzero : Decimal.Single.zero.isPositive = false := by decide +kernel
      cases on <;> simp [Lamp.brightnessCommand, hone, hzero]
    have hframes : (Order.lamp text on).frames? i.profile = some [[if on then 11 else 12, n]] := by
      simp [frames?, hbyte, hlamp]
    rw [Lamp.setBrightness, hcommand]
    cases on <;>
    · refine ⟨isHosts_send rfl, fun outcome hallowed ↦ ?_⟩
      obtain rfl := Identity.eq_done_of_allows hallowed rfl
      exact serves_of_frames hframes rfl

private theorem code_showText {n : UInt8} (text : String) (h : n.toNat < 7) :
    (Command.showText n text).code = 30 + n := by
  apply UInt8.toNat_inj.mp
  simp [Command.code, Code.displayBase]
  omega

private theorem yields_display (number text : String) :
    (onDevice (Platform.configureDisplay i.profile number) (·.setText text)).Yields
      Call.IsHosts i.Allows ((Order.display number text).Serves i) := by
  refine yields_onDevice i.profile.hasDisplay (fun hbad ↦ ?_) fun n hbyte hdisplay ↦ ?_
  · cases hbyte : Text.byte? number with
    | none => simp [frames?, hbyte]
    | some n => simp [frames?, hbyte, hbad n hbyte]
  · refine ⟨isHosts_send rfl, fun outcome hallowed ↦ ?_⟩
    have hn : n.toNat < Limit.displays.toNat := by
      rw [Profile.hasDisplay, Bool.and_eq_true, decide_eq_true_eq, decide_eq_true_eq] at hdisplay
      exact hdisplay.2
    by_cases htext : '\x00' ∈ text.toList
    · have hframe : ¬(Command.showText n text).HasFrame :=
        Command.not_hasFrame_iff.mpr ⟨n, text, rfl, .inr htext⟩
      rcases hallowed with ⟨hgood, -⟩ | ⟨e, -, rfl⟩
      · exact absurd hgood hframe
      · refine serves_of_none ?_ ?_
        · simp [frames?, hbyte, htext]
        · simp [Call.sendable, Call.command?, hframe]
    · have hencode : (Command.showText n text).encode =
          .ok ((30 + n) :: (Text.utf8 text ++ [0])) := by
        rw [Command.encode, if_pos hn, Frame.ofText, if_neg (mt Text.terminator_mem_utf8.mp htext),
          code_showText text hn]
        rfl
      have hframe : (Command.showText n text).HasFrame := Command.hasFrame_of_encode hencode
      obtain rfl := Identity.eq_done_of_allows hallowed hframe
      have hframes : (Order.display number text).frames? i.profile =
          some [(30 + n) :: (Text.utf8 text ++ [0])] := by
        simp [frames?, hbyte, hdisplay, htext]
      refine serves_of_frames hframes ?_
      simp [Call.sendable, Call.command?, hframe, Command.frame_of_encode hencode]

private theorem yields_info :
    (Platform.firmware.andThen fun _ result ↦
      Dialogue.done () (result.map (infoLines i.profile))).Yields Call.IsHosts i.Allows
        (info.Serves i) := by
  have hasked : ∀ command, command.replyKind ≠ none → command ≠ .pollChanges →
      Call.IsHosts (.request command) := by
    intro command hkind hpoll
    refine ⟨fun h ↦ hpoll (Option.some.inj h), Option.some_ne_none _, ?_⟩
    cases hcase : command.replyKind with
    | none => exact absurd hcase hkind
    | some kind => simp [Call.refusal, hcase]
  refine ⟨hasked _ (Option.some_ne_none _) (by simp), ?_⟩
  rintro outcome ⟨reply, rfl, rfl⟩
  refine ⟨hasked _ (Option.some_ne_none _) (by simp), ?_⟩
  rintro outcome ⟨reply, rfl, rfl⟩
  have hframes : info.frames? i.profile = some [[1], [2]] := rfl
  exact serves_of_frames hframes rfl

/-- **An order is carried out, or nothing of it is.** -/
theorem yields_oneShot (i : Identity) {order : Order} (horder : order ≠ monitor) :
    ∃ task, order.oneShot? i.profile = some task ∧
      task.Yields Call.IsHosts i.Allows (order.Serves i) := by
  cases order with
  | monitor => exact absurd rfl horder
  | info => exact ⟨_, rfl, yields_info⟩
  | pulse text ms => exact ⟨_, rfl, yields_pulse text ms⟩
  | lamp text on => exact ⟨_, rfl, yields_lamp text on⟩
  | display number text => exact ⟨_, rfl, yields_display number text⟩

end Order

end PinballBoard
