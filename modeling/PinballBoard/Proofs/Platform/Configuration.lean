import PinballBoard.Program.Order
import PinballBoard.Proofs.Platform.Coils
import PinballBoard.Proofs.Platform.Record
import PinballBoard.Proofs.Text.Numeral

/-!
# Which devices there are

A host names a device by a text and gets a handle of it, or is told that there is none. No handle is
made without its number being checked, and nothing checks it again: whatever is done with a handle
later, its number goes into a frame as it is. So the check has to be exact in both directions. To
refuse a number that the board has makes a device unusable; to let one through that it does not have
sends the board frames for nothing, or builds a handle all of whose commands the encoder refuses.

All four kinds of devices are looked for in the same way (`Selects`): a text denotes a byte or it
does not (`Text.Denotes`), and the byte is among the numbers of this kind or it is not. What differs
are the numbers. They are written here as conditions on natural numbers, so that a run that ends at
255 neither wraps around nor loses its last number.

## What a handle can say

`Call.Passes` is what a handle is good for: its call is put in line, and if no reply is outstanding
when it gets the lock, the encoder takes its command. It does for every handle of a coil or a lamp,
whatever the handle remembers. A display takes every text but those with a NUL
(`Display.passes_setText_iff`), and the limit on displays is what the encoder needs: there is no
code for an eighth one.
-/

namespace PinballBoard

/-! ## Texts and handles -/

/-- A text is turned into a handle just if it denotes a number of this kind, which is then the
number of the handle, and otherwise is a fault of the configuration. -/
structure Selects {α : Type} (text : String) (valid : Nat → Prop) (number : α → UInt8)
    (result : Except DeviceError α) : Prop where
  ok_iff : ∀ n, (∃ device, result = .ok device ∧ number device = n) ↔
    Text.Denotes text n ∧ valid n.toNat
  fails : ∀ e, result = .error e → ∃ detail, e = .configuration detail

/-- What has to be shown of the two ways to read a text. -/
theorem selects_of_byte? {α : Type} {text : String} {valid : Nat → Prop} {number : α → UInt8}
    {result : Except DeviceError α}
    (hnone : Text.byte? text = none → ∃ detail, result = .error (.configuration detail))
    (hsome : ∀ n, Text.byte? text = some n →
      (valid n.toNat ∧ ∃ device, result = .ok device ∧ number device = n) ∨
        ¬valid n.toNat ∧ ∃ detail, result = .error (.configuration detail)) :
    Selects text valid number result := by
  cases hbyte : Text.byte? text with
  | none =>
    obtain ⟨detail, rfl⟩ := hnone hbyte
    refine ⟨fun n ↦ iff_of_false (fun ⟨_, hok, _⟩ ↦ nomatch hok) fun h ↦ ?_, ?_⟩
    · cases hbyte.symm.trans (Text.byte?_eq_some_iff.mpr h.1)
    · rintro e ⟨⟩
      exact ⟨detail, rfl⟩
  | some index =>
    have hdenotes := Text.byte?_eq_some_iff.mp hbyte
    obtain ⟨hvalid, device, rfl, rfl⟩ | ⟨hinvalid, detail, rfl⟩ := hsome index hbyte
    · refine ⟨fun n ↦ ⟨?_, fun h ↦ ⟨device, rfl, hdenotes.unique h.1⟩⟩, nofun⟩
      rintro ⟨_, ⟨⟩, rfl⟩
      exact ⟨hdenotes, hvalid⟩
    · refine ⟨fun n ↦ iff_of_false (fun ⟨_, hok, _⟩ ↦ nomatch hok) fun h ↦ ?_, ?_⟩
      · obtain rfl := hdenotes.unique h.1
        exact hinvalid h.2
      · rintro e ⟨⟩
        exact ⟨detail, rfl⟩

namespace Platform

variable {α : Type} {text : String}

/-- A number is looked for in the text first, and then among those of its kind. -/
theorem selects_of_indexOf {kind range : String} {has : UInt8 → Bool} {make : UInt8 → α}
    {number : α → UInt8} {valid : Nat → Prop} (hnumber : ∀ n, number (make n) = n)
    (hvalid : ∀ n, has n = true ↔ valid n.toNat) :
    Selects text valid number ((indexOf kind text).bind fun index ↦
      if has index then .ok (make index) else .error (outOfRange kind index range)) := by
  unfold indexOf
  refine selects_of_byte? (fun hnone ↦ ?_) fun n hsome ↦ ?_
  · rw [hnone]
    exact ⟨_, rfl⟩
  · rw [hsome]
    by_cases hhas : has n = true
    · exact .inl ⟨(hvalid n).mp hhas, make n, if_pos hhas, hnumber n⟩
    · exact .inr ⟨mt (hvalid n).mpr hhas, _, if_neg hhas⟩

theorem selects_configureSwitch (text : String) (config : SwitchConfig) :
    Selects text (fun v ↦ v ≤ 77 ∧ v % 10 ≤ 7) (·.switch.number) (configureSwitch text config) := by
  have hdigits : ∀ v : Nat, v / 10 < 8 ∧ v % 10 < 8 ↔ v ≤ 77 ∧ v % 10 ≤ 7 := fun v ↦ by omega
  unfold configureSwitch Switch.ofText
  refine selects_of_byte? (fun hnone ↦ ?_) fun n hsome ↦ ?_
  · rw [hnone]
    exact ⟨_, rfl⟩
  · rw [hsome]
    dsimp only
    unfold Switch.ofNumber
    by_cases haddress : n.toNat / 10 < 8 ∧ n.toNat % 10 < 8
    · rw [dif_pos haddress]
      exact .inl ⟨(hdigits _).mp haddress, _, rfl, rfl⟩
    · rw [dif_neg haddress]
      exact .inr ⟨mt (hdigits _).mpr haddress, _, rfl⟩

end Platform

/-- The lamps or the coils of a board: so many numbers, from one on in the one family and from zero
on in the other. -/
def Profile.Numbers (p : Profile) (count : UInt8) (v : Nat) : Prop :=
  let first := if p.family = .system1 then 1 else 0
  first ≤ v ∧ v < first + count.toNat

theorem Profile.inRun_iff (p : Profile) (count n : UInt8) :
    p.inRun count n = true ↔ p.Numbers count n.toNat := by
  rw [inRun, Bool.and_eq_true, decide_eq_true_iff, decide_eq_true_iff, Numbers]
  cases p.family <;> rfl

theorem Profile.hasDisplay_iff (p : Profile) (n : UInt8) :
    p.hasDisplay n = true ↔ n.toNat < p.displays.toNat ∧ n.toNat < 7 := by
  rw [hasDisplay, Bool.and_eq_true, decide_eq_true_iff, decide_eq_true_iff]
  exact Iff.rfl

/-! ## What a handle says -/

/-- A call is put in line, and whenever no reply is outstanding the encoder accepts its command. -/
def Call.Passes (call : Call) : Prop :=
  call.refusal = none ∧ ∃ command, call.command? = some command ∧
    ∀ l : Link, l.codec.pending = none → ∃ l', l.submit command = .ok l'

theorem Call.passes_send_iff {command : Command} (hkind : command.replyKind = none) :
    (Call.send command).Passes ↔ command.HasFrame := by
  constructor
  · rintro ⟨-, _, ⟨⟩, haccepts⟩
    obtain ⟨l', hsubmit⟩ := haccepts .fresh rfl
    exact (Connection.submit_eq_ok hsubmit).1
  · intro hframe
    refine ⟨by simp [refusal, hkind], command, rfl, fun l hidle ↦ ?_⟩
    have hencode : command.encode = .ok command.frame := hframe
    rw [Link.submit, Codec.encode, hidle, hencode]
    exact ⟨_, rfl⟩

/-- All that a coil or a lamp is told can be sent. -/
theorem Call.passes_send {command : Command} (hkind : command.replyKind = none)
    (hshow : ∀ display text, command ≠ .showText display text) : (Call.send command).Passes := by
  refine (passes_send_iff hkind).mpr (Classical.not_not.mp fun hno ↦ ?_)
  obtain ⟨display, text, rfl, -⟩ := Command.not_hasFrame_iff.mp hno
  exact hshow display text rfl

/-- What asks nothing but what passes after a pulse time does so before it too. -/
theorem Coil.passes_withDuration (coil : Coil) (ms : UInt32) {next : Coil → Coil.Task}
    (hnext : ∀ coil, (next coil).Asks Call.Passes) :
    (coil.withDuration ms next).Asks Call.Passes := by
  unfold withDuration
  split
  · unfold withPulseTime
    split
    · exact hnext coil
    · refine ⟨Call.passes_send rfl nofun, fun outcome ↦ ?_⟩
      dsimp only
      split
      · exact hnext _
      · trivial
  · trivial

theorem CoilOrder.passes_task (order : CoilOrder) (coil : Coil) :
    (order.task coil).Asks Call.Passes := by
  cases order with
  | pulse | enable =>
    exact coil.passes_withDuration _ fun _ ↦ ⟨Call.passes_send rfl nofun, fun _ ↦ trivial⟩
  | disable => exact ⟨Call.passes_send rfl nofun, fun _ ↦ trivial⟩

theorem Lamp.passes_setBrightness (lamp : Lamp) (brightness : Decimal.Single) :
    (lamp.setBrightness brightness).Asks Call.Passes := by
  refine ⟨?_, fun _ ↦ trivial⟩
  unfold brightnessCommand
  split
  · exact Call.passes_send rfl nofun
  · exact Call.passes_send rfl nofun

/-- A display that has a code takes every text but those that end early. -/
theorem Display.passes_setText_iff {display : Display} (hcode : display.number.toNat < 7)
    (text : String) : (display.setText text).Asks Call.Passes ↔ '\x00' ∉ text.toList := by
  have hsend : (Call.send (.showText display.number text)).Passes ↔
      (Command.showText display.number text).HasFrame := Call.passes_send_iff rfl
  have hframe : ¬(Command.showText display.number text).HasFrame ↔ '\x00' ∈ text.toList := by
    rw [Command.not_hasFrame_iff]
    constructor
    · rintro ⟨_, _, ⟨⟩, hlarge | hnul⟩
      · exact absurd hcode (Nat.not_lt.mpr hlarge)
      · exact hnul
    · exact fun hnul ↦ ⟨_, _, rfl, .inr hnul⟩
  constructor
  · exact fun hasks hnul ↦ hframe.mpr hnul (hsend.mp hasks.1)
  · exact fun hclean ↦ ⟨hsend.mpr (Classical.not_not.mp (mt hframe.mp hclean)), fun _ ↦ trivial⟩

/-! ## The law -/

/-- What comes of the texts that a host names devices by, with a board of this profile. -/
structure Profile.Configures (p : Profile) (text : String) : Prop where
  switch : ∀ config, Selects text (fun v ↦ v ≤ 77 ∧ v % 10 ≤ 7) (·.switch.number)
    (Platform.configureSwitch text config)
  coil : ∀ config, Selects text (p.Numbers p.coils) Coil.number
    (Platform.configureCoil p text config)
  lamp : Selects text (p.Numbers p.lamps) Lamp.number (Platform.configureLamp p text)
  display : Selects text (fun v ↦ v < p.displays.toNat ∧ v < 7) Display.number
    (Platform.configureDisplay p text)
  /-- Whatever a handle of a coil remembers, all that it is ordered to say passes. -/
  coil_passes : ∀ config coil, Platform.configureCoil p text config = .ok coil →
    ∀ pulseTime order, (CoilOrder.task order { coil with pulseTime }).Asks Call.Passes
  lamp_passes : ∀ lamp, Platform.configureLamp p text = .ok lamp →
    ∀ brightness, (lamp.setBrightness brightness).Asks Call.Passes
  display_passes : ∀ display, Platform.configureDisplay p text = .ok display →
    ∀ shown, (display.setText shown).Asks Call.Passes ↔ '\x00' ∉ shown.toList
  /-- Who asks for a handle changes nothing of the session, whether he gets one or not. -/
  untouched : ∀ watch handles config,
    ((DriverHandles.mk watch p handles).step (.configure text config)).watch = watch
  /-- Where there is no device there is nothing to say: an order to it ends before its first
  call. -/
  unserved : ∀ order e,
    ((∃ ms, order = .pulse text ms ∧ Platform.configureCoil p text {} = .error e) ∨
      (∃ on, order = .lamp text on ∧ Platform.configureLamp p text = .error e) ∨
      ∃ shown, order = .display text shown ∧ Platform.configureDisplay p text = .error e) →
    Order.oneShot? p order = some (.done () (.error e))

/-- **A device is configured just if the board has it.** -/
theorem Platform.configures (p : Profile) (text : String) : p.Configures text := by
  have hdisplay : Selects text (fun v ↦ v < p.displays.toNat ∧ v < 7) Display.number
      (configureDisplay p text) := selects_of_indexOf (fun _ ↦ rfl) p.hasDisplay_iff
  refine ⟨selects_configureSwitch text, fun config ↦ ?_, ?_, hdisplay,
    fun config coil _ pulseTime order ↦ order.passes_task _,
    fun lamp _ ↦ lamp.passes_setBrightness, fun display hok ↦ ?_, fun watch handles config ↦ ?_, ?_⟩
  · exact selects_of_indexOf (fun _ ↦ rfl) (p.inRun_iff p.coils)
  · exact selects_of_indexOf (fun _ ↦ rfl) (p.inRun_iff p.lamps)
  · have hcode := ((hdisplay.ok_iff display.number).mp ⟨display, hok, rfl⟩).2.2
    exact Display.passes_setText_iff hcode
  · rw [DriverHandles.step]
    split <;> rfl
  · rintro order e (⟨ms, rfl, hfails⟩ | ⟨on, rfl, hfails⟩ | ⟨shown, rfl, hfails⟩) <;>
      rw [Order.oneShot?, hfails] <;> rfl

/-- The last lamp of a board that has as many as it can count, typed with zeros, a sign and white
space, of which one is a no-break space. -/
example : Platform.configureLamp ⟨.system1, 255, 0, 0⟩ "\u00a0+000255 " = .ok ⟨255⟩ := by
  decide +kernel

end PinballBoard
