import Mathlib.Data.List.Basic
import PinballBoard.Simulator.Board
import PinballBoard.Wire.Command

/-!
# Frames on the wire

Frames follow each other on the wire without anything between them, so the board has to tell from
the bytes alone where a frame ends and which command it is. This file proves that it can. The frame
of a command is complete in the board's own terms and none of its proper beginnings is
(`isComplete_of_encode`, `not_isComplete_of_prefix`), so no frame is the beginning of another one;
and two commands never have the same frame (`encode_injective`).

Together this says that a run of frames can be read in one way only (`eq_cons_of_frame_prefix`,
`frames_injective`).
Commands without a frame are left out throughout: nothing of them is ever on the wire.
-/

namespace PinballBoard

theorem Text.utf8_injective {s t : String} (h : utf8 s = utf8 t) : s = t := by
  unfold utf8 at h
  exact String.toByteArray_inj.mp (ByteArray.ext (Array.toList_inj.mp h))

/-- Of all characters NUL alone has a byte 0, and it has no other. -/
private theorem zero_mem_utf8EncodeChar (c : Char) :
    0 ∈ String.utf8EncodeChar c ↔ '\x00' = c := by
  have hval : '\x00' = c ↔ c.val.toNat = 0 := by
    rw [← Char.val_inj, ← UInt32.toNat_inj]
    exact eq_comm
  have hzero : ∀ n : Nat, 0 = UInt8.ofNat n ↔ n % 256 = 0 := by
    intro n
    rw [← UInt8.toNat_inj, UInt8.toNat_ofNat', eq_comm]
    rfl
  rw [hval, String.utf8EncodeChar]
  generalize c.val.toNat = v
  -- every byte but that of the first kind has its highest bit set
  split_ifs <;> simp only [List.mem_cons, List.not_mem_nil, or_false, hzero] <;> omega

/-- A text has a terminator among its bytes exactly if it has a NUL among its characters. -/
theorem Text.terminator_mem_utf8 {s : String} : Code.terminator ∈ utf8 s ↔ '\x00' ∈ s.toList := by
  have hbytes : utf8 s = s.toList.flatMap String.utf8EncodeChar := by
    rw [utf8, String.toUTF8_eq_toByteArray, ← String.utf8Encode_toList, List.utf8Encode,
      List.toList_data_toByteArray]
  rw [hbytes, List.mem_flatMap]
  constructor
  · rintro ⟨c, hc, hzero⟩
    rwa [(zero_mem_utf8EncodeChar c).mp hzero]
  · exact fun h ↦ ⟨_, h, (zero_mem_utf8EncodeChar _).mpr rfl⟩

theorem PulseTime.bytes_injective {t u : PulseTime} (h : t.bytes = u.bytes) : t = u := by
  obtain ⟨t⟩ := t
  obtain ⟨u⟩ := u
  have hbytes : t.toNat / 256 % 256 = u.toNat / 256 % 256 ∧ t.toNat % 256 = u.toNat % 256 := by
    simpa [bytes, ← UInt8.toNat_inj, Nat.shiftRight_eq_div_pow] using h
  have ht := t.toNat_lt
  have hu := u.toNat_lt
  have heq : t = u := UInt16.toNat_inj.mp (by omega)
  rw [heq]

namespace Command

variable {c d : Command} {f g : Bytes}

/-- The bytes of a command on the wire; a command without a frame has none. -/
def frame (c : Command) : Bytes := c.encode.toOption.getD []

/-- The command can be sent. -/
def HasFrame (c : Command) : Prop := c.encode = .ok c.frame

/-- The bytes of some commands on the wire. -/
def frames (cs : List Command) : Bytes := cs.flatMap frame

@[simp] theorem frames_nil : frames [] = [] := rfl

@[simp] theorem frames_cons (c : Command) (cs : List Command) :
    frames (c :: cs) = c.frame ++ frames cs := rfl

@[simp] theorem frames_append (cs ds : List Command) :
    frames (cs ++ ds) = frames cs ++ frames ds := List.flatMap_append

theorem frame_of_encode (h : c.encode = .ok f) : c.frame = f := by
  rw [frame, h]
  rfl

theorem hasFrame_of_encode (h : c.encode = .ok f) : c.HasFrame := by
  rw [HasFrame, frame_of_encode h, h]

instance (c : Command) : Decidable c.HasFrame :=
  match h : c.encode with
  | .ok _ => .isTrue (hasFrame_of_encode h)
  | .error e => .isFalse fun hframe ↦ by
    rw [HasFrame, h] at hframe
    cases hframe

/-! ## Where a frame ends -/

/-- A display command has a code of its own exactly for the displays that have one. -/
theorem isDisplayCode_showText {n : UInt8} {text : String} (h : n.toNat < Limit.displays.toNat) :
    Frame.isDisplayCode (showText n text).code = true := by
  have hn : n.toNat < 7 := h
  simp [Frame.isDisplayCode, code, Code.displayBase, Limit.displays]
  omega

/-- A frame is a code and as many bytes as the code demands, or it ends at its only terminator. -/
theorem encode_cases (h : c.encode = .ok f) :
    (∃ payload, f = c.code :: payload ∧ Frame.isDisplayCode c.code = false ∧
        payload.length = Frame.payloadLength c.code) ∨
      (∃ n text, c = .showText n text ∧ n.toNat < Limit.displays.toNat ∧
        Code.terminator ∉ Text.utf8 text ∧
        f = c.code :: (Text.utf8 text ++ [Code.terminator])) := by
  cases c with
  | showText n text =>
    rw [encode] at h
    split at h
    · rename_i hn
      rw [Frame.ofText] at h
      split at h
      · cases h
      · rename_i hmem
        cases h
        exact .inr ⟨n, text, rfl, hn, hmem, rfl⟩
    · cases h
  | _ =>
    cases h
    exact .inl ⟨_, rfl, rfl, rfl⟩

/-- Only a display command has no frame: there is no such display, or the text would end early. -/
theorem encode_error {e : ProtocolError} (h : c.encode = .error e) :
    (∃ detail, e = .invalidDisplay detail) ∨ ∃ detail, e = .invalidDisplayText detail := by
  cases c with
  | showText n text =>
    rw [encode] at h
    split at h
    · rw [Frame.ofText] at h
      split at h
      · cases h
        exact .inr ⟨_, rfl⟩
      · cases h
    · cases h
      exact .inl ⟨_, rfl⟩
  | _ => cases h

/-- A command has no frame exactly if it is for a display that has no code, or its text would end
early. -/
theorem not_hasFrame_iff :
    ¬c.HasFrame ↔ ∃ display text, c = .showText display text ∧
      (Limit.displays.toNat ≤ display.toNat ∨ '\x00' ∈ text.toList) := by
  constructor
  · intro h
    cases c with
    | showText display text =>
      refine ⟨display, text, rfl, ?_⟩
      by_contra hgood
      obtain ⟨hdisplay, htext⟩ := not_or.mp hgood
      rw [← Text.terminator_mem_utf8] at htext
      refine h (hasFrame_of_encode (f := (showText display text).code ::
        (Text.utf8 text ++ [Code.terminator])) ?_)
      rw [encode, if_pos (Nat.lt_of_not_le hdisplay), Frame.ofText, if_neg htext,
        List.cons_append]
    | _ => exact absurd rfl h
  · rintro ⟨display, text, rfl, hbad⟩ h
    obtain ⟨payload, -, hcode, -⟩ | ⟨n, text', heq, hn, htext, -⟩ := encode_cases h
    · rw [HasFrame, encode] at h
      split at h
      · rename_i hn
        rw [isDisplayCode_showText hn] at hcode
        cases hcode
      · cases h
    · obtain ⟨rfl, rfl⟩ : display = n ∧ text = text' := by simpa using heq
      rw [Text.terminator_mem_utf8] at htext
      exact hbad.elim (Nat.not_le_of_lt hn) htext

theorem hasFrame_of_replyKind (h : c.replyKind ≠ none) : c.HasFrame ∧ c.frame.length ≤ 2 := by
  cases c <;> first
    | exact absurd rfl h
    | exact ⟨rfl, Nat.le_succ 1⟩
    | exact ⟨rfl, Nat.le_refl 2⟩

theorem HasFrame.frame_ne_nil (h : c.HasFrame) : c.frame ≠ [] := by
  obtain ⟨payload, hf, -⟩ | ⟨n, text, -, -, -, hf⟩ := encode_cases h <;> simp [hf]

theorem isComplete_of_encode (h : c.encode = .ok f) : Frame.isComplete f = true := by
  obtain ⟨payload, rfl, hcode, hlength⟩ | ⟨n, text, rfl, hn, -, rfl⟩ := encode_cases h
  · simp [Frame.isComplete, hcode, hlength]
  · simp [Frame.isComplete, isDisplayCode_showText hn]

theorem not_isComplete_of_prefix (h : c.encode = .ok f) (hg : g <+: f) (hne : g ≠ f) :
    Frame.isComplete g = false := by
  cases g with
  | nil => rfl
  | cons code rest =>
    obtain ⟨payload, rfl, hcode, hlength⟩ | ⟨n, text, rfl, hn, hmem, rfl⟩ := encode_cases h
    · obtain ⟨rfl, hrest⟩ := List.cons_prefix_cons.mp hg
      have hlt : rest.length < payload.length := by
        refine Nat.lt_of_le_of_ne hrest.length_le fun heq ↦ hne ?_
        rw [hrest.eq_of_length heq]
      have hnot : rest.length ≠ Frame.payloadLength c.code := by omega
      simpa [Frame.isComplete, hcode] using hnot
    · obtain ⟨rfl, hrest⟩ := List.cons_prefix_cons.mp hg
      -- short of its last byte the frame holds no terminator
      have hbefore : rest <+: Text.utf8 text := by
        rcases List.prefix_concat_iff.mp hrest with heq | hinside
        · exact absurd (by rw [heq]) hne
        · exact hinside
      have hlast : rest.getLast? ≠ some Code.terminator := fun heq ↦
        hmem (hbefore.subset (List.mem_of_getLast? heq))
      simpa [Frame.isComplete, isDisplayCode_showText hn] using hlast

/-- No frame is the beginning of another one. -/
theorem frame_append_inj {r s : Bytes} (hf : c.encode = .ok f) (hg : d.encode = .ok g)
    (h : f ++ r = g ++ s) : f = g ∧ r = s := by
  have heq : f = g := by
    by_contra hne
    have hfr : f <+: f ++ r := List.prefix_append f r
    have hgr : g <+: f ++ r := h ▸ List.prefix_append g s
    rcases List.prefix_or_prefix_of_prefix hfr hgr with hfg | hgf
    · have hnot := not_isComplete_of_prefix hg hfg hne
      rw [isComplete_of_encode hf] at hnot
      cases hnot
    · have hnot := not_isComplete_of_prefix hf hgf (Ne.symm hne)
      rw [isComplete_of_encode hg] at hnot
      cases hnot
  subst heq
  exact ⟨rfl, List.append_cancel_left h⟩

/-! ## Which command a frame is -/

theorem code_showText {n : UInt8} {text : String} (h : n.toNat < Limit.displays.toNat) :
    (showText n text).code.toNat = Code.displayBase.toNat + n.toNat := by
  have hn : n.toNat < 7 := h
  simp [code, Code.displayBase]
  omega

private theorem ne_showText (hc : Frame.isDisplayCode c.code = false) (hf : c.encode = .ok f)
    (n : UInt8) (text : String) : c ≠ .showText n text := by
  rintro rfl
  rw [encode] at hf
  split at hf
  · rename_i hn
    rw [isDisplayCode_showText hn] at hc
    cases hc
  · cases hf

private theorem encode_injective_of_plain (hc : ∀ n text, c ≠ .showText n text)
    (hd : ∀ n text, d ≠ .showText n text) (h : c.encode = d.encode) : c = d := by
  cases c <;> cases d <;> first
    | exact absurd rfl (hc _ _)
    | exact absurd rfl (hd _ _)
    | rfl
    | simp [encode, Frame.plain, code, Code.reset, Code.identify, Code.firmwareVersion,
        Code.apiVersion, Code.countLamps, Code.countCoils, Code.countDisplays, Code.lampOn,
        Code.lampOff, Code.coilOn, Code.coilOff, Code.coilPulse, Code.setPulseTime,
        Code.readSwitch, Code.pollChanges] at h
  -- what is left are the commands with a payload, each beside one of its own kind
  case readSwitch.readSwitch => rw [Switch.ext h]
  case setPulseTime.setPulseTime => rw [h.1, PulseTime.bytes_injective h.2]
  all_goals rw [h]

/-- Two commands never have the same frame. -/
theorem encode_injective (hf : c.encode = .ok f) (hg : d.encode = .ok f) : c = d := by
  obtain ⟨payload, rfl, hcode, -⟩ | ⟨n, text, rfl, hn, hmem, rfl⟩ := encode_cases hf
  · obtain ⟨payload', heq, hcode', -⟩ | ⟨n, text, rfl, hn, -, heq⟩ := encode_cases hg
    · exact encode_injective_of_plain (ne_showText hcode hf) (ne_showText hcode' hg)
        (hf.trans hg.symm)
    · rw [(List.cons.inj heq).1, isDisplayCode_showText hn] at hcode
      cases hcode
  · obtain ⟨payload, heq, hcode, -⟩ | ⟨n', text', rfl, hn', -, heq⟩ := encode_cases hg
    · rw [← (List.cons.inj heq).1, isDisplayCode_showText hn] at hcode
      cases hcode
    · obtain ⟨hcode, htext⟩ := List.cons.inj heq
      have htext : text = text' := Text.utf8_injective (List.append_cancel_right htext)
      have hcode := congrArg UInt8.toNat hcode
      rw [code_showText hn, code_showText hn'] at hcode
      have hdisplay : n = n' := UInt8.toNat_inj.mp (Nat.add_left_cancel hcode)
      rw [htext, hdisplay]

/-- If the wire begins with the frame of a command, this command is the first that was sent. -/
theorem eq_cons_of_frame_prefix {cs : List Command} (hc : c.HasFrame)
    (hcs : ∀ d ∈ cs, d.HasFrame) (h : c.frame <+: frames cs) : ∃ rest, cs = c :: rest := by
  obtain ⟨r, hr⟩ := h
  cases cs with
  | nil =>
    rw [frames_nil, List.append_eq_nil_iff] at hr
    exact absurd hr.1 hc.frame_ne_nil
  | cons d rest =>
    have hd : d.encode = .ok d.frame := hcs d List.mem_cons_self
    have hframe : c.frame = d.frame := (frame_append_inj hc hd hr).1
    exact ⟨rest, by rw [encode_injective hc (hframe ▸ hd)]⟩

theorem eq_of_encode_prefix (hf : c.encode = .ok f) (hg : d.encode = .ok g) (h : f <+: g) :
    c = d := by
  obtain ⟨r, hr⟩ := h
  have heq : f = g := (frame_append_inj hf hg (hr.trans (List.append_nil g).symm)).1
  exact encode_injective hf (heq ▸ hg)

/-- A run of frames is that of one list of commands only. -/
theorem frames_injective {cs ds : List Command} (hcs : ∀ c ∈ cs, c.HasFrame)
    (hds : ∀ d ∈ ds, d.HasFrame) (h : frames cs = frames ds) : cs = ds := by
  induction cs generalizing ds with
  | nil =>
    cases ds with
    | nil => rfl
    | cons d ds =>
      have hd : d.frame ≠ [] := (hds d List.mem_cons_self).frame_ne_nil
      rw [frames_nil, frames_cons, eq_comm, List.append_eq_nil_iff] at h
      exact absurd h.1 hd
  | cons c cs ih =>
    have hc : c.HasFrame := hcs c List.mem_cons_self
    obtain ⟨rest, rfl⟩ := eq_cons_of_frame_prefix hc hds (h ▸ List.prefix_append _ _)
    have hrest : frames cs = frames rest := List.append_cancel_left h
    rw [ih (fun d hd ↦ hcs d (List.mem_cons_of_mem _ hd))
      (fun d hd ↦ hds d (List.mem_cons_of_mem _ hd)) hrest]

end Command

end PinballBoard
