import Mathlib.Data.List.TakeWhile
import PinballBoard.Wire.Codec

/-!
# Replies, parsed

What the board sends is read front to back by the shapes of the outstanding replies: a byte is the
next byte, a string is all bytes before the next terminator. `ReplyKind.parse?` says so without a
codec, buffers or limits, and is what the replies of a whole stream are measured against.

The codec looks at the bytes again and again while they arrive. `parse?_append` says why that does
no harm: a reply that has been found is found again when more has arrived, with the same bytes
left. `Codec.decode_of_pending` says how the codec differs from the parse: by its limit, and only as
long as a string has not ended.
-/

namespace PinballBoard

/-- A reply of some shape at the front of some bytes, and the bytes behind it. -/
def ReplyKind.parse? : ReplyKind → Bytes → Option (Reply × Bytes)
  | .byte, [] => none
  | .byte, value :: rest => some (.byte value, rest)
  | .string, bytes =>
    if Code.terminator ∈ bytes then
      some (.string (bytes.takeWhile (· != Code.terminator)),
        (bytes.dropWhile (· != Code.terminator)).tail)
    else none

/-- The reply to a command at the front of some bytes, and the bytes behind it. -/
def Command.parse? (command : Command) (bytes : Bytes) : Option (Reply × Bytes) :=
  command.replyKind.bind (·.parse? bytes)

theorem Command.parse?_eq {command : Command} {kind : ReplyKind} (h : command.replyKind = some kind)
    (bytes : Bytes) : command.parse? bytes = kind.parse? bytes := by
  rw [parse?, h, Option.bind_some]

theorem splitString?_eq (bytes : Bytes) :
    splitString? bytes =
      if Code.terminator ∈ bytes then
        some (bytes.takeWhile (· != Code.terminator),
          (bytes.dropWhile (· != Code.terminator)).tail)
      else none := by
  induction bytes with
  | nil => rfl
  | cons b bytes ih =>
    by_cases hb : b = Code.terminator
    · simp [splitString?, hb]
    · by_cases hmem : Code.terminator ∈ bytes <;>
        simp [splitString?, hb, ih, hmem, Ne.symm hb]

namespace ReplyKind

variable {kind : ReplyKind} {bytes more rest : Bytes} {reply : Reply}

@[simp] theorem parse?_nil (kind : ReplyKind) : kind.parse? [] = none := by
  cases kind <;> rfl

theorem parse?_string (bytes : Bytes) :
    ReplyKind.string.parse? bytes =
      (splitString? bytes).map fun (data, rest) ↦ (.string data, rest) := by
  rw [splitString?_eq, parse?]
  split <;> rfl

/-- A reply and what follows it are all that has been there. -/
theorem eq_append_of_parse? (h : kind.parse? bytes = some (reply, rest)) :
    bytes = reply.wire ++ rest := by
  cases kind with
  | byte =>
    cases bytes with
    | nil => cases h
    | cons value bytes =>
      cases h
      rfl
  | string =>
    rw [parse?_string] at h
    obtain ⟨⟨data, rest'⟩, hsplit, heq⟩ := Option.map_eq_some_iff.mp h
    obtain ⟨rfl, rfl⟩ : .string data = reply ∧ rest' = rest := by simpa using heq
    rw [(eq_append_of_splitString? hsplit).1, Reply.wire, List.append_assoc]
    rfl

/-- A reply that has been found is found again when more has arrived. -/
theorem parse?_append (h : kind.parse? bytes = some (reply, rest)) (more : Bytes) :
    kind.parse? (bytes ++ more) = some (reply, rest ++ more) := by
  cases kind with
  | byte =>
    cases bytes with
    | nil => cases h
    | cons value bytes =>
      cases h
      rfl
  | string =>
    rw [parse?_string] at h ⊢
    obtain ⟨⟨data, rest'⟩, hsplit, heq⟩ := Option.map_eq_some_iff.mp h
    obtain ⟨rfl, rfl⟩ : .string data = reply ∧ rest' = rest := by simpa using heq
    obtain ⟨rfl, hdata⟩ := eq_append_of_splitString? hsplit
    rw [List.append_assoc, List.cons_append, splitString?_append _ hdata, Option.map_some]

theorem parse?_wire (h : ∀ data, reply = .string data → Code.terminator ∉ data) (more : Bytes) :
    reply.kind.parse? (reply.wire ++ more) = some (reply, more) := by
  cases reply with
  | byte value => rfl
  | string data =>
    rw [Reply.kind, parse?_string, Reply.wire, List.append_assoc, List.singleton_append,
      splitString?_append _ (h data rfl), Option.map_some]

theorem kind_of_parse? (h : kind.parse? bytes = some (reply, rest)) : reply.kind = kind := by
  cases kind with
  | byte =>
    cases bytes with
    | nil => cases h
    | cons value bytes =>
      cases h
      rfl
  | string =>
    rw [parse?] at h
    split at h
    · cases h
      rfl
    · cases h

/-- A byte is only missing where there is nothing. -/
theorem eq_nil_of_parse?_byte (h : ReplyKind.byte.parse? bytes = none) : bytes = [] := by
  cases bytes with
  | nil => rfl
  | cons value bytes => cases h

theorem not_mem_of_parse?_string (h : ReplyKind.string.parse? bytes = none) :
    Code.terminator ∉ bytes := by
  intro hmem
  rw [parse?, if_pos hmem] at h
  cases h

end ReplyKind

/-- A string runs past the limit before it ends, if it ends at all. -/
def ReplyKind.Overrun (kind : ReplyKind) (bytes : Bytes) : Prop :=
  kind = .string ∧ Limit.stringReply < (bytes.takeWhile (· != Code.terminator)).length

/-- The reply to a command is a string that runs past the limit. -/
def Command.Overrun (command : Command) (bytes : Bytes) : Prop :=
  ∃ kind, command.replyKind = some kind ∧ kind.Overrun bytes

theorem Command.overrun_iff {command : Command} {kind : ReplyKind} {bytes : Bytes}
    (h : command.replyKind = some kind) : command.Overrun bytes ↔ kind.Overrun bytes := by
  constructor
  · rintro ⟨kind', hkind, hover⟩
    rw [h] at hkind
    cases hkind
    exact hover
  · exact fun hover ↦ ⟨kind, h, hover⟩

namespace ReplyKind

variable {kind : ReplyKind} {bytes : Bytes}

theorem overrun_iff (h : kind.parse? bytes = none) :
    kind.Overrun bytes ↔ kind = .string ∧ Limit.stringReply < bytes.length := by
  refine and_congr_right fun hkind ↦ ?_
  subst hkind
  have hall : bytes.takeWhile (· != Code.terminator) = bytes := by
    refine List.takeWhile_eq_self_iff.mpr fun b hb ↦ ?_
    have hne : b ≠ Code.terminator := fun heq ↦ not_mem_of_parse?_string h (heq ▸ hb)
    simpa using hne
  rw [hall]

theorem Overrun.append (h : kind.Overrun bytes) (more : Bytes) : kind.Overrun (bytes ++ more) := by
  refine ⟨h.1, Nat.lt_of_lt_of_le h.2 ?_⟩
  rw [List.takeWhile_append]
  split
  · rw [List.length_append]
    omega
  · exact Nat.le_refl _

/-- A reply that is not complete and has not run past the limit is short. -/
theorem length_le_of_not_overrun (h : kind.parse? bytes = none) (hshort : ¬kind.Overrun bytes) :
    bytes.length ≤ Limit.stringReply := by
  cases kind with
  | byte =>
    rw [eq_nil_of_parse?_byte h]
    exact Nat.zero_le _
  | string => exact Nat.le_of_not_lt fun hlong ↦ hshort ((overrun_iff h).mpr ⟨rfl, hlong⟩)

end ReplyKind

theorem Codec.decode_nil (codec : Codec) : codec.decode [] = .incomplete := by
  obtain ⟨_ | _ | _⟩ := codec <;> rfl

/-- **The codec parses**, but for bytes that are too many for a string and do not end one. -/
theorem Codec.decode_of_pending {codec : Codec} {kind : ReplyKind} (received : Bytes)
    (h : codec.pending = some kind) :
    (∃ reply rest, kind.parse? received = some (reply, rest) ∧
        codec.decode received = .reply reply rest) ∨
      (kind.parse? received = none ∧ ¬kind.Overrun received ∧
        codec.decode received = .incomplete) ∨
      (kind.parse? received = none ∧ kind.Overrun received ∧
        codec.decode received = .failed (.stringTooLong Limit.stringReply)) := by
  cases kind with
  | byte =>
    cases received with
    | nil =>
      refine .inr (.inl ⟨rfl, fun hover ↦ ?_, by simp only [decode, h]⟩)
      cases hover.1
    | cons value rest => exact .inl ⟨.byte value, rest, rfl, by simp only [decode, h]⟩
  | string =>
    have hparse := ReplyKind.parse?_string received
    cases hsplit : splitString? received with
    | some split =>
      rw [hsplit] at hparse
      exact .inl ⟨.string split.1, split.2, hparse, by simp only [decode, h, hsplit]⟩
    | none =>
      rw [hsplit] at hparse
      have hover := ReplyKind.overrun_iff hparse
      by_cases hlong : Limit.stringReply < received.length
      · exact .inr (.inr ⟨hparse, hover.mpr ⟨rfl, hlong⟩,
          by simp only [decode, h, hsplit, if_pos hlong]⟩)
      · exact .inr (.inl ⟨hparse, fun hrun ↦ hlong (hover.mp hrun).2,
          by simp only [decode, h, hsplit, if_neg hlong]⟩)

theorem Codec.decode_of_parse? {codec : Codec} {kind : ReplyKind} {received rest : Bytes}
    {reply : Reply} (h : codec.pending = some kind)
    (hparse : kind.parse? received = some (reply, rest)) :
    codec.decode received = .reply reply rest := by
  obtain ⟨_, _, hfound, hdecode⟩ | ⟨hnone, -⟩ | ⟨hnone, -⟩ := decode_of_pending received h
  · rw [hparse] at hfound
    cases hfound
    exact hdecode
  · rw [hparse] at hnone
    cases hnone
  · rw [hparse] at hnone
    cases hnone

/-- The codec waits for more as long as the bytes hold no reply and do not run past the limit. -/
theorem Codec.decode_of_not_overrun {codec : Codec} {kind : ReplyKind} {received : Bytes}
    (h : codec.pending = some kind) (hparse : kind.parse? received = none)
    (hshort : ¬kind.Overrun received) : codec.decode received = .incomplete := by
  obtain ⟨_, _, hfound, -⟩ | ⟨-, -, hdecode⟩ | ⟨-, hover, -⟩ := decode_of_pending received h
  · rw [hparse] at hfound
    cases hfound
  · exact hdecode
  · exact absurd hover hshort

/-- What the codec finds is of the outstanding shape, and was at the front of the bytes. -/
theorem Codec.of_decode_reply {codec : Codec} {received rest : Bytes} {reply : Reply}
    (h : codec.decode received = .reply reply rest) :
    codec.pending = some reply.kind ∧ received = reply.wire ++ rest := by
  cases hpending : codec.pending with
  | none =>
    simp only [decode, hpending] at h
    split at h <;> cases h
  | some kind =>
    obtain ⟨_, _, hparse, hdecode⟩ | ⟨-, -, hdecode⟩ | ⟨-, -, hdecode⟩ :=
      decode_of_pending received hpending
    · rw [h] at hdecode
      cases hdecode
      exact ⟨by rw [ReplyKind.kind_of_parse? hparse], ReplyKind.eq_append_of_parse? hparse⟩
    · rw [h] at hdecode
      cases hdecode
    · rw [h] at hdecode
      cases hdecode

/-! ## Many replies -/

namespace Reply

/-- The replies to some commands that some bytes contain, front to back, up to the first that is
missing or is not good, and the bytes behind them. -/
def parseWhile (good : Command → Reply → Bool) : List Command → Bytes → List Reply × Bytes
  | [], bytes => ([], bytes)
  | command :: commands, bytes =>
    match command.parse? bytes with
    | some (reply, rest) =>
      if good command reply then
        (reply :: (parseWhile good commands rest).1, (parseWhile good commands rest).2)
      else ([], bytes)
    | none => ([], bytes)

variable {good : Command → Reply → Bool} {command : Command} {commands : List Command}
  {reply : Reply} {bytes rest : Bytes}

theorem parseWhile_of_good (hparse : command.parse? bytes = some (reply, rest))
    (h : good command reply = true) (commands : List Command) :
    parseWhile good (command :: commands) bytes =
      (reply :: (parseWhile good commands rest).1, (parseWhile good commands rest).2) := by
  rw [parseWhile, hparse]
  exact if_pos h

theorem parseWhile_of_not_good (hparse : command.parse? bytes = some (reply, rest))
    (h : good command reply = false) :
    parseWhile good (command :: commands) bytes = ([], bytes) := by
  rw [parseWhile, hparse]
  exact if_neg (Bool.eq_false_iff.mp h)

theorem parseWhile_of_missing (h : command.parse? bytes = none) :
    parseWhile good (command :: commands) bytes = ([], bytes) := by
  rw [parseWhile, h]

/-- No byte is skipped, and none is used twice. -/
theorem eq_append_parseWhile (good : Command → Reply → Bool) (commands : List Command)
    (bytes : Bytes) :
    bytes = (parseWhile good commands bytes).1.flatMap wire ++
      (parseWhile good commands bytes).2 := by
  induction commands generalizing bytes with
  | nil => rfl
  | cons command commands ih =>
    rw [parseWhile]
    split
    · rename_i reply rest hparse
      split
      · obtain ⟨kind, -, hparse⟩ := Option.bind_eq_some_iff.mp hparse
        rw [List.flatMap_cons, List.append_assoc, ← ih rest]
        exact ReplyKind.eq_append_of_parse? hparse
      · rfl
    · rfl

theorem length_parseWhile_le (good : Command → Reply → Bool) (commands : List Command)
    (bytes : Bytes) : (parseWhile good commands bytes).1.length ≤ commands.length := by
  induction commands generalizing bytes with
  | nil => exact Nat.le_refl _
  | cons command commands ih =>
    rw [parseWhile]
    split
    · split
      · exact Nat.succ_le_succ (ih _)
      · exact Nat.zero_le _
    · exact Nat.zero_le _

end Reply

end PinballBoard
