import Mathlib.Data.List.Forall2
import PinballBoard.Platform.Handshake
import PinballBoard.Proofs.Wire.Frame
import PinballBoard.Proofs.Wire.Parse

/-!
# How a board introduces itself

A handshake is a fixed list of questions (`Handshake.script`). What is asked next never depends on
what has been answered, only whether anything is asked at all does: the host goes on as long as
every answer is a proper one (`Reply.isProper`).

So there are two ways to say what a board has to send. Answer by answer, `Reply.proper` takes proper
replies off the front of some bytes until one is missing or is not proper. As a whole, an
`Introduction` is what a board has to tell, and `Introduction.wire` is how it tells it, byte for
byte. `Introduction.answered_of_wire` is the half of the bridge between them that needs no host: a
board that introduces itself gives proper answers to all questions.
-/

namespace PinballBoard

/-! ## Questions -/

/-- The questions of a handshake in turn, each with the stage at which it is asked. -/
def Handshake.script : List (HandshakeStage × Command) :=
  (.reset, .reset) :: (.identify, .identify) :: (.queryCapacities, .countLamps) ::
    (.queryCapacities, .countCoils) :: (.queryCapacities, .countDisplays) ::
    Switch.all.map fun switch ↦ (.bulkSwitchRead, .readSwitch switch)

/-- What a host that has gone through the whole script has written. -/
theorem Handshake.frames_script :
    Command.frames (script.map Prod.snd) =
      [100, 0, 3, 4, 6] ++ (List.range 8).flatMap fun row ↦
        (List.range 8).flatMap fun column ↦ [40, UInt8.ofNat (10 * row + column)] := by
  decide

/-! ## Answers -/

namespace Reply

/-- Whether a reply is what the host wants to hear when it asks this. -/
def isProper (command : Command) (reply : Reply) : Bool :=
  match command, reply with
  | .reset, .byte value => value == 0
  | .identify, .string name => name == Text.utf8 "LISY1" || name == Text.utf8 "LISY80"
  | .countLamps, .byte _ | .countCoils, .byte _ | .countDisplays, .byte _ => true
  | .readSwitch _, .byte value => value == 0 || value == 1
  | _, _ => false

/-- The proper replies to some commands at the front of some bytes, up to the first that is missing
or is not proper, and the bytes behind them. -/
def proper : List Command → Bytes → List Reply × Bytes := parseWhile isProper

variable {command : Command} {commands : List Command} {reply : Reply} {bytes rest : Bytes}

/-- A proper reply has the shape that the command asks for, and is short. -/
theorem kind_of_isProper (h : reply.isProper command) :
    command.replyKind = some reply.kind ∧
      ∀ data, reply = .string data → Code.terminator ∉ data ∧ data.length ≤ Limit.stringReply := by
  unfold isProper at h
  split at h
  case h_2 name =>
    refine ⟨rfl, fun data hdata ↦ ?_⟩
    cases hdata
    rw [Bool.or_eq_true, beq_iff_eq, beq_iff_eq] at h
    rcases h with rfl | rfl <;> decide
  case h_7 => cases h
  all_goals exact ⟨rfl, fun data hdata ↦ nomatch hdata⟩

theorem parse?_of_isProper (h : reply.isProper command) (rest : Bytes) :
    command.parse? (reply.wire ++ rest) = some (reply, rest) := by
  obtain ⟨hkind, hdata⟩ := kind_of_isProper h
  rw [Command.parse?_eq hkind]
  exact ReplyKind.parse?_wire (fun data heq ↦ (hdata data heq).1) rest

/-- Proper replies are found again in what they are on the wire. -/
theorem proper_of_forall {replies : List Reply}
    (h : List.Forall₂ (fun command reply ↦ isProper command reply) commands replies)
    (rest : Bytes) : proper commands (replies.flatMap wire ++ rest) = (replies, rest) := by
  induction h with
  | nil => rfl
  | cons hproper _ ih =>
    rw [List.flatMap_cons, List.append_assoc, proper,
      parseWhile_of_good (parse?_of_isProper hproper _) hproper, ← proper, ih]

/-- A string that runs past the limit is never proper. -/
theorem proper_of_overrun (h : command.Overrun bytes) :
    proper (command :: commands) bytes = ([], bytes) := by
  obtain ⟨kind, hkind, rfl, hlong⟩ := h
  cases hparse : command.parse? bytes with
  | none => exact parseWhile_of_missing hparse
  | some parsed =>
    -- what is longer than the limit is longer than any name
    refine parseWhile_of_not_good hparse (Bool.eq_false_iff.mpr fun hproper ↦ ?_)
    rw [Command.parse?_eq hkind, ReplyKind.parse?] at hparse
    split at hparse
    · cases hparse
      exact Nat.not_le_of_lt hlong ((kind_of_isProper hproper).2 _ rfl).2
    · cases hparse

end Reply

/-- The proper replies to the questions of a handshake at the front of some bytes, and the bytes
behind them. -/
def Handshake.answered (bytes : Bytes) : List Reply × Bytes :=
  Reply.proper (script.map Prod.snd) bytes

/-! ## Introductions -/

/-- What a board has to tell before play. -/
structure Introduction where
  family : Family
  lamps : UInt8
  coils : UInt8
  displays : UInt8
  /-- The states of the switches, row by row. -/
  states : Vector Bool 64

namespace Introduction

variable (i : Introduction)

/-- What a board of a family calls itself. -/
def name : Family → String
  | .system1 => "LISY1"
  | .system80 => "LISY80"

/-- The state of a switch in a byte. -/
def stateByte (active : Bool) : UInt8 := if active then 1 else 0

/-- What the board answers to the questions. -/
def replies : List Reply :=
  .byte 0 :: .string (Text.utf8 (name i.family)) ::
    .byte i.lamps :: .byte i.coils :: .byte i.displays ::
    i.states.toList.map fun active ↦ .byte (stateByte active)

/-- What the board sends: that it has been reset, its name up to a terminator, the counts of its
lamps, coils and displays, and a byte for each switch. -/
def wire : Bytes :=
  [0] ++ Text.utf8 (name i.family) ++ [0] ++ [i.lamps, i.coils, i.displays] ++
    i.states.toList.map stateByte

/-- What the host makes of it. -/
def discovery : Discovery where
  profile := ⟨i.family, i.lamps, i.coils, i.displays⟩
  switches := ⟨i.states.map some⟩

theorem place_lt (row column : Fin 8) : 8 * (row : Nat) + column < 64 :=
  calc
    8 * (row : Nat) + column < 8 * row + 8 := Nat.add_lt_add_left column.isLt _
    _ = 8 * (row + 1) := rfl
    _ ≤ 64 := Nat.mul_le_mul_left 8 row.isLt

theorem get?_switches (row column : Fin 8) :
    i.discovery.switches.get? (.ofPosition row column) =
      some (getElem i.states (8 * (row : Nat) + column) (place_lt row column)) := by
  have hindex : ((Switch.ofPosition row column).index : Nat) = 8 * row + column := by
    revert row column
    decide
  simp [discovery, SwitchTable.get?, hindex]

theorem flatMap_wire_replies : i.replies.flatMap Reply.wire = i.wire := by
  have hstates : ∀ states : List Bool,
      (states.map fun active ↦ Reply.byte (stateByte active)).flatMap Reply.wire =
        states.map stateByte := by
    intro states
    rw [List.flatMap_map, List.map_eq_flatMap]
    rfl
  simp only [replies, wire, List.flatMap_cons, hstates, Reply.wire, Code.terminator,
    List.append_assoc, List.cons_append, List.nil_append]

theorem isProper_replies :
    List.Forall₂ (fun command reply ↦ Reply.isProper command reply)
      (Handshake.script.map Prod.snd) i.replies := by
  have hname : Reply.isProper .identify (.string (Text.utf8 (name i.family))) := by
    cases i.family <;> decide
  refine .cons rfl (.cons hname (.cons rfl (.cons rfl (.cons rfl ?_))))
  rw [List.map_map, List.forall₂_map_left_iff, List.forall₂_map_right_iff]
  refine List.forall₂_iff_get.mpr ⟨by simp; rfl, fun k hk hk' ↦ ?_⟩
  cases i.states.toList.get ⟨k, hk'⟩ <;> rfl

theorem length_replies : i.replies.length = Handshake.script.length := by
  rw [← i.isProper_replies.length_eq, List.length_map]

/-- A board that introduces itself answers all questions properly. -/
theorem answered_of_wire {bytes : Bytes} (h : i.wire <+: bytes) :
    (Handshake.answered bytes).1 = i.replies := by
  obtain ⟨rest, rfl⟩ := h
  rw [← flatMap_wire_replies, Handshake.answered, Reply.proper_of_forall i.isProper_replies]

private theorem name_injective : ∀ family family' : Family,
    name family = name family' → family = family' := by
  rintro (_ | _) (_ | _) <;> decide

private theorem stateByte_injective :
    Function.Injective fun active ↦ Reply.byte (stateByte active) := by
  rintro (_ | _) (_ | _) <;> decide

/-- What a board has told is known from its answers. -/
theorem replies_injective : Function.Injective replies := by
  rintro ⟨family, lamps, coils, displays, states⟩ ⟨family', lamps', coils', displays', states'⟩ h
  simp only [replies, List.cons.injEq, Reply.byte.injEq, Reply.string.injEq, true_and] at h
  obtain ⟨hname, rfl, rfl, rfl, hstates⟩ := h
  obtain rfl := name_injective _ _ (Text.utf8_injective hname)
  obtain rfl := Vector.toList_inj.mp (List.map_injective_iff.mpr stateByte_injective hstates)
  rfl

end Introduction

end PinballBoard
