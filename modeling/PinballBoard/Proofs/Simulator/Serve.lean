import Mathlib.Data.List.Basic
import Mathlib.Data.List.Count
import PinballBoard.Proofs.Link.Attribution
import PinballBoard.Simulator.Line

/-!
# A board hears what it is told

The format of the commands is written down twice: the host makes a frame of a command, and the board
tells from the bytes alone how long a frame is and what it asks for. This file proves that the two
agree. Whatever commands are sent, and however their bytes are cut on the way, the board takes each
frame for what it is, at its last byte and not one byte later, and answers as the command demands.

## Commands in place of bytes

`Board.obey` and `Board.replyTo` say what a board does with a command and what it replies, without a
word about bytes, and `Board.answer_frame` says that a frame does just this to a board. Between two
frames the board only gathers. What it has gathered is a proper beginning of the next frame
(`Board.Heard`), because no proper beginning of a frame is complete.

## A host on the line

`BoardDialogue` is a host at one end of a line. It writes and reads in portions of its own choice,
the line takes what it has room for, and the board may learn of new changes at any moment. The board
stops while an answer does not fit into the pipe (`BoardLine.Gives`), and at no other time
(`BoardDialogue.Understood.attentive`). So a host that reads what it is told is never held up for
good (`BoardDialogue.Understood.finish`).
-/

namespace PinballBoard

/-! ## What a board does with a command -/

namespace Board

variable {start b : Board} {c : Command} {seen rest : List Command} {replies : List Reply}

/-- What a board replies to a command, if it replies. -/
def replyTo (b : Board) : Command → Option Reply
  | .reset => some (.byte b.resetCode)
  | .identify => some (.string (Text.utf8 b.identifier))
  | .firmwareVersion => some (.string (Text.utf8 b.firmwareVersion))
  | .apiVersion => some (.string (Text.utf8 b.apiVersion))
  | .countLamps => some (.byte b.lamps)
  | .countCoils => some (.byte b.coils)
  | .countDisplays => some (.byte b.displays)
  | .readSwitch switch => some (.byte (b.switchReply switch.number))
  | .pollChanges => some (.byte (b.changes.headD Code.noChange))
  | .lampOn _ | .lampOff _ | .coilOn _ | .coilOff _ | .coilPulse _ | .setPulseTime _ _
  | .showText _ _ => none

/-- The board after a command. -/
def obey (b : Board) (c : Command) : Board :=
  if c = .pollChanges then b.answerPoll.1 else { b with frames := b.frames ++ [c.frame] }

/-- The texts that the board tells when it is asked. -/
def texts (b : Board) : List String := [b.identifier, b.firmwareVersion, b.apiVersion]

/-- A reply has the shape that the command demands, and is given exactly if the command demands
one. -/
theorem kind_replyTo (b : Board) (c : Command) : (b.replyTo c).map Reply.kind = c.replyKind := by
  cases c <;> rfl

/-- A string is one of the texts of the board. -/
theorem mem_texts_of_replyTo {data : Bytes} (h : b.replyTo c = some (.string data)) :
    ∃ text ∈ b.texts, data = Text.utf8 text := by
  cases c <;> cases h <;> exact ⟨_, by simp [texts], rfl⟩

private theorem reply_of_isDisplayCode {code : UInt8} (h : Frame.isDisplayCode code = true)
    (b : Board) (payload : Bytes) : b.reply (code :: payload) = [] ∧ code ≠ Code.pollChanges := by
  obtain ⟨hlow, hhigh⟩ : 30 ≤ code.toNat ∧ code.toNat < 37 := by
    rw [Frame.isDisplayCode, Bool.and_eq_true, decide_eq_true_iff, decide_eq_true_iff] at h
    exact h
  -- no command of another kind has one of these codes
  have hne : ∀ other : UInt8, other.toNat < 30 ∨ 37 ≤ other.toNat → code ≠ other := by
    rintro other hother rfl
    omega
  constructor
  · rw [reply, if_neg (hne _ (by decide)), if_neg (hne _ (by decide)), if_neg (hne _ (by decide)),
      if_neg (hne _ (by decide)), if_neg (hne _ (by decide)), if_neg (hne _ (by decide)),
      if_neg (hne _ (by decide)), if_neg (hne _ (by decide))]
  · exact hne _ (by decide)

theorem answer_frame (hframe : c.HasFrame) (hstays : b.isLeaving = false) :
    b.answer c.frame = (b.obey c, some (answerBytes (b.replyTo c))) := by
  cases c with
  | showText n text =>
    have hn : n.toNat < Limit.displays.toNat := by
      by_contra hn
      exact Command.not_hasFrame_iff.mpr ⟨n, text, rfl, .inl (Nat.le_of_not_lt hn)⟩ hframe
    obtain ⟨payload, hpayload⟩ : ∃ payload, (Command.showText n text).frame =
        (Command.showText n text).code :: payload := by
      obtain ⟨payload, hf, -⟩ | ⟨_, _, -, -, -, hf⟩ := Command.encode_cases hframe <;>
        exact ⟨_, hf⟩
    have hdisplay : Frame.isDisplayCode (Command.showText n text).code = true :=
      Command.isDisplayCode_showText hn
    obtain ⟨hreply, hcode⟩ := reply_of_isDisplayCode hdisplay b payload
    rw [← hpayload] at hreply
    have hhead : (Command.showText n text).frame.head? ≠ some Code.pollChanges := by
      rw [hpayload]
      simpa using hcode
    rw [answer, if_neg hhead, hreply]
    rfl
  | pollChanges =>
    have hpoll : b.answer Command.pollChanges.frame = b.answerPoll := rfl
    rw [hpoll, obey, if_pos rfl]
    unfold answerPoll
    cases hchanges : b.changes with
    | nil => simp [hstays, replyTo, hchanges, answerBytes, Reply.wire]
    | cons => simp [replyTo, hchanges, answerBytes, Reply.wire]
  | _ => rfl

/-! ### What a command leaves alone -/

theorem frames_obey (b : Board) (c : Command) :
    (b.obey c).frames = b.frames ++ ([c].filter (· ≠ .pollChanges)).map Command.frame := by
  rw [obey]
  split
  · rename_i hc
    unfold answerPoll
    split
    · simp [hc, setSwitchReply]
    · split <;> simp [hc]
  · rename_i hc
    simp [hc]

theorem polls_obey (hstays : b.isLeaving = false) (c : Command) :
    (b.obey c).polls = b.polls + [c].count .pollChanges := by
  rw [obey]
  split
  · rename_i hc
    unfold answerPoll
    split
    · simp [hc, setSwitchReply]
    · simp [hc, hstays]
  · rename_i hc
    simp [hc]

theorem obey_same (b : Board) (c : Command) :
    (b.obey c).gathered = b.gathered ∧ (b.obey c).isLeaving = b.isLeaving ∧
      (b.obey c).texts = b.texts := by
  rw [obey]
  split
  · unfold answerPoll
    split
    · exact ⟨rfl, rfl, rfl⟩
    · split <;> exact ⟨rfl, rfl, rfl⟩
  · exact ⟨rfl, rfl, rfl⟩

/-! ### Byte by byte -/

/-- A board that has read the frames of some commands and the beginning of what follows, and the
replies that it has given. -/
structure Heard (start : Board) (seen rest : List Command) (replies : List Reply) (b : Board) :
    Prop where
  /-- Between two frames nothing is gathered, and within a frame only bytes of this frame. -/
  begun : b.gathered = [] ∨ ∃ c ∈ rest.head?, b.gathered <+: c.frame ∧ b.gathered ≠ c.frame
  frames_eq : b.frames = start.frames ++ (seen.filter (· ≠ .pollChanges)).map Command.frame
  polls_eq : b.polls = start.polls + seen.count .pollChanges
  /-- Each question has been replied to once, in order, and nothing else has been. -/
  kinds_eq : replies.map Reply.kind = seen.filterMap Command.replyKind
  /-- A string ends at its end. -/
  unbroken : (∀ text ∈ start.texts, '\x00' ∉ text.toList) →
    ∀ data, .string data ∈ replies → Code.terminator ∉ data
  texts_eq : b.texts = start.texts
  stays : b.isLeaving = false

namespace Heard

theorem init (hgathered : start.gathered = []) (hstays : start.isLeaving = false)
    (cs : List Command) : Heard start [] cs [] start where
  begun := .inl hgathered
  frames_eq := by simp
  polls_eq := rfl
  kinds_eq := rfl
  unbroken _ _ hmem := absurd hmem List.not_mem_nil
  texts_eq := rfl
  stays := hstays

theorem obey (h : Heard start seen (c :: rest) replies b) :
    Heard start (seen ++ [c]) rest (replies ++ (b.replyTo c).toList)
      ({ b with gathered := [] }.obey c) := by
  obtain ⟨hgathered, hleaving, htexts⟩ := { b with gathered := [] }.obey_same c
  refine ⟨.inl hgathered, ?_, ?_, ?_, fun hclean data hmem ↦ ?_, htexts.trans h.texts_eq,
    hleaving.trans h.stays⟩
  · rw [frames_obey, List.filter_append, List.map_append, ← List.append_assoc, ← h.frames_eq]
  · have hstays : { b with gathered := [] }.isLeaving = false := h.stays
    rw [polls_obey hstays, List.count_append, ← Nat.add_assoc, ← h.polls_eq]
  · have hkind := b.kind_replyTo c
    rw [List.map_append, List.filterMap_append, h.kinds_eq, List.filterMap_cons,
      List.filterMap_nil, ← hkind]
    cases b.replyTo c <;> rfl
  · rcases List.mem_append.mp hmem with hmem | hmem
    · exact h.unbroken hclean data hmem
    · obtain ⟨text, htext, rfl⟩ := mem_texts_of_replyTo (Option.mem_toList.mp hmem)
      rw [Text.terminator_mem_utf8]
      exact hclean text (h.texts_eq ▸ htext)

theorem gather (h : Heard start seen (c :: rest) replies b) {begun : Bytes}
    (hbegun : begun <+: c.frame) (hne : begun ≠ c.frame) :
    Heard start seen (c :: rest) replies { b with gathered := begun } :=
  { h with begun := .inr ⟨c, rfl, hbegun, hne⟩ }

/-- **The next byte is either gathered or the last one of its frame.** -/
theorem receive (h : Heard start seen rest replies b) (hrest : ∀ c ∈ rest, c.HasFrame)
    {byte : UInt8} (hbyte : b.gathered ++ [byte] <+: Command.frames rest) :
    ∃ seen' rest' answered answer, seen' ++ rest' = seen ++ rest ∧
      b.receive byte = ((b.receive byte).1, some answer) ∧
      Heard start seen' rest' (replies ++ answered) (b.receive byte).1 ∧
      Command.frames seen' ++ (b.receive byte).1.gathered =
        Command.frames seen ++ (b.gathered ++ [byte]) ∧
      answered.flatMap Reply.wire = answer := by
  cases rest with
  | nil => simp at hbyte
  | cons c rest =>
    have hc : c.encode = .ok c.frame := hrest c List.mem_cons_self
    -- the board has not read past the end of this frame, so the byte is still of it
    have hshort : b.gathered.length < c.frame.length := by
      obtain hnil | ⟨c', hc', hbegins, hne⟩ := h.begun
      · rw [hnil]
        exact List.length_pos_iff.mpr (Command.HasFrame.frame_ne_nil hc)
      · obtain rfl : c = c' := by simpa using hc'
        refine Nat.lt_of_le_of_ne hbegins.length_le fun heq ↦ hne (hbegins.eq_of_length heq)
    have hbegins : b.gathered ++ [byte] <+: c.frame := by
      refine List.prefix_of_prefix_length_le hbyte (List.prefix_append _ _) ?_
      rw [List.length_append, List.length_singleton]
      exact hshort
    by_cases heq : b.gathered ++ [byte] = c.frame
    · have hreceive : b.receive byte =
          ({ b with gathered := [] }.obey c, some (answerBytes (b.replyTo c))) := by
        have hstays : { b with gathered := [] }.isLeaving = false := h.stays
        simp only [Board.receive, heq, Command.isComplete_of_encode hc, if_true]
        exact answer_frame hc hstays
      have hgathered := ({ b with gathered := [] }.obey_same c).1
      refine ⟨seen ++ [c], rest, (b.replyTo c).toList, answerBytes (b.replyTo c), by simp, ?_, ?_,
        ?_, ?_⟩
      · rw [hreceive]
      · rw [hreceive]
        exact h.obey
      · rw [hreceive, heq, hgathered]
        simp
      · cases b.replyTo c <;> simp [answerBytes]
    · have hreceive : b.receive byte = ({ b with gathered := b.gathered ++ [byte] }, some []) := by
        have hopen := Command.not_isComplete_of_prefix hc hbegins heq
        simp [Board.receive, hopen]
      refine ⟨seen, c :: rest, [], [], rfl, by rw [hreceive], ?_, by rw [hreceive], rfl⟩
      rw [hreceive, List.append_nil]
      exact h.gather hbegins heq

end Heard

end Board

/-! ## A line that is listened to -/

namespace BoardLine

variable {start : Board} {cs : List Command} {said heard ahead : Bytes} {line : BoardLine}
  {seen rest : List Command} {replies : List Reply}

/-- A line whose two ends are held: the host has written the bytes `said`, which the board takes for
the commands `cs`, and has read the bytes `heard`; the board has still to look at the bytes
`ahead`. -/
structure Follows (start : Board) (cs : List Command) (said heard ahead : Bytes) (line : BoardLine)
    (seen rest : List Command) (replies : List Reply) : Prop where
  split : seen ++ rest = cs
  board : Board.Heard start seen rest replies line.board
  /-- The board swallows nothing. -/
  said_eq : said = Command.frames seen ++ line.board.gathered ++ ahead
  /-- What the host has not read of the replies is on its way. -/
  heard_eq : heard ++ line.toHost ++ line.unsent = replies.flatMap Reply.wire
  capacity_ne : line.capacity ≠ some 0
  held : line.boardGone = false ∧ line.hostDone = false ∧ line.hostGone = false

/-- The board holds an answer back only while there is something for the host to read. -/
def Gives (line : BoardLine) : Prop := line.toHost = [] → line.unsent = []

theorem room_nil_pos (hcapacity : line.capacity ≠ some 0) {bytes : Bytes} (h : bytes ≠ []) :
    0 < line.room [] bytes := by
  have hlength : 0 < bytes.length := List.length_pos_iff.mpr h
  unfold room
  split
  · exact hlength
  · rename_i capacity hc
    have hpos : capacity ≠ 0 := fun hzero ↦ hcapacity (hzero ▸ hc)
    simp only [List.length_nil, Nat.sub_zero, Nat.lt_min]
    exact ⟨hlength, Nat.pos_of_ne_zero hpos⟩

/-- Passing on what fits changes nothing but how far it has come. -/
theorem transmit_same (hhost : line.hostGone = false) :
    line.transmit.toBoard = line.toBoard ∧
      line.transmit.toHost ++ line.transmit.unsent = line.toHost ++ line.unsent := by
  by_cases hunsent : line.unsent = []
  · rw [transmit, if_pos hunsent]
    exact ⟨rfl, rfl⟩
  · rw [transmit, if_neg hunsent, if_neg (by simp [hhost])]
    exact ⟨rfl, by simp⟩

theorem length_consume (line : BoardLine) (bytes : Bytes) :
    (line.consume bytes).toBoard.length ≤ bytes.length := by
  induction bytes generalizing line with
  | nil => exact Nat.le_refl 0
  | cons byte bytes ih =>
    rw [consume]
    split
    · exact Nat.le_refl _
    · split
      · exact (ih _).trans (Nat.le_succ _)
      · exact Nat.zero_le _

/-- The board reads something, or it only passes on what it has to say. -/
theorem consume_cases (line : BoardLine) (bytes : Bytes) :
    (line.consume bytes).toBoard.length < bytes.length ∨
      line.consume bytes = { line with toBoard := bytes } := by
  cases bytes with
  | nil => exact .inr rfl
  | cons byte bytes =>
    rw [consume]
    split
    · exact .inr rfl
    · left
      split
      · exact Nat.lt_succ_of_le (length_consume _ bytes)
      · exact Nat.succ_pos _

namespace Follows

theorem transmit (h : Follows start cs said heard ahead line seen rest replies) :
    Follows start cs said heard ahead line.transmit seen rest replies ∧ line.transmit.Gives := by
  by_cases hunsent : line.unsent = []
  · rw [BoardLine.transmit, if_pos hunsent]
    exact ⟨h, fun _ ↦ hunsent⟩
  · rw [BoardLine.transmit, if_neg hunsent, if_neg (by simp [h.held.2.2])]
    refine ⟨{ h with heard_eq := by rw [← h.heard_eq]; simp }, fun hnil ↦ ?_⟩
    -- an empty pipe has room for something, and would not be empty now
    obtain ⟨hhost, htake⟩ := List.append_eq_nil_iff.mp hnil
    have hroom := line.room_nil_pos h.capacity_ne hunsent
    rw [hhost, List.take_eq_nil_iff] at htake
    exact absurd htake (by simp [hunsent, Nat.ne_of_gt hroom])

theorem consume (h : Follows start cs said heard ahead line seen rest replies)
    (hframes : ∀ c ∈ cs, c.HasFrame) (hsaid : said <+: Command.frames cs) (hgives : line.Gives) :
    ∃ seen' rest' replies',
      Follows start cs said heard (line.consume ahead).toBoard (line.consume ahead) seen' rest'
        replies' ∧
      (line.consume ahead).Gives ∧
      ((line.consume ahead).unsent = [] → (line.consume ahead).toBoard = []) := by
  induction ahead generalizing line seen rest replies with
  | nil => exact ⟨seen, rest, replies, { h with }, hgives, fun _ ↦ rfl⟩
  | cons byte bytes ih =>
    by_cases hunsent : line.unsent = []
    · rw [BoardLine.consume, if_neg (by simp [h.held.1, hunsent])]
      have hrest : ∀ c ∈ rest, c.HasFrame := fun c hc ↦
        hframes c (h.split ▸ List.mem_append_right seen hc)
      have hbyte : line.board.gathered ++ [byte] <+: Command.frames rest := by
        rw [← h.split, h.said_eq, Command.frames_append, List.append_assoc,
          List.prefix_append_right_inj] at hsaid
        exact List.IsPrefix.trans ⟨bytes, by simp⟩ hsaid
      obtain ⟨seen', rest', answered, answer, hsplit, hreceive, hboard, hread, hanswer⟩ :=
        h.board.receive hrest hbyte
      rw [hreceive]
      have hnext : Follows start cs said heard bytes
          { line with board := (line.board.receive byte).1, unsent := answer }
          seen' rest' (replies ++ answered) :=
        { split := hsplit.trans h.split
          board := hboard
          said_eq := by rw [hread, h.said_eq]; simp
          heard_eq := by rw [List.flatMap_append, hanswer, ← h.heard_eq, hunsent]; simp
          capacity_ne := h.capacity_ne
          held := h.held }
      obtain ⟨hsent, hgives'⟩ := hnext.transmit
      exact ih hsent hgives'
    · rw [BoardLine.consume, if_pos (by simp [hunsent])]
      exact ⟨seen, rest, replies, { h with }, hgives, fun hnil ↦ absurd hnil hunsent⟩

theorem serve (h : Follows start cs said heard ahead line seen rest replies)
    (hahead : line.toBoard = ahead) (hframes : ∀ c ∈ cs, c.HasFrame)
    (hsaid : said <+: Command.frames cs) :
    ∃ seen' rest' replies',
      Follows start cs said heard line.serve.toBoard line.serve seen' rest' replies' ∧
      line.serve.Gives ∧ (line.serve.unsent = [] → line.serve.toBoard = []) := by
  obtain ⟨hsent, hgives⟩ := h.transmit
  have htoBoard : line.transmit.toBoard = ahead := (transmit_same h.held.2.2).1.trans hahead
  obtain ⟨seen', rest', replies', hfollows, hrest⟩ := hsent.consume hframes hsaid hgives
  have hserve : line.serve = line.transmit.consume ahead := by
    simp [BoardLine.serve, htoBoard, hfollows.held.2.1, hfollows.held.2.2]
  rw [hserve]
  exact ⟨seen', rest', replies', hfollows, hrest⟩

end Follows

/-- Whatever the board does, it has less to read or as much to say as before. -/
theorem serve_cases (hhost : line.hostGone = false) :
    line.serve.toBoard.length < line.toBoard.length ∨
      line.serve.toBoard = line.toBoard ∧
        line.serve.toHost ++ line.serve.unsent = line.toHost ++ line.unsent := by
  obtain ⟨htoBoard, hbytes⟩ := transmit_same hhost
  have hserve : line.serve.toBoard = (line.transmit.consume line.transmit.toBoard).toBoard ∧
      line.serve.toHost ++ line.serve.unsent =
        (line.transmit.consume line.transmit.toBoard).toHost ++
          (line.transmit.consume line.transmit.toBoard).unsent := by
    rw [serve]
    split
    · rename_i hleaves
      simp only [Bool.and_eq_true, beq_iff_eq] at hleaves
      simp [leave, hleaves.1.2, hleaves.2]
    · exact ⟨rfl, rfl⟩
  rw [hserve.1, hserve.2]
  refine (consume_cases line.transmit line.transmit.toBoard).imp (fun hless ↦ ?_) fun hsame ↦ ?_
  · rwa [htoBoard] at hless ⊢
  · rw [hsame]
    exact ⟨htoBoard, hbytes⟩

end BoardLine

/-! ## A host on the line -/

/-- A host and the board that it talks to. -/
structure BoardDialogue where
  line : BoardLine
  /-- All that the host has written. -/
  said : Bytes := []
  /-- All that the host has read. -/
  heard : Bytes := []

namespace BoardDialogue

/-- What happens between a host and a board. -/
inductive Step where
  /-- The host writes as much of some bytes as the line takes. -/
  | write (bytes : Bytes)
  /-- The host reads, at most this many bytes. -/
  | read (limit : Nat)
  /-- The board learns of a change. -/
  | change (status : UInt8)
deriving DecidableEq, Repr

/-- Nothing has been said yet. -/
def fresh (board : Board) (capacity : Option Nat) : BoardDialogue := { line := { board, capacity } }

/-- One step. -/
def step (p : BoardDialogue) : Step → BoardDialogue
  | .write bytes =>
    match p.line.write bytes with
    | (.accepted count, line) => { p with line, said := p.said ++ bytes.take count }
    | (_, line) => { p with line }
  | .read limit =>
    match p.line.read limit with
    | (.chunk bytes, line) => { p with line, heard := p.heard ++ bytes }
    | (_, line) => { p with line }
  | .change status => { p with line := { p.line with board := p.line.board.pushChange status } }

/-- Any number of steps. -/
def run (p : BoardDialogue) (steps : List Step) : BoardDialogue := steps.foldl step p

theorem run_append (p : BoardDialogue) (steps steps' : List Step) :
    p.run (steps ++ steps') = (p.run steps).run steps' :=
  List.foldl_append

variable {start : Board} {cs seen rest : List Command} {replies : List Reply} {p : BoardDialogue}
  {capacity : Option Nat}

/-- The board has done its part of a conversation in which the host says the commands `cs`. -/
structure Understood (start : Board) (cs : List Command) (p : BoardDialogue)
    (seen rest : List Command) (replies : List Reply) : Prop
    extends BoardLine.Follows start cs p.said p.heard p.line.toBoard p.line seen rest replies where
  gives : p.line.Gives
  /-- Unless it cannot give an answer, the board has read everything. -/
  attentive : p.line.unsent = [] → p.line.toBoard = []

theorem step_write (hgone : p.line.boardGone = false) {bytes : Bytes}
    (hroom : p.line.room p.line.toBoard bytes ≠ 0) :
    p.step (.write bytes) =
      { p with
        line := { p.line with
          toBoard := p.line.toBoard ++ bytes.take (p.line.room p.line.toBoard bytes) }.serve
        said := p.said ++ bytes.take (p.line.room p.line.toBoard bytes) } := by
  simp [step, BoardLine.write, hgone, hroom]

theorem step_read (hhost : p.line.toHost ≠ []) (limit : Nat) :
    p.step (.read limit) =
      { p with
        line := { p.line with toHost := p.line.toHost.drop limit }.serve
        heard := p.heard ++ p.line.toHost.take limit } := by
  simp [step, BoardLine.read, hhost]

theorem said_prefix_step (p : BoardDialogue) (step : Step) : p.said <+: (p.step step).said := by
  cases step with
  | write bytes =>
    rw [step]
    split
    · exact List.prefix_append _ _
    · exact List.prefix_rfl
  | read limit =>
    rw [step]
    split <;> exact List.prefix_rfl
  | change status => exact List.prefix_rfl

theorem said_prefix_run (p : BoardDialogue) (steps : List Step) :
    p.said <+: (p.run steps).said := by
  induction steps generalizing p with
  | nil => exact List.prefix_rfl
  | cons step steps ih => exact (p.said_prefix_step step).trans (ih (p.step step))

namespace Understood

theorem fresh (hgathered : start.gathered = []) (hstays : start.isLeaving = false)
    (hcapacity : capacity ≠ some 0) (cs : List Command) :
    Understood start cs (fresh start capacity) [] cs [] where
  split := rfl
  board := .init hgathered hstays cs
  said_eq := by simp [BoardDialogue.fresh, hgathered]
  heard_eq := rfl
  capacity_ne := hcapacity
  held := ⟨rfl, rfl, rfl⟩
  gives _ := rfl
  attentive _ := rfl

/-- Nothing that host and board do makes the board lose its place. -/
theorem step (h : Understood start cs p seen rest replies) (hframes : ∀ c ∈ cs, c.HasFrame)
    (step : Step) (hsaid : (p.step step).said <+: Command.frames cs) :
    ∃ seen' rest' replies', Understood start cs (p.step step) seen' rest' replies' := by
  cases step with
  | write bytes =>
    by_cases hroom : p.line.room p.line.toBoard bytes = 0
    · have hstep : p.step (.write bytes) = p := by
        simp [BoardDialogue.step, BoardLine.write, h.held.1, hroom]
      rw [hstep]
      exact ⟨seen, rest, replies, h⟩
    · rw [step_write h.held.1 hroom] at hsaid ⊢
      generalize bytes.take (p.line.room p.line.toBoard bytes) = taken at hsaid ⊢
      have hnext : BoardLine.Follows start cs (p.said ++ taken) p.heard (p.line.toBoard ++ taken)
          { p.line with toBoard := p.line.toBoard ++ taken } seen rest replies :=
        { h.toFollows with said_eq := by rw [h.said_eq]; simp }
      obtain ⟨seen', rest', replies', hfollows, hgives, hattentive⟩ := hnext.serve rfl hframes hsaid
      exact ⟨seen', rest', replies', ⟨hfollows, hgives, hattentive⟩⟩
  | read limit =>
    by_cases hhost : p.line.toHost = []
    · have hstep : p.step (.read limit) = p := by
        simp [BoardDialogue.step, BoardLine.read, h.held.1, hhost]
      rw [hstep]
      exact ⟨seen, rest, replies, h⟩
    · rw [step_read hhost] at hsaid ⊢
      have hnext : BoardLine.Follows start cs p.said (p.heard ++ p.line.toHost.take limit)
          p.line.toBoard { p.line with toHost := p.line.toHost.drop limit } seen rest replies :=
        { h.toFollows with heard_eq := by rw [← h.heard_eq]; simp }
      obtain ⟨seen', rest', replies', hfollows, hgives, hattentive⟩ := hnext.serve rfl hframes hsaid
      exact ⟨seen', rest', replies', ⟨hfollows, hgives, hattentive⟩⟩
  | change status => exact ⟨seen, rest, replies, { h with board := { h.board with } }⟩

theorem run (h : Understood start cs p seen rest replies) (hframes : ∀ c ∈ cs, c.HasFrame)
    (steps : List Step) (hsaid : (p.run steps).said <+: Command.frames cs) :
    ∃ seen' rest' replies', Understood start cs (p.run steps) seen' rest' replies' := by
  induction steps generalizing p seen rest replies with
  | nil => exact ⟨seen, rest, replies, h⟩
  | cons step steps ih =>
    obtain ⟨seen', rest', replies', hstep⟩ :=
      h.step hframes step ((said_prefix_run _ steps).trans hsaid)
    exact ih hstep hsaid

/-- The board does not wait for a byte more than a frame has. -/
theorem prefix_seen (h : Understood start cs p seen rest replies) (hframes : ∀ c ∈ cs, c.HasFrame)
    (hunsent : p.line.unsent = []) {told : List Command} (htold : told <+: cs)
    (hsaid : Command.frames told <+: p.said) : told <+: seen := by
  rw [h.said_eq, h.attentive hunsent, List.append_nil] at hsaid
  have hseen : seen <+: cs := ⟨rest, h.split⟩
  refine (List.prefix_or_prefix_of_prefix htold hseen).elim id fun hlong ↦ ?_
  obtain ⟨more, rfl⟩ := hlong
  rw [Command.frames_append, List.prefix_append_right_inj] at hsaid
  cases more with
  | nil => simp
  | cons c more =>
    -- the next frame would be in what is only its beginning
    obtain ⟨tail, htail⟩ := htold
    obtain ⟨rfl⟩ : rest = c :: more ++ tail := by
      have hsplit := h.split
      rw [← htail, List.append_assoc] at hsplit
      exact List.append_cancel_left hsplit
    have hwhole : c.frame <+: p.line.board.gathered :=
      (List.prefix_append _ _).trans hsaid
    obtain hnil | ⟨c', hc', hbegins, hne⟩ := h.board.begun
    · have hc : c.HasFrame := hframes c (by simp [← htail])
      rw [hnil, List.prefix_nil] at hwhole
      exact absurd hwhole hc.frame_ne_nil
    · obtain rfl : c = c' := by simpa using hc'
      exact absurd (hbegins.eq_of_length_le hwhole.length_le) hne

/-- A host that reads on has read everything at last, in whatever portions it reads. -/
theorem read_all {p : BoardDialogue} {seen rest : List Command} {replies : List Reply}
    (h : Understood start cs p seen rest replies)
    (hframes : ∀ c ∈ cs, c.HasFrame) (hsaid : p.said <+: Command.frames cs) {limit : Nat}
    (hlimit : 0 < limit) :
    ∃ n, (p.run (List.replicate n (.read limit))).said = p.said ∧
      (p.run (List.replicate n (.read limit))).line.toHost = [] := by
  by_cases hhost : p.line.toHost = []
  · exact ⟨0, rfl, hhost⟩
  · have hstep := step_read hhost limit
    have hsame : (p.step (.read limit)).said = p.said := by rw [hstep]
    obtain ⟨seen', rest', replies', hnext⟩ := h.step hframes (.read limit) (hsame ▸ hsaid)
    -- each portion brings the board on, or leaves less of what it has said
    have hless : Prod.Lex (· < ·) (· < ·)
        ((p.step (.read limit)).line.toBoard.length,
          ((p.step (.read limit)).line.toHost ++ (p.step (.read limit)).line.unsent).length)
        (p.line.toBoard.length, (p.line.toHost ++ p.line.unsent).length) := by
      have hshort : (p.line.toHost.drop limit ++ p.line.unsent).length <
          (p.line.toHost ++ p.line.unsent).length := by
        have hlength : 0 < p.line.toHost.length := List.length_pos_iff.mpr hhost
        simp only [List.length_append, List.length_drop]
        omega
      rw [hstep]
      have hhost : { p.line with toHost := p.line.toHost.drop limit }.hostGone = false := h.held.2.2
      obtain hread | ⟨hread, hbytes⟩ := BoardLine.serve_cases hhost
      · exact .left _ _ hread
      · simp only [hread, hbytes]
        exact .right _ hshort
    obtain ⟨n, hn, hdone⟩ := hnext.read_all hframes (hsame ▸ hsaid) hlimit
    exact ⟨n + 1, hn.trans hsame, hdone⟩
termination_by (p.line.toBoard.length, (p.line.toHost ++ p.line.unsent).length)
decreasing_by exact hless

/-- Whatever has happened, a host that reads what it is told can say all that it has to say. -/
theorem finish {p : BoardDialogue} {seen rest : List Command} {replies : List Reply}
    (h : Understood start cs p seen rest replies) (hframes : ∀ c ∈ cs, c.HasFrame)
    (hsaid : p.said <+: Command.frames cs) :
    ∃ steps, (p.run steps).said = Command.frames cs ∧ (p.run steps).line.toHost = [] := by
  obtain ⟨n, hn, hhost⟩ := h.read_all hframes hsaid Nat.one_pos
  obtain ⟨q, hq⟩ : ∃ q, p.run (List.replicate n (.read 1)) = q := ⟨_, rfl⟩
  rw [hq] at hn hhost
  obtain ⟨left, hleft⟩ := hsaid
  by_cases hnil : left = []
  · exact ⟨_, by rw [hq, hn, ← hleft, hnil, List.append_nil], by rw [hq, hhost]⟩
  · obtain ⟨seen', rest', replies', hread⟩ : ∃ seen' rest' replies',
        Understood start cs q seen' rest' replies' :=
      hq ▸ h.run hframes _ (by rw [hq, hn]; exact ⟨left, hleft⟩)
    -- the line is idle now, so it takes some of what is left
    have hroom : 0 < q.line.room q.line.toBoard left := by
      rw [hread.attentive (hread.gives hhost)]
      exact q.line.room_nil_pos hread.capacity_ne hnil
    have hstep := step_write hread.held.1 (Nat.ne_of_gt hroom)
    have hsaid : (q.step (.write left)).said <+: Command.frames cs := by
      rw [hstep, hn, ← hleft, List.prefix_append_right_inj]
      exact List.take_prefix _ _
    obtain ⟨seen', rest', replies', hnext⟩ := hread.step hframes (.write left) hsaid
    have hless : (Command.frames cs).length - (q.step (.write left)).said.length <
        (Command.frames cs).length - p.said.length := by
      have hpos : 0 < left.length := List.length_pos_iff.mpr hnil
      rw [hstep, hn, ← hleft]
      simp only [List.length_append, List.length_take]
      omega
    obtain ⟨steps, hdone⟩ := hnext.finish hframes hsaid
    exact ⟨List.replicate n (.read 1) ++ .write left :: steps, by rwa [run_append, hq]⟩
termination_by (Command.frames cs).length - p.said.length
decreasing_by exact hless

end Understood

/-- **The board understands a host, however its bytes are cut.** No frame is a proper beginning of
another one, and no other list of commands has the bytes that the host says. The board has taken
frame after frame from them, is within the next one, and has answered each question once
(`Understood`). It never waits for bytes beyond a frame that has been said, and a host that reads
what it is told can always say the rest. -/
theorem understood_run (hgathered : start.gathered = []) (hstays : start.isLeaving = false)
    (hcapacity : capacity ≠ some 0) (hframes : ∀ c ∈ cs, c.HasFrame) (steps : List Step)
    (hsaid : ((fresh start capacity).run steps).said <+: Command.frames cs) :
    (∀ (c d : Command) (f g : Bytes), c.encode = .ok f → d.encode = .ok g → f <+: g → c = d) ∧
    (∀ ds, (∀ d ∈ ds, Command.HasFrame d) → Command.frames ds = Command.frames cs → ds = cs) ∧
    (∃ more, ((fresh start capacity).run (steps ++ more)).said = Command.frames cs ∧
      ((fresh start capacity).run (steps ++ more)).line.toHost = []) ∧
    ∃ seen rest replies,
      Understood start cs ((fresh start capacity).run steps) seen rest replies ∧
      (((fresh start capacity).run steps).line.unsent = [] → ∀ told, told <+: cs →
        Command.frames told <+: ((fresh start capacity).run steps).said → told <+: seen) ∧
      (((fresh start capacity).run steps).said = Command.frames cs →
        ((fresh start capacity).run steps).line.toHost = [] →
        seen = cs ∧ ((fresh start capacity).run steps).line.board.gathered = [] ∧
          ((fresh start capacity).run steps).heard = replies.flatMap Reply.wire) := by
  obtain ⟨seen, rest, replies, h⟩ :=
    (Understood.fresh hgathered hstays hcapacity cs).run hframes steps hsaid
  refine ⟨fun c d f g ↦ Command.eq_of_encode_prefix,
    fun ds hds hsame ↦ Command.frames_injective hds hframes hsame, ?_,
    seen, rest, replies, h, fun hunsent told ↦ h.prefix_seen hframes hunsent, fun hall hhost ↦ ?_⟩
  · obtain ⟨more, hmore⟩ := h.finish hframes hsaid
    exact ⟨more, by rwa [run_append]⟩
  · have hunsent := h.gives hhost
    have hseen : seen = cs := by
      have hbegins := h.prefix_seen hframes hunsent List.prefix_rfl (hall ▸ List.prefix_rfl)
      exact List.IsPrefix.eq_of_length_le ⟨rest, h.split⟩ hbegins.length_le
    obtain rfl : rest = [] := by
      have hsplit := h.split
      rwa [hseen, List.append_right_eq_self] at hsplit
    refine ⟨hseen, h.board.begun.elim id fun ⟨c, hc, _⟩ ↦ absurd hc (by simp), ?_⟩
    rw [← h.heard_eq, hhost, hunsent, List.append_nil, List.append_nil]

/-- Four commands. -/
def fourCommands : List Command := [.identify, .showText 2 "AB", .pollChanges, .lampOn 4]

/-- The four commands on pipes of two bytes: the first answer has to wait for the host, a text is
cut in the middle, and a change is learnt of in between. -/
def fourSteps : List Step :=
  [.write [0, 32, 65], .write [65], .read 2, .change 0x85, .read 9, .read 9, .write [66, 0],
    .write [41, 11, 4], .write [4], .read 9]

theorem understood_run_four :
    (∀ c ∈ fourCommands, c.HasFrame) ∧
      ((fresh {} (some 2)).run fourSteps).said = Command.frames fourCommands ∧
      ∃ replies,
        Understood {} fourCommands ((fresh {} (some 2)).run fourSteps) fourCommands [] replies ∧
        ((fresh {} (some 2)).run fourSteps).heard = replies.flatMap Reply.wire := by
  have hframes : ∀ c ∈ fourCommands, c.HasFrame := by decide +kernel
  have hsaid : ((fresh {} (some 2)).run fourSteps).said = Command.frames fourCommands := by
    decide +kernel
  have hbegins : ((fresh {} (some 2)).run fourSteps).said <+: Command.frames fourCommands :=
    hsaid ▸ List.prefix_rfl
  obtain ⟨-, -, -, seen, rest, replies, h, -, hdone⟩ :=
    understood_run (by rfl) (by rfl) (by decide) hframes fourSteps hbegins
  obtain ⟨rfl, -, hheard⟩ := hdone hsaid (by decide +kernel)
  obtain rfl : rest = [] := List.append_right_eq_self.mp h.split
  exact ⟨hframes, hsaid, replies, h, hheard⟩

end BoardDialogue

end PinballBoard
