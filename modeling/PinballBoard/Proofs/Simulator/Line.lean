import PinballBoard.Platform.Session
import PinballBoard.Proofs.Link.Smooth
import PinballBoard.Proofs.Simulator.Serve

/-!
# A line without bounds

On a line that holds any number of bytes nobody has to wait. The simulated board reads whatever has
been written and answers it before the host gets on (`BoardLine.Open.serve`). So what comes of such
a line is a matter of the bytes alone, and `Board.receiveAll` says what they do to the board, one
byte after the other. A frame does to it what its command says (`Board.receiveAll_frame`), and of a
frame that has not come to its end it only takes note.
-/

namespace PinballBoard

/-! ## Byte by byte -/

namespace Board

variable {b : Board} {c : Command}

/-- Receive some bytes, and gather the answers. -/
def receiveAll (b : Board) : Bytes → Board × Bytes
  | [] => (b, [])
  | byte :: bytes =>
    (((b.receive byte).1.receiveAll bytes).1,
      (b.receive byte).2.getD [] ++ ((b.receive byte).1.receiveAll bytes).2)

@[simp] theorem receiveAll_nil (b : Board) : b.receiveAll [] = (b, []) := rfl

theorem receiveAll_cons (b : Board) (byte : UInt8) (bytes : Bytes) :
    b.receiveAll (byte :: bytes) =
      (((b.receive byte).1.receiveAll bytes).1,
        (b.receive byte).2.getD [] ++ ((b.receive byte).1.receiveAll bytes).2) := rfl

theorem receiveAll_append (b : Board) (bytes more : Bytes) :
    b.receiveAll (bytes ++ more) =
      (((b.receiveAll bytes).1.receiveAll more).1,
        (b.receiveAll bytes).2 ++ ((b.receiveAll bytes).1.receiveAll more).2) := by
  induction bytes generalizing b with
  | nil => rfl
  | cons byte bytes ih =>
    rw [List.cons_append, receiveAll_cons, receiveAll_cons, ih, List.append_assoc]

private theorem gathered_nil (h : b.gathered = []) : { b with gathered := [] } = b := by
  cases b
  cases h
  rfl

theorem receiveAll_of_prefix (hframe : c.HasFrame) (hgathered : b.gathered = [])
    {begun : Bytes} (hbegun : begun <+: c.frame) (hne : begun ≠ c.frame) :
    b.receiveAll begun = ({ b with gathered := begun }, []) := by
  induction begun using List.reverseRecOn with
  | nil => exact congrArg (·, []) (gathered_nil hgathered).symm
  | append_singleton earlier byte ih =>
    have hearlier : earlier <+: c.frame := (List.prefix_append _ _).trans hbegun
    have hshort : earlier ≠ c.frame := by
      rintro rfl
      exact absurd hbegun.length_le (by simp)
    have hopen := Command.not_isComplete_of_prefix hframe hbegun hne
    rw [receiveAll_append, ih hearlier hshort, receiveAll_cons]
    simp [receive, receiveAll, hopen]

/-- **Byte by byte**, a frame does to a board what its command says, and its last byte makes the
board answer. -/
theorem receiveAll_frame (hframe : c.HasFrame) (hgathered : b.gathered = [])
    (hstays : b.isLeaving = false) :
    b.receiveAll c.frame = (b.obey c, answerBytes (b.replyTo c)) := by
  obtain ⟨begun, byte, hsplit⟩ : ∃ begun byte, c.frame = begun ++ [byte] :=
    ⟨_, _, (List.dropLast_append_getLast hframe.frame_ne_nil).symm⟩
  have hbegun : begun <+: c.frame := hsplit ▸ List.prefix_append _ _
  have hne : begun ≠ c.frame := by
    rw [hsplit]
    exact fun h ↦ absurd (congrArg List.length h) (by simp)
  have hcomplete : Frame.isComplete (begun ++ [byte]) = true :=
    hsplit ▸ Command.isComplete_of_encode hframe
  rw [hsplit, receiveAll_append, receiveAll_of_prefix hframe hgathered hbegun hne, receiveAll_cons]
  simp only [receive, receiveAll, hcomplete, if_true, List.nil_append, List.append_nil]
  rw [← hsplit, gathered_nil hgathered, answer_frame hframe hstays, Option.getD_some]

/-- A board that stays answers whatever it is told. -/
private theorem answer_of_stays (h : b.isLeaving = false) (frame : Bytes) :
    (b.answer frame).1.isLeaving = false ∧ ∃ answer, (b.answer frame).2 = some answer := by
  rw [answer]
  by_cases hpoll : frame.head? = some Code.pollChanges
  · rw [if_pos hpoll, answerPoll]
    cases b.changes with
    | nil =>
      dsimp only
      rw [if_neg (by simp [h])]
      exact ⟨h, _, rfl⟩
    | cons status changes => exact ⟨h, _, rfl⟩
  · rw [if_neg hpoll]
    exact ⟨h, _, rfl⟩

theorem receive_of_stays (h : b.isLeaving = false) (byte : UInt8) :
    (b.receive byte).1.isLeaving = false ∧ ∃ answer, (b.receive byte).2 = some answer := by
  rw [receive]
  by_cases hcomplete : Frame.isComplete (b.gathered ++ [byte]) = true
  · rw [if_pos hcomplete]
    exact answer_of_stays (b := { b with gathered := [] }) h _
  · rw [if_neg hcomplete]
    exact ⟨h, _, rfl⟩

theorem receiveAll_of_stays (h : b.isLeaving = false) (bytes : Bytes) :
    (b.receiveAll bytes).1.isLeaving = false := by
  induction bytes generalizing b with
  | nil => exact h
  | cons byte bytes ih =>
    rw [receiveAll_cons]
    exact ih (receive_of_stays h byte).1

end Board

/-! ## The line -/

namespace BoardLine

variable {line : BoardLine}

/-- A line without bounds, with a host and a board at its ends who both stay. -/
structure Open (line : BoardLine) : Prop where
  capacity_eq : line.capacity = none
  held : line.boardGone = false ∧ line.hostDone = false ∧ line.hostGone = false
  stays : line.board.isLeaving = false
  unsent_eq : line.unsent = []

private theorem Open.transmit (h : line.Open) (answer : Bytes) :
    { line with unsent := answer }.transmit = { line with toHost := line.toHost ++ answer } := by
  obtain ⟨hcapacity, ⟨hboard, hdone, hhost⟩, hstays, hunsent⟩ := h
  cases line
  cases hunsent
  cases answer <;> simp_all [BoardLine.transmit, room]

theorem Open.consume (h : line.Open) (bytes : Bytes) :
    line.consume bytes =
      { line with
        board := (line.board.receiveAll bytes).1
        toHost := line.toHost ++ (line.board.receiveAll bytes).2
        toBoard := [] } := by
  induction bytes generalizing line with
  | nil => simp [BoardLine.consume, Board.receiveAll]
  | cons byte bytes ih =>
    obtain ⟨hstays, answer, hanswer⟩ := Board.receive_of_stays h.stays byte
    have hopen : Open { line with board := (line.board.receive byte).1 } :=
      ⟨h.capacity_eq, h.held, hstays, h.unsent_eq⟩
    have hreceive : line.board.receive byte = ((line.board.receive byte).1, some answer) :=
      Prod.ext rfl hanswer
    rw [BoardLine.consume, if_neg (by simp [h.held.1, h.unsent_eq]), hreceive]
    dsimp only
    have hanswered : Open
        { line with board := (line.board.receive byte).1, toHost := line.toHost ++ answer } :=
      ⟨h.capacity_eq, h.held, hstays, h.unsent_eq⟩
    rw [hopen.transmit answer, ih hanswered, Board.receiveAll_cons, hanswer, Option.getD_some,
      List.append_assoc]

/-- **The board reads everything at once**, and its answers are there for the host to read. -/
theorem Open.serve (h : line.Open) :
    line.serve =
      { line with
        board := (line.board.receiveAll line.toBoard).1
        toHost := line.toHost ++ (line.board.receiveAll line.toBoard).2
        toBoard := [] } := by
  have htransmit : line.transmit = line := if_pos h.unsent_eq
  rw [BoardLine.serve, htransmit, h.consume]
  simp [h.held]

theorem serve_of_quiet (line : BoardLine) (htoBoard : line.toBoard = [])
    (hunsent : line.unsent = []) :
    line.serve.board = line.board ∧ line.serve.toBoard = [] ∧ line.serve.unsent = [] := by
  have htransmit : line.transmit = line := if_pos hunsent
  rw [BoardLine.serve, htransmit, htoBoard, BoardLine.consume]
  split <;> simp [leave, hunsent]

/-! ## What the line does for a connection -/

variable {stream : BoardLine} {c : Connection} {a : Action}

theorem Open.write_eq (h : line.Open) (htoBoard : line.toBoard = []) {bytes : Bytes}
    (hbytes : bytes ≠ []) :
    ByteStream.write line bytes =
      (.accepted bytes.length,
        { line with
          board := (line.board.receiveAll bytes).1
          toHost := line.toHost ++ (line.board.receiveAll bytes).2 }) := by
  have hroom : line.room line.toBoard bytes = bytes.length := by rw [room, h.capacity_eq]
  have hopen : Open { line with toBoard := bytes } :=
    ⟨h.capacity_eq, h.held, h.stays, h.unsent_eq⟩
  change BoardLine.write line bytes = _
  rw [BoardLine.write, if_neg (by simp [h.held.1]), hroom, if_neg (by simpa using hbytes),
    List.take_length, htoBoard, List.nil_append, hopen.serve]

theorem Open.read_eq (h : line.Open) (htoBoard : line.toBoard = []) (limit : Nat) :
    ByteStream.read line limit =
      if line.toHost ≠ [] then
        (.chunk (line.toHost.take limit), { line with toHost := line.toHost.drop limit })
      else (.notReady, line) := by
  have hopen : Open { line with toHost := line.toHost.drop limit } :=
    ⟨h.capacity_eq, h.held, h.stays, h.unsent_eq⟩
  change BoardLine.read line limit = _
  rw [BoardLine.read, hopen.serve]
  simp [h.held, htoBoard]

/-- What such a line does in an action of a connection. -/
inductive Serves (line : BoardLine) (c : Connection) : Action → BoardLine → Prop where
  /-- It takes bytes or passes them on, or it brings what the board has answered. -/
  | transfers {a : Action} {rest : Bytes} (hprogress : a.isProgress) (hsmooth : a.isSmooth)
      (hbefore : line.toHost = a.arrived ++ rest)
      (hreader : ∀ chunk, a = .receive chunk → c.reader?.isSome) :
      Serves line c a
        { line with
          board := (line.board.receiveAll (Trace.written (c.step a).2)).1
          toHost := rest ++ (line.board.receiveAll (Trace.written (c.step a).2)).2 }
  /-- It is shut down, and the board leaves. -/
  | parts {t : Ticket} (hdropped : Event.dropped ∈ (c.step (.shutdownEnds t)).2) :
      Serves line c (.shutdownEnds t) { line with hostDone := true }.serve

private theorem Serves.of_nothing {rest : Bytes} (hprogress : a.isProgress) (hsmooth : a.isSmooth)
    (hbefore : line.toHost = a.arrived ++ rest)
    (hreader : ∀ chunk, a = .receive chunk → c.reader?.isSome)
    (haccept : ∀ count, a ≠ .accept count) (hcloser : ∀ t count, a ≠ .closerAccept t count) :
    Serves line c a { line with toHost := rest } := by
  have h := Serves.transfers hprogress hsmooth hbefore hreader
  rwa [Usage.written_of_change (c.change_step a) haccept hcloser, Board.receiveAll_nil,
    List.append_nil] at h

private theorem Serves.of_accepted {bytes : Bytes} (hprogress : a.isProgress) (hsmooth : a.isSmooth)
    (harrived : a.arrived = []) (hreceive : ∀ chunk, a ≠ .receive chunk)
    (hstep : (c.step a).2 = [.accepted bytes]) :
    Serves line c a
      { line with
        board := (line.board.receiveAll bytes).1
        toHost := line.toHost ++ (line.board.receiveAll bytes).2 } := by
  have hbefore : line.toHost = a.arrived ++ line.toHost := by rw [harrived, List.nil_append]
  have h := Serves.transfers (c := c) hprogress hsmooth hbefore
    fun chunk heq ↦ absurd heq (hreceive chunk)
  rw [hstep] at h
  simpa using h

private theorem Open.serves_closing (h : line.Open) (htoBoard : line.toBoard = [])
    {closer : Closer} (hcloser : c.closer = some closer)
    (hnext : Connection.closing? closer line = some (a, stream)) : line.Serves c a stream := by
  rw [Connection.closing?] at hnext
  split at hnext
  · rename_i hstage
    split at hnext
    · cases hnext
      exact .of_nothing rfl rfl rfl (by simp) (by simp) (by simp)
    · rename_i hout
      rw [h.write_eq htoBoard hout] at hnext
      cases hnext
      have hlength : closer.link.outgoing.length ≠ 0 := by simpa using hout
      have hstep : (c.step (.closerAccept closer.ticket closer.link.outgoing.length)).2 =
          [.accepted closer.link.outgoing] := by
        simp [Connection.step, Connection.closerAccept, Connection.updateCloser, hcloser, hstage,
          hout]
      exact .of_accepted rfl (by simpa [Action.isSmooth] using hlength) rfl (by simp) hstep
  · rename_i hstage
    cases hnext
    refine .parts ?_
    simp [Connection.step, Connection.shutdownEnds, Connection.updateCloser, hcloser, hstage]

private theorem Open.serves_serving (h : line.Open) (htoBoard : line.toBoard = [])
    (hnext : c.serving? line = some (a, stream)) : line.Serves c a stream := by
  rw [Connection.serving?] at hnext
  split at hnext
  · cases hnext
  · rename_i caller rest hline
    split at hnext
    · cases hnext
      exact .of_nothing rfl rfl rfl (by simp) (by simp) (by simp)
    split at hnext
    · rename_i l hwriter
      split at hnext
      · cases hnext
        exact .of_nothing rfl rfl rfl (by simp) (by simp) (by simp)
      · rename_i hout
        rw [h.write_eq htoBoard hout] at hnext
        cases hnext
        have hlength : l.outgoing.length ≠ 0 := by simpa using hout
        have hstep : (c.step (.accept l.outgoing.length)).2 = [.accepted l.outgoing] := by
          simp [Connection.step, Connection.accept, hwriter, hout]
        exact .of_accepted rfl (by simpa [Action.isSmooth] using hlength) rfl (by simp) hstep
    split at hnext
    · rename_i l hreader
      have hsome : c.reader?.isSome := by rw [hreader]; rfl
      by_cases hread : line.toHost ≠ []
      · rw [h.read_eq htoBoard, if_pos hread] at hnext
        cases hnext
        exact .of_nothing rfl rfl (List.take_append_drop _ _).symm (fun _ _ ↦ hsome) (by simp)
          (by simp)
      · rw [h.read_eq htoBoard, if_neg hread] at hnext
        cases hnext
    · cases hnext

theorem Open.serves_next? (h : line.Open) (htoBoard : line.toBoard = [])
    (hnext : c.next? line = some (a, stream)) : line.Serves c a stream := by
  rw [Connection.next?] at hnext
  cases hcloser : c.closer with
  | none =>
    rw [hcloser] at hnext
    exact h.serves_serving htoBoard hnext
  | some closer =>
    rw [hcloser] at hnext
    cases hclosing : Connection.closing? closer line with
    | none =>
      rw [Option.bind_some, hclosing] at hnext
      exact h.serves_serving htoBoard hnext
    | some served =>
      rw [Option.bind_some, hclosing] at hnext
      cases hnext
      exact h.serves_closing htoBoard hcloser hclosing

end BoardLine
end PinballBoard
