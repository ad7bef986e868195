import PinballBoard.Proofs.Platform.Introduction
import PinballBoard.Proofs.Platform.Transcript
import PinballBoard.Proofs.Switch.Table

/-!
# The handshake accepts introductions

A host knows nothing of a board until the handshake has succeeded, and whatever it has misread then
it sends to the wrong coil or lamp ever after. So it should succeed for introductions only
(`Introduction`), find out just what they tell, and stop at the first reply that is not proper.
`Bench.conducted_course` says that it does, for every stream, every way to cut its bytes and every
way in which it ends.

## From a course to its script

A course is a tree: after each question it goes on in a way that depends on the answer. The
handshake makes little use of that, as the questions are always the same. `Follows` forgets the
tree. It says that a course asks the questions of a script and stops at the first reply that is not
proper, and keeps of the answers only what they have to do with what is found out. How a host reads
the replies to one command (`Reads`) is all that is needed to know about each step.

What a bench makes of a course that follows a script is then one induction
(`Bench.pursued_of_follows`), with one question in each step, and does not depend on which script it
is.
-/

namespace PinballBoard

namespace Handshake

/-! ## Readings -/

/-- A host that reads the replies to a command in this way takes the proper ones, each for the
answer that it tells, and blames the board for the others. -/
structure Reads {α : Type} (command : Command) (read : Reply → Except DeviceError α)
    (tell : α → Reply) : Prop where
  ok_iff : ∀ reply answer, read reply = .ok answer ↔ reply = tell answer
  isProper_iff : ∀ reply, reply.isProper command ↔ ∃ answer, reply = tell answer
  blames : ∀ reply error, read reply = .error error → ∃ detail, error = .violation detail

private theorem mapError_eq_ok {ε ε' α : Type} {x : Except ε α} {f : ε → ε'} {answer : α} :
    x.mapError f = .ok answer ↔ x = .ok answer := by
  cases x <;> simp [Except.mapError]

private theorem mapError_eq_error {ε ε' α : Type} {x : Except ε α} {f : ε → ε'} {e : ε'} :
    x.mapError f = .error e ↔ ∃ cause, x = .error cause ∧ f cause = e := by
  cases x <;> simp [Except.mapError]

theorem reads_reset : Reads .reset readReset fun _ ↦ .byte 0 where
  ok_iff := by
    rintro (value | data) ⟨⟩
    · by_cases hvalue : value = 0 <;>
        simp [readReset, Reply.asByte, Except.mapError, Code.resetOk, hvalue, bind, Except.bind]
    · simp [readReset, Reply.asByte, Except.mapError, bind, Except.bind]
  isProper_iff := by
    rintro (value | data) <;> simp [Reply.isProper]
  blames := by
    rintro (value | data) error herror
    · by_cases hvalue : value = 0
      · subst hvalue
        cases herror
      · simp only [readReset, Reply.asByte, Except.mapError, Code.resetOk, hvalue, bind,
          Except.bind, if_false] at herror
        cases herror
        exact ⟨_, rfl⟩
    · cases herror
      exact ⟨_, rfl⟩

theorem ofIdentifier_eq_ok {data : Bytes} {family : Family} :
    Family.ofIdentifier data = .ok family ↔ data = Text.utf8 (Introduction.name family) := by
  have hidentifier : ∀ family, Family.identifier family = Text.utf8 (Introduction.name family) := by
    rintro (_ | _) <;> rfl
  have hne : Family.system1.identifier ≠ Family.system80.identifier := by decide
  rw [← hidentifier, Family.ofIdentifier]
  by_cases hsystem1 : data = Family.system1.identifier
  · subst hsystem1
    cases family <;> simp [hne]
  · by_cases hsystem80 : data = Family.system80.identifier
    · subst hsystem80
      cases family <;> simp [hne.symm]
    · cases family <;> simp [hsystem1, hsystem80]

theorem reads_family :
    Reads .identify readFamily fun family ↦ .string (Text.utf8 (Introduction.name family)) where
  ok_iff := by
    rintro (value | data) family
    · simp [readFamily, Reply.asString, Except.mapError, Except.bind]
    · rw [readFamily, mapError_eq_ok, Reply.string.injEq]
      exact ofIdentifier_eq_ok
  isProper_iff := by
    rintro (value | data)
    · simp [Reply.isProper]
    · rw [Reply.isProper, Bool.or_eq_true, beq_iff_eq, beq_iff_eq]
      constructor
      · rintro (rfl | rfl)
        · exact ⟨.system1, rfl⟩
        · exact ⟨.system80, rfl⟩
      · rintro ⟨_ | _, heq⟩
        · exact .inl (Reply.string.inj heq)
        · exact .inr (Reply.string.inj heq)
  blames := by
    rintro (value | data) error herror
    · cases herror
      exact ⟨_, rfl⟩
    · obtain ⟨cause, hcause, rfl⟩ := mapError_eq_error.mp herror
      have hcause : Family.ofIdentifier data = .error cause := hcause
      rw [Family.ofIdentifier] at hcause
      split_ifs at hcause
      cases hcause
      exact ⟨_, rfl⟩

theorem reads_count {command : Command}
    (h : command ∈ [.countLamps, .countCoils, .countDisplays]) :
    Reads command readCount .byte where
  ok_iff := by
    rintro (value | data) count <;> simp [readCount, Reply.asByte, Except.mapError]
  isProper_iff := by
    simp only [List.mem_cons, List.not_mem_nil, or_false] at h
    rintro (value | data) <;> obtain rfl | rfl | rfl := h <;> simp [Reply.isProper]
  blames := by
    rintro (value | data) error herror
    · cases herror
    · cases herror
      exact ⟨_, rfl⟩

theorem asBool_eq_ok {reply : Reply} {active : Bool} :
    reply.asBool = .ok active ↔ reply = .byte (Introduction.stateByte active) := by
  cases reply with
  | string data => simp [Reply.asBool, Reply.asByte, Except.bind]
  | byte value =>
    by_cases h0 : value = 0
    · subst h0
      cases active <;> simp [Reply.asBool, Reply.asByte, Except.bind, Introduction.stateByte]
    · by_cases h1 : value = 1
      · subst h1
        cases active <;> simp [Reply.asBool, Reply.asByte, Except.bind, Introduction.stateByte]
      · cases active <;>
          simp [Reply.asBool, Reply.asByte, Except.bind, Introduction.stateByte, h0, h1]

theorem reads_state (switch : Switch) :
    Reads (.readSwitch switch) (readState switch) fun active ↦
      .byte (Introduction.stateByte active) where
  ok_iff := by
    intro reply active
    rw [readState, mapError_eq_ok, asBool_eq_ok]
  isProper_iff := by
    rintro (value | data) <;> simp [Reply.isProper, Introduction.stateByte]
  blames := by
    intro reply error herror
    obtain ⟨cause, -, rfl⟩ := mapError_eq_error.mp herror
    exact ⟨_, rfl⟩

/-! ## Courses -/

/-- A course asks the questions of a script in turn as long as the replies are proper, and in the
end has found out something about which this is true. -/
inductive Follows :
    List (HandshakeStage × Command) → (List Reply → Discovery → Prop) → Course → Prop
  | runs {found : List Reply → Discovery → Prop} {discovery : Discovery} (h : found [] discovery) :
    Follows [] found (.done .running (.ok discovery))
  | asks {α : Type} {stage : HandshakeStage} {command : Command} {kind : ReplyKind}
      {read : Reply → Except DeviceError α} {tell : α → Reply} {next : α → Course}
      {script : List (HandshakeStage × Command)} {found : List Reply → Discovery → Prop}
      (hkind : command.replyKind = some kind) (hread : Reads command read tell)
      (hnext : ∀ answer, Follows script (fun replies ↦ found (tell answer :: replies))
        (next answer)) :
    Follows ((stage, command) :: script) found (question stage command read next)

variable {script : List (HandshakeStage × Command)} {found found' : List Reply → Discovery → Prop}
  {course : Course}

theorem Follows.mono (h : Follows script found course)
    (hfound : ∀ replies discovery, found replies discovery → found' replies discovery) :
    Follows script found' course := by
  induction h generalizing found' with
  | runs h => exact .runs (hfound _ _ h)
  | asks hkind hread hnext ih =>
    refine .asks hkind hread fun answer ↦ ih answer ?_
    exact fun replies discovery h ↦ hfound _ discovery h

theorem follows_readSwitches (profile : Profile) (switches : List Switch) (table : SwitchTable) :
    Follows (switches.map fun switch ↦ (.bulkSwitchRead, .readSwitch switch))
      (fun replies discovery ↦ ∃ states : List Bool, states.length = switches.length ∧
        replies = states.map (fun active ↦ .byte (Introduction.stateByte active)) ∧
        discovery = ⟨profile, table.learn (switches.zip states)⟩)
      (readSwitches profile switches table) := by
  induction switches generalizing table with
  | nil => exact .runs ⟨[], rfl, rfl, rfl⟩
  | cons switch switches ih =>
    refine .asks rfl (reads_state switch) fun active ↦ (ih (table.insert switch active)).mono ?_
    rintro replies discovery ⟨states, hlength, rfl, rfl⟩
    exact ⟨active :: states, congrArg Nat.succ hlength, rfl, rfl⟩

/-- The handshake follows its script, and finds out what the board tells. -/
theorem follows_course :
    Follows Handshake.script
      (fun replies discovery ↦ ∃ i : Introduction, replies = i.replies ∧ discovery = i.discovery)
      Handshake.course := by
  refine .asks rfl reads_reset fun _ ↦ .asks rfl reads_family fun family ↦ ?_
  refine .asks rfl (reads_count (by decide)) fun lamps ↦ ?_
  refine .asks rfl (reads_count (by decide)) fun coils ↦ ?_
  refine .asks rfl (reads_count (by decide)) fun displays ↦ ?_
  refine (follows_readSwitches ⟨family, lamps, coils, displays⟩ Switch.all .empty).mono ?_
  rintro replies discovery ⟨states, hlength, rfl, rfl⟩
  have hsize : states.toArray.size = 64 := by
    rw [List.size_toArray, hlength, Switch.length_all]
  refine ⟨⟨family, lamps, coils, displays, ⟨states.toArray, hsize⟩⟩, rfl, ?_⟩
  exact congrArg (Discovery.mk _) (SwitchTable.learn_all ⟨states.toArray, hsize⟩)

/-! ## Breaks -/

/-- How a handshake ends at a question to which the bytes that are left, and the end of the stream
behind them, hold no proper reply. -/
inductive Breaks (peer : String) (stage : HandshakeStage) (command : Command) (bytes : Bytes)
    (e : StreamEnd) : HandshakeStage × Option (Except DeviceError Discovery) → Prop
  /-- Nothing more comes, so the handshake never ends. -/
  | waits (hparse : command.parse? bytes = none) (hshort : ¬command.Overrun bytes)
      (he : e = .hangs) : Breaks peer stage command bytes e (stage, none)
  /-- The stream comes to its end before the reply is complete. -/
  | fails {error : LinkError} (hparse : command.parse? bytes = none)
      (hshort : ¬command.Overrun bytes) (herror : e.failure? peer bytes = some error) :
      Breaks peer stage command bytes e (.failed, some (.error (.transport error)))
  /-- The reply is not what the host wants to hear. -/
  | improper {reply : Reply} {rest : Bytes} (detail : String)
      (hparse : command.parse? bytes = some (reply, rest))
      (hreply : reply.isProper command = false) :
      Breaks peer stage command bytes e (.failed, some (.error (.violation detail)))
  /-- The reply is a string that is too long. -/
  | overruns (detail : String) (hover : command.Overrun bytes) :
      Breaks peer stage command bytes e (.failed, some (.error (.violation detail)))

theorem ofLink_failure {peer : String} {arrived : Bytes} {e : StreamEnd} {error : LinkError}
    (h : e.failure? peer arrived = some error) : DeviceError.ofLink error = .transport error := by
  cases e with
  | hangs => cases h
  | ended =>
    rw [StreamEnd.failure?, Option.some.injEq] at h
    subst h
    split <;> rfl
  | failed detail =>
    cases h
    rfl

/-- A handshake that breaks does not succeed. -/
theorem Breaks.not_ok {peer : String} {stage : HandshakeStage} {command : Command} {bytes : Bytes}
    {e : StreamEnd} {result : HandshakeStage × Option (Except DeviceError Discovery)}
    (h : Breaks peer stage command bytes e result) (discovery : Discovery) :
    result.2 ≠ some (.ok discovery) := by
  cases h <;> nofun

end Handshake

/-! ## The run -/

namespace Bench

open Handshake

variable {σ : Type} {holds : σ → Bytes → StreamEnd → Prop} {peer : String} {bytes : Bytes}
  {e : StreamEnd} {b : Bench σ} {script : List (HandshakeStage × Command)}
  {found : List Reply → Discovery → Prop} {course : Course}

/-- What has become of a course that follows a script where `bytes` and then `e` were to be read,
and which the host has begun when it had written `written`. -/
structure Pursued (peer : String) (script : List (HandshakeStage × Command))
    (found : List Reply → Discovery → Prop) (bytes : Bytes) (e : StreamEnd) (written : Bytes)
    (result : (HandshakeStage × Option (Except DeviceError Discovery)) × Bench σ) : Prop where
  /-- A question is asked exactly if those before it have got proper replies. -/
  written_eq : result.2.written = written ++ Command.frames
    ((script.take ((Reply.proper (script.map Prod.snd) bytes).1.length + 1)).map Prod.snd)
  completes : (Reply.proper (script.map Prod.snd) bytes).1.length = script.length →
    ∃ discovery, found (Reply.proper (script.map Prod.snd) bytes).1 discovery ∧
      result.1 = (.running, some (.ok discovery))
  breaks : ∀ stage command,
    script[(Reply.proper (script.map Prod.snd) bytes).1.length]? = some (stage, command) →
      Breaks peer stage command (Reply.proper (script.map Prod.snd) bytes).2 e result.1

theorem Pursued.of_breaks {stage : HandshakeStage} {command : Command} {written : Bytes}
    {result : (HandshakeStage × Option (Except DeviceError Discovery)) × Bench σ}
    (hproper : Reply.proper (command :: script.map Prod.snd) bytes = ([], bytes))
    (hwritten : result.2.written = written ++ command.frame)
    (hbreaks : Breaks peer stage command bytes e result.1) :
    Pursued peer ((stage, command) :: script) found bytes e written result := by
  have hproper : Reply.proper (((stage, command) :: script).map Prod.snd) bytes = ([], bytes) :=
    hproper
  constructor
  · rw [hproper, hwritten]
    simp
  · intro hlength
    rw [hproper] at hlength
    cases hlength
  · intro stage' command' hget
    rw [hproper] at hget ⊢
    cases hget
    exact hbreaks

theorem Pursued.cons {stage : HandshakeStage} {command : Command} {reply : Reply} {rest : Bytes}
    {written written' : Bytes}
    {result : (HandshakeStage × Option (Except DeviceError Discovery)) × Bench σ}
    (h : Pursued peer script (fun replies ↦ found (reply :: replies)) rest e written' result)
    (hproper : Reply.proper (command :: script.map Prod.snd) bytes =
      (reply :: (Reply.proper (script.map Prod.snd) rest).1,
        (Reply.proper (script.map Prod.snd) rest).2))
    (hwritten : written' = written ++ command.frame) :
    Pursued peer ((stage, command) :: script) found bytes e written result := by
  have hproper : Reply.proper (((stage, command) :: script).map Prod.snd) bytes = _ := hproper
  constructor
  · rw [hproper, h.written_eq, hwritten, List.append_assoc]
    rfl
  · intro hlength
    rw [hproper] at hlength ⊢
    exact h.completes (Nat.succ.inj hlength)
  · intro stage' command' hget
    rw [hproper] at hget ⊢
    exact h.breaks stage' command' hget

variable [ByteStream σ]

/-- A course that follows a script goes as far as the replies are proper. -/
theorem pursued_of_follows (hsupply : Supplies holds) (hcourse : Follows script found course)
    (h : b.Resting holds peer bytes e) (deadline : Nat) :
    Pursued peer script found bytes e b.written (b.converse deadline course) := by
  -- one question in each step, and the bench rests again after each that is answered properly
  induction hcourse generalizing b bytes with
  | @runs found discovery hfound =>
    constructor
    · simp [converse]
    · intro hlength
      exact ⟨discovery, hfound, rfl⟩
    · intro stage command hget
      cases hget
  | @asks α stage command kind read tell next script found hkind hread hnext ih =>
    obtain ⟨hwritten, htold⟩ := told_of_resting hsupply h hkind deadline
    rw [question, converse_ask]
    generalize b.inquire deadline command = answer at hwritten htold ⊢
    cases htold with
    | @replied b' reply rest hparse hresting =>
      rw [← Command.parse?_eq hkind] at hparse
      simp only [Outcome.asReply, Except.bind]
      cases hanswer : read reply with
      | ok answer =>
        obtain rfl := (hread.ok_iff reply answer).mp hanswer
        have hreply : (tell answer).isProper command := (hread.isProper_iff _).mpr ⟨answer, rfl⟩
        exact (ih answer hresting).cons (Reply.parseWhile_of_good hparse hreply _) hwritten
      | error error =>
        -- what the host blames the board for is not proper, as proper replies tell an answer
        obtain ⟨detail, rfl⟩ := hread.blames reply error hanswer
        have himproper : reply.isProper command = false := by
          refine Bool.eq_false_iff.mpr fun hproper ↦ ?_
          obtain ⟨answer, htell⟩ := (hread.isProper_iff reply).mp hproper
          rw [(hread.ok_iff reply answer).mpr htell] at hanswer
          cases hanswer
        exact .of_breaks (Reply.parseWhile_of_not_good hparse himproper) hwritten
          (.improper detail hparse himproper)
    | waits hparse hshort he =>
      rw [← Command.parse?_eq hkind] at hparse
      rw [← Command.overrun_iff hkind] at hshort
      exact .of_breaks (Reply.parseWhile_of_missing hparse) hwritten (.waits hparse hshort he)
    | fails hparse hshort herror hclosed =>
      rw [← Command.parse?_eq hkind] at hparse
      rw [← Command.overrun_iff hkind] at hshort
      simp only [Outcome.asReply, Except.bind, ofLink_failure herror]
      exact .of_breaks (Reply.parseWhile_of_missing hparse) hwritten (.fails hparse hshort herror)
    | overruns hover =>
      rw [← Command.overrun_iff hkind] at hover
      simp only [Outcome.asReply, Except.bind]
      exact .of_breaks (Reply.proper_of_overrun hover) hwritten (.overruns _ hover)

/-- What has become of a handshake where `bytes` and then `e` were to be read. -/
structure Conducted (peer : String) (bytes : Bytes) (e : StreamEnd)
    (result : (HandshakeStage × Option (Except DeviceError Discovery)) × Bench σ) : Prop where
  /-- It succeeds exactly if the bytes begin with an introduction, and finds out what that tells. -/
  ok_iff : ∀ discovery, result.1.2 = some (.ok discovery) ↔
    ∃ i : Introduction, i.wire <+: bytes ∧ i.discovery = discovery
  /-- Then it has come to its last stage, each address has got its own state, and all questions have
  been asked. -/
  accepted : ∀ i : Introduction, i.wire <+: bytes →
    result.1 = (.running, some (.ok i.discovery)) ∧
      (∀ row column : Fin 8, i.discovery.switches.get? (.ofPosition row column) =
        some i.states[8 * (row : Nat) + column]) ∧
      result.2.written = [100, 0, 3, 4, 6] ++ (List.range 8).flatMap fun row ↦
        (List.range 8).flatMap fun column ↦ [40, UInt8.ofNat (10 * row + column)]
  /-- A question is asked exactly if those before it have got proper replies. -/
  written_eq : result.2.written =
    Command.frames ((Handshake.script.take ((answered bytes).1.length + 1)).map Prod.snd)
  /-- Otherwise it breaks at the first question that has not got a proper reply. -/
  refused : (¬∃ i : Introduction, i.wire <+: bytes) → ∃ stage command,
    Handshake.script[(answered bytes).1.length]? = some (stage, command) ∧
      Breaks peer stage command (answered bytes).2 e result.1

/-- **The handshake accepts introductions, in lock step.** On a connection that has just been opened
it succeeds exactly if the stream brings an introduction, however the bytes are cut. Otherwise it
breaks at the first question to which there is no proper reply, and asks nothing after it. -/
theorem conducted_course (hsupply : Supplies holds) (bytes : Bytes) (e : StreamEnd) (peer : String)
    (stream : σ) (hstream : holds stream bytes e) (deadline : Nat) :
    Conducted peer bytes e ((ofStream peer stream).converse deadline Handshake.course) := by
  obtain ⟨hwritten, hcompletes, hbreaks⟩ := pursued_of_follows hsupply follows_course
    (resting_ofStream peer hstream) deadline
  rw [← answered] at hwritten hcompletes hbreaks
  generalize (ofStream peer stream).converse deadline Handshake.course = result at *
  have hlength : (answered bytes).1.length ≤ Handshake.script.length := by
    rw [← List.length_map Prod.snd]
    exact Reply.length_parseWhile_le _ _ _
  rcases Nat.lt_or_eq_of_le hlength with hless | hall
  · -- an introduction would have answered the question at which the handshake breaks
    have hnone : ∀ i : Introduction, ¬i.wire <+: bytes := by
      intro i hwire
      rw [i.answered_of_wire hwire, i.length_replies] at hless
      exact Nat.lt_irrefl _ hless
    obtain ⟨⟨stage, command⟩, hget⟩ : ∃ question,
        Handshake.script[(answered bytes).1.length]? = some question :=
      ⟨_, List.getElem?_eq_getElem hless⟩
    have hbreak := hbreaks stage command hget
    refine ⟨fun discovery ↦ ⟨fun hok ↦ ?_, ?_⟩, fun i hwire ↦ absurd hwire (hnone i), hwritten,
      fun _ ↦ ⟨stage, command, hget, hbreak⟩⟩
    · exact absurd hok (hbreak.not_ok discovery)
    · rintro ⟨i, hwire, -⟩
      exact absurd hwire (hnone i)
  · obtain ⟨discovery, ⟨i, hreplies, rfl⟩, hresult⟩ := hcompletes hall
    have hwire : i.wire <+: bytes := by
      rw [← i.flatMap_wire_replies, ← hreplies]
      exact ⟨(answered bytes).2, (Reply.eq_append_parseWhile _ _ _).symm⟩
    have honly : ∀ j : Introduction, j.wire <+: bytes → j = i := by
      intro j hj
      apply Introduction.replies_injective
      rw [← j.answered_of_wire hj, hreplies]
    refine ⟨fun discovery ↦ ⟨fun hok ↦ ?_, ?_⟩, fun j hj ↦ ?_, hwritten,
      fun hnone ↦ absurd ⟨i, hwire⟩ hnone⟩
    · rw [hresult, Option.some.injEq, Except.ok.injEq] at hok
      exact ⟨i, hwire, hok⟩
    · rintro ⟨j, hj, rfl⟩
      rw [hresult, honly j hj]
    · obtain rfl := honly j hj
      refine ⟨hresult, j.get?_switches, ?_⟩
      have hwritten : result.2.written = Command.frames _ := hwritten
      rw [hwritten, hall, List.take_of_length_le (Nat.le_succ _), Handshake.frames_script]

/-- A board of the later family, all of whose switches are active, with the name cut in two. -/
theorem conducted_course_of_chunks :
    ((ofStream "board" (⟨[.chunk [0, 76, 73], .chunk ([83, 89, 56, 48, 0, 1, 2, 3] ++
        List.replicate 64 1)], .open, 0, .finishing⟩ : ScriptedStream)).converse 0
          Handshake.course).1 =
      (.running, some (.ok ⟨⟨.system80, 1, 2, 3⟩, ⟨Vector.replicate 64 (some true)⟩⟩)) := by
  have hstream : ScriptedStream.Brings
      ⟨[.chunk [0, 76, 73], .chunk ([83, 89, 56, 48, 0, 1, 2, 3] ++ List.replicate 64 1)],
        .open, 0, .finishing⟩
      ([0, 76, 73, 83, 89, 56, 48, 0, 1, 2, 3] ++ List.replicate 64 1) .hangs :=
    ⟨rfl, [[0, 76, 73], [83, 89, 56, 48, 0, 1, 2, 3] ++ List.replicate 64 1], [], by decide, rfl,
      rfl, .hangs⟩
  have h := conducted_course ScriptedStream.supplies _ .hangs "board" _ hstream 0
  have hresult := (h.accepted ⟨.system80, 1, 2, 3, Vector.replicate 64 true⟩ ⟨[], by decide⟩).1
  rwa [Introduction.discovery, Vector.map_replicate] at hresult

end Bench

end PinballBoard
